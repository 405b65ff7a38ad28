import P2PWatcher.Crc.Table

/-!
# What the checksum detects

Two messages of one length that differ only inside of 16 bits have two checksums. A message
with two more bytes has the checksum 0 if and only if these are its checksum, the high byte
first.
-/

namespace P2PWatcher

namespace Crc

open Text Register Polynomial

/-- Errors inside of 16 bits, the high bit of a byte first, change the checksum. -/
theorem calcCrc_ne_of_burst (fsz : List UInt8) {xs ys : List UInt8}
    (hlen : xs.length = ys.length) (hne : xs ≠ ys) {p : ℕ}
    (hburst : ∀ i, (bitsOf (words xs))[i]? ≠ (bitsOf (words ys))[i]? → p ≤ i ∧ i < p + 16) :
    calcCrc fsz xs .func ≠ calcCrc fsz ys .func := by
  have hregister : register xs ≠ register ys :=
    run_ne_of_window (by decide) (by decide) (by decide) 0 (by simpa using hlen)
      (fun h => hne (words_injective h)) hburst
  rw [calcCrc_func, calcCrc_func]
  exact fun h => hregister (ofRegister_injective (Except.ok.inj h))

/-- A burst over three bytes. -/
theorem calcCrc_ne_of_burst_bytes :
    calcCrc [] [0x41, 0x00, 0xFF, 0x42] .func ≠ calcCrc [] [0x41, 0x01, 0x00, 0xC2] .func :=
  calcCrc_ne_of_burst [] (p := 15) rfl (by decide) (by
    have hwindow : ∀ i < 32, (bitsOf (words [0x41, 0x00, 0xFF, 0x42]))[i]? ≠
        (bitsOf (words [0x41, 0x01, 0x00, 0xC2]))[i]? → 15 ≤ i ∧ i < 15 + 16 := by
      decide
    intro i hi
    by_cases h : i < 32
    · exact hwindow i h hi
    · rw [List.getElem?_eq_none (by simpa using h), List.getElem?_eq_none (by simpa using h)] at hi
      exact absurd rfl hi)

theorem register_append (m bytes : List UInt8) :
    register (m ++ bytes) = run 0x1021#16 (register m) (words bytes) := by
  rw [register, words, List.map_append, run_append]
  rfl

theorem ofWords_pair (h l : UInt8) :
    ofWords (words [h, l]) = polyOf (h.toBitVec ++ l.toBitVec) := by
  rw [polyOf_append]
  simp [words, ofWords]

theorem register_append_eq_zero_iff (m : List UInt8) (h l : UInt8) :
    register (m ++ [h, l]) = 0 ↔ (register m).toNat = 256 * h.toNat + l.toNat := by
  have hpair : (h.toBitVec ++ l.toBitVec).toNat = 256 * h.toNat + l.toNat := by
    rw [BitVec.toNat_append, UInt8.toNat_toBitVec, UInt8.toNat_toBitVec,
      ← Nat.shiftLeft_add_eq_or_of_lt l.toNat_lt, Nat.shiftLeft_eq, mul_comm]
  rw [register_append, run_eq_zero_iff (by decide) (by decide) (by decide) _ _ (by simp),
    ofWords_pair, ← hpair, BitVec.toNat_inj]
  simp only [words_length, List.length_cons, List.length_nil, Nat.reduceMul, Nat.reduceAdd,
    Nat.sub_self, pow_zero, one_mul, polyOf_injective.eq_iff]

/-- The two bytes of the register. -/
theorem exists_bytes_of_register (r : BitVec 16) :
    ∃ h l : UInt8, r.toNat = 256 * h.toNat + l.toNat := by
  have hlt := r.isLt
  refine ⟨UInt8.ofNat (r.toNat / 256), UInt8.ofNat (r.toNat % 256), ?_⟩
  rw [UInt8.toNat_ofNat', UInt8.toNat_ofNat']
  omega

/-- Two appended bytes leave 0 exactly when they are the checksum, the high byte first, and
every message has such bytes. -/
theorem calcCrc_append_eq_zero_iff (mode : ModeCrc) (m : List UInt8) :
    (∀ h l : UInt8, calcCrc crcDat (m ++ [h, l]) mode = .ok 0 ↔
      ∃ crc, calcCrc crcDat m mode = .ok crc ∧ crc.toInt = 256 * h.toNat + l.toNat) ∧
    ∃ h l : UInt8, calcCrc crcDat (m ++ [h, l]) mode = .ok 0 := by
  have hzero : ∀ h l : UInt8, calcCrc crcDat (m ++ [h, l]) mode = .ok 0 ↔
      (register m).toNat = 256 * h.toNat + l.toNat := by
    intro h l
    rw [← register_append_eq_zero_iff, calcCrc_eq, Except.ok.injEq,
      ← ofRegister_injective.eq_iff]
    rfl
  constructor
  · intro h l
    rw [hzero, calcCrc_eq]
    constructor
    · intro hr
      refine ⟨_, rfl, ?_⟩
      rw [toInt_ofRegister, hr]
      push_cast
      rfl
    · rintro ⟨crc, hcrc, hr⟩
      rw [← Except.ok.inj hcrc, toInt_ofRegister] at hr
      exact_mod_cast hr
  · obtain ⟨h, l, hbytes⟩ := exists_bytes_of_register (register m)
    exact ⟨h, l, (hzero h l).mpr hbytes⟩

/-- The message of the Python program, and its checksum. -/
theorem calcCrc_append_eq_zero_sample :
    calcCrc crcDat ([0xA5, 0x90, 0x00, 0x6C, 0, 0, 0, 0, 0, 0, 4, 0, 0, 0] ++ [0x38, 0xF6])
      .func = .ok 0 ∧
    ∃ crc, calcCrc crcDat [0xA5, 0x90, 0x00, 0x6C, 0, 0, 0, 0, 0, 0, 4, 0, 0, 0] .func =
      .ok crc ∧ crc.toInt = 0x38F6 := by
  have hzero : calcCrc crcDat ([0xA5, 0x90, 0x00, 0x6C, 0, 0, 0, 0, 0, 0, 4, 0, 0, 0] ++
      [0x38, 0xF6]) .func = .ok 0 := by
    decide +kernel
  exact ⟨hzero, ((calcCrc_append_eq_zero_iff .func _).1 0x38 0xF6).mp hzero⟩

end Crc

end P2PWatcher
