import Mathlib.Tactic.NormNum.Prime
import P2PWatcher.Crc.Table
import P2PWatcher.Register.Errors

/-!
# Single errors

The modulus of the checksum has the root 1, and the register comes back to 1 after 32767 shifts
and not before. So the checksum changes with every odd number of errors, wherever they are,
and with two errors whose distance is not a multiple of 32767. In messages of up to 4095
bytes there is no such distance, and less than four errors are always detected.
-/

namespace P2PWatcher

namespace Crc

open Register Function

/-! ## The period of the register -/

/-- `f^[n] m`. At each step `m` is looked at, so that the kernel evaluates it. -/
def loop (f : ℕ → ℕ) : ℕ → ℕ → ℕ
  | 0, m => m
  | n + 1, 0 => loop f n (f 0)
  | n + 1, m + 1 => loop f n (f (m + 1))

theorem loop_eq (f : ℕ → ℕ) (n m : ℕ) : loop f n m = f^[n] m := by
  induction n generalizing m with
  | zero => cases m <;> rfl
  | succ n ih => cases m <;> rw [loop, ih, iterate_succ_apply]

theorem toNat_shift_iterate (n : ℕ) (r : BitVec 16) :
    ((shift 0x1021#16)^[n] r).toNat = loop ccittBit n r.toNat := by
  rw [loop_eq]
  exact Semiconj.iterate_right (fun r => (ccittBit_toNat r).symm) n r

theorem isPeriodicPt_iff (n : ℕ) :
    IsPeriodicPt (shift 0x1021#16) n 1#16 ↔ loop ccittBit n 1 = 1 := by
  rw [IsPeriodicPt, IsFixedPt, ← BitVec.toNat_inj, toNat_shift_iterate]
  rfl

/-- A prime that divides 7 times 31 times 151 is one of these. -/
theorem eq_of_dvd_factors {p : ℕ} (hp : p.Prime) (h : p ∣ 7 * 31 * 151) :
    p = 7 ∨ p = 31 ∨ p = 151 := by
  rcases hp.dvd_mul.mp h with h | h
  · rcases hp.dvd_mul.mp h with h | h
    · exact .inl ((Nat.prime_dvd_prime_iff_eq hp (by norm_num)).mp h)
    · exact .inr (.inl ((Nat.prime_dvd_prime_iff_eq hp (by norm_num)).mp h))
  · exact .inr (.inr ((Nat.prime_dvd_prime_iff_eq hp (by norm_num)).mp h))

/-- A shorter period would divide 32767 with one of its prime factors left out. -/
theorem minimalPeriod_shift : minimalPeriod (shift 0x1021#16) 1#16 = 32767 := by
  have hdvd (n : ℕ) : minimalPeriod (shift 0x1021#16) 1#16 ∣ n ↔ loop ccittBit n 1 = 1 := by
    rw [← isPeriodicPt_iff_minimalPeriod_dvd, isPeriodicPt_iff]
  obtain ⟨c, hc⟩ := (hdvd 32767).mpr (by decide +kernel)
  generalize minimalPeriod (shift 0x1021#16) 1#16 = m at hdvd hc
  have hone : c = 1 := by
    by_contra hne
    obtain ⟨p, hp, d, rfl⟩ := Nat.exists_prime_and_dvd hne
    rw [Nat.mul_left_comm] at hc
    rcases eq_of_dvd_factors hp ⟨m * d, hc⟩ with rfl | rfl | rfl
    · exact absurd ((hdvd 4681).mp ⟨d, by omega⟩) (by decide +kernel)
    · exact absurd ((hdvd 1057).mp ⟨d, by omega⟩) (by decide +kernel)
    · exact absurd ((hdvd 217).mp ⟨d, by omega⟩) (by decide +kernel)
  rw [hc, hone, mul_one]

/-! ## Few errors -/

theorem calcCrc_eq_iff (mode : ModeCrc) (xs ys : List UInt8) :
    calcCrc crcDat xs mode = calcCrc crcDat ys mode ↔ register xs = register ys := by
  rw [calcCrc_eq, calcCrc_eq, Except.ok.injEq, ofRegister_injective.eq_iff]

section

variable {xs ys : List UInt8} (hlen : xs.length = ys.length)

include hlen

theorem words_length_eq : (words xs).length = (words ys).length := by
  rwa [words_length, words_length]

theorem register_ne_of_odd (hodd : Odd (errors (words xs) (words ys)).card) :
    register xs ≠ register ys := by
  have hone : (modulus 0x1021#16).eval 1 = 0 := by
    rw [eval_one_modulus]
    decide
  exact run_ne_of_odd (by decide) (by decide) (by decide) hone 0 (words_length_eq hlen) hodd

theorem register_eq_iff_of_pair {p q : ℕ} (hpq : p < q)
    (herrors : errors (words xs) (words ys) = {p, q}) :
    register xs = register ys ↔ 32767 ∣ q - p := by
  rw [← minimalPeriod_shift]
  exact run_eq_iff_of_pair (by decide) (by decide) (by decide) 0 (words_length_eq hlen) hpq herrors

/-- Two errors in a short message are too close to be missed. -/
theorem register_ne_of_pair (hshort : xs.length ≤ 4095) {p q : ℕ} (hpq : p < q)
    (herrors : errors (words xs) (words ys) = {p, q}) : register xs ≠ register ys := by
  have hq : q < 8 * (words xs).length := lt_of_mem_errors (by rw [herrors]; simp)
  rw [words_length] at hq
  rw [ne_eq, register_eq_iff_of_pair hlen hpq herrors]
  intro hdvd
  have hle := Nat.le_of_dvd (by omega) hdvd
  omega

end

/-- An odd number of errors changes the checksum. -/
theorem calcCrc_ne_of_odd (mode : ModeCrc) {xs ys : List UInt8} (hlen : xs.length = ys.length)
    (hodd : Odd (errors (words xs) (words ys)).card) :
    calcCrc crcDat xs mode ≠ calcCrc crcDat ys mode := by
  rw [ne_eq, calcCrc_eq_iff]
  exact register_ne_of_odd hlen hodd

theorem calcCrc_ne_of_odd_three :
    calcCrc crcDat [0x41, 0x00, 0x42] .table ≠ calcCrc crcDat [0xC1, 0x10, 0x43] .table :=
  calcCrc_ne_of_odd .table rfl (by decide +kernel)

/-- Two errors are missed if and only if their distance is a multiple of 32767. -/
theorem calcCrc_eq_iff_of_pair (mode : ModeCrc) {xs ys : List UInt8}
    (hlen : xs.length = ys.length) {p q : ℕ} (hpq : p < q)
    (herrors : errors (words xs) (words ys) = {p, q}) :
    calcCrc crcDat xs mode = calcCrc crcDat ys mode ↔ 32767 ∣ q - p := by
  rw [calcCrc_eq_iff, register_eq_iff_of_pair hlen hpq herrors]

theorem calcCrc_eq_iff_of_pair_ends :
    calcCrc crcDat [0x00, 0x00, 0x00] .table ≠ calcCrc crcDat [0x80, 0x00, 0x01] .table := by
  have herrors : errors (words [0x00, 0x00, 0x00]) (words [0x80, 0x00, 0x01]) = {0, 23} := by
    decide +kernel
  have hiff := @calcCrc_eq_iff_of_pair .table [0x00, 0x00, 0x00] [0x80, 0x00, 0x01] rfl 0 23
    (by decide) herrors
  rw [ne_eq, hiff]
  decide

/-- Two messages of up to 4095 bytes that have the same checksum differ in four bits or more. -/
theorem four_le_errors (mode : ModeCrc) {xs ys : List UInt8} (hlen : xs.length = ys.length)
    (hshort : xs.length ≤ 4095) (hne : xs ≠ ys)
    (heq : calcCrc crcDat xs mode = calcCrc crcDat ys mode) :
    4 ≤ (errors (words xs) (words ys)).card := by
  rw [calcCrc_eq_iff] at heq
  have hodd : ¬ Odd (errors (words xs) (words ys)).card :=
    fun hodd => register_ne_of_odd hlen hodd heq
  have hzero : (errors (words xs) (words ys)).card ≠ 0 := fun hcard => hne
    (words_injective (eq_of_errors_eq_empty (words_length_eq hlen) (Finset.card_eq_zero.mp hcard)))
  have htwo : (errors (words xs) (words ys)).card ≠ 2 := by
    intro hcard
    obtain ⟨p, q, hpq, herrors⟩ := Finset.card_eq_two.mp hcard
    rcases Nat.lt_or_gt_of_ne hpq with hlt | hlt
    · exact register_ne_of_pair hlen hshort hlt herrors heq
    · rw [Finset.pair_comm] at herrors
      exact register_ne_of_pair hlen hshort hlt herrors heq
  rw [Nat.not_odd_iff_even, Nat.even_iff] at hodd
  omega

/-- The feedback itself is missed: four errors at the bits of `0x11021`. -/
theorem four_le_errors_feedback :
    4 ≤ (errors (words [0x00, 0x00, 0x00]) (words [0x01, 0x10, 0x21])).card :=
  four_le_errors .func rfl (by decide) (by decide) (by decide +kernel)

end Crc

end P2PWatcher
