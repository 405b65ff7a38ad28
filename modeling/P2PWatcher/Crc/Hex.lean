import Mathlib.Algebra.Group.Nat.Even
import P2PWatcher.Memory.Field
import P2PWatcher.Text.Read

/-!
# Bytes from a text

`hexToBytes` cuts a text into pieces of two characters and gives each to `std::stoi`. A piece
that begins with a digit is read, whatever its second character is, and so is a blank or a
sign with a digit behind it. The bytes are therefore those of a text of digit pairs, but a
text that is not of this form is refused only if one of its pieces is (`hexToBytes_meets_iff`).
-/

namespace P2PWatcher

namespace Crc

open Text Memory

/-- The results of `substr(i, 2)`, where the last one may have one character. -/
def pieces : List UInt8 → List (List UInt8)
  | [] => []
  | [c] => [[c]]
  | c :: d :: hex => [c, d] :: pieces hex

def hexToBytes (hex : List UInt8) : Except StdError (List UInt8) :=
  (pieces hex).mapM fun byteString => UInt8.ofInt <$> stoi byteString

/-! ## What is meant -/

/-- An even number of digits. -/
def IsHex (s : List UInt8) : Prop := Even s.length ∧ ∀ c ∈ s, (digit c).isSome

/-- The values of the pairs of digits. -/
def pairValues (s : List UInt8) : List UInt8 :=
  (pieces s).map fun p => (value (p.filterMap digit)).toUInt8

/-- A text of digit pairs is read, and any other one is refused. -/
def ReadsHex (s : List UInt8) : Prop :=
  (IsHex s → hexToBytes s = .ok (pairValues s)) ∧ (¬ IsHex s → ∃ e, hexToBytes s = .error e)

/-- A piece begins with a digit, or with a digit behind one blank or sign. -/
def startsNumber : List UInt8 → Bool
  | [] => false
  | [c] => (digit c).isSome
  | c :: d :: _ => (digit c).isSome || ((isSpace c || isSign c) && (digit d).isSome)

/-! ## The pieces -/

theorem length_of_mem_pieces {s p : List UInt8} (h : p ∈ pieces s) : p ≠ [] ∧ p.length ≤ 2 := by
  fun_induction pieces s with
  | case1 => cases h
  | case2 c =>
      rw [List.mem_singleton.mp h]
      exact ⟨List.cons_ne_nil _ _, Nat.le_succ 1⟩
  | case3 c d hex ih =>
      rcases List.mem_cons.mp h with rfl | h
      · exact ⟨List.cons_ne_nil _ _, le_refl 2⟩
      · exact ih h

theorem mem_of_mem_pieces {s p : List UInt8} (h : p ∈ pieces s) {c : UInt8} (hc : c ∈ p) :
    c ∈ s := by
  fun_induction pieces s with
  | case1 => cases h
  | case2 c' => rwa [List.mem_singleton.mp h] at hc
  | case3 c' d hex ih =>
      rcases List.mem_cons.mp h with rfl | h
      · exact List.mem_append_left hex hc
      · exact List.mem_append_right [c', d] (ih h)

/-- A piece is refused exactly when no number starts in it. -/
theorem stoi_piece {p : List UInt8} (h : p.length ≤ 2) :
    (∃ e, stoi p = .error e) ↔ startsNumber p = false := by
  rw [stoi_eq_error_iff (h.trans (by decide))]
  obtain _ | ⟨c, _ | ⟨d, _ | ⟨_, _⟩⟩⟩ := p
  · exact iff_of_true rfl rfl
  · rcases char_cases c with ⟨hspace, hdigit⟩ | ⟨hspace, hsign, hdigit⟩ | ⟨hspace, hsign⟩
    · simp [startsNumber, sign, leadingDigits, hspace, hdigit]
    · simp [startsNumber, sign, leadingDigits, hspace, hsign, hdigit]
    · simp [startsNumber, sign, hspace, hsign, leadingDigits_cons_eq_nil_iff]
  · rcases char_cases c with ⟨hspace, hdigit⟩ | ⟨hspace, hsign, hdigit⟩ | ⟨hspace, hsign⟩
    · -- behind a blank, the second character decides, and it may be of each kind
      rcases char_cases d with ⟨hspace', hdigit'⟩ | ⟨hspace', hsign', hdigit'⟩ | ⟨hspace', hsign'⟩
      · simp [startsNumber, sign, leadingDigits, hspace, hspace', hdigit, hdigit']
      · simp [startsNumber, sign, leadingDigits, hspace, hspace', hsign', hdigit, hdigit']
      · simp [startsNumber, sign, hspace, hspace', hsign', hdigit, leadingDigits_cons_eq_nil_iff]
    · simp [startsNumber, sign, hspace, hsign, hdigit, leadingDigits_cons_eq_nil_iff]
    · simp [startsNumber, sign, hspace, hsign, leadingDigits_cons_eq_nil_iff]
  · exact absurd h (by simp)

/-- The byte of a piece that is read. -/
def readByte (p : List UInt8) : UInt8 :=
  match stoi p with
  | .ok n => UInt8.ofInt n
  | .error _ => 0

/-- The text is read when a number starts in each piece. -/
theorem hexToBytes_eq_ok_iff (s bytes : List UInt8) :
    hexToBytes s = .ok bytes ↔
      (∀ p ∈ pieces s, startsNumber p = true) ∧ (pieces s).map readByte = bytes := by
  refine mapM_eq_ok_iff (pieces s) (fun p hp byte => ?_) bytes
  have hpiece := stoi_piece (length_of_mem_pieces hp).2
  rw [map_eq_ok_iff, readByte]
  cases hstoi : stoi p with
  | error e =>
      rw [hpiece.mp ⟨e, hstoi⟩]
      simp
  | ok n =>
      have hstart : startsNumber p = true := by
        by_contra hstart
        obtain ⟨e, he⟩ := hpiece.mpr (Bool.eq_false_of_not_eq_true hstart)
        rw [hstoi] at he
        cases he
      simp [hstart]

theorem exists_error_iff (s : List UInt8) :
    (∃ e, hexToBytes s = .error e) ↔ ∃ p ∈ pieces s, startsNumber p = false := by
  have hok := hexToBytes_eq_ok_iff s
  constructor
  · rintro ⟨e, he⟩
    by_contra hall
    push Not at hall
    have h := (hok ((pieces s).map readByte)).mpr
      ⟨fun p hp => Bool.eq_true_of_not_eq_false (hall p hp), rfl⟩
    rw [he] at h
    cases h
  · rintro ⟨p, hp, hstart⟩
    cases h : hexToBytes s with
    | error e => exact ⟨e, rfl⟩
    | ok bytes =>
        rw [((hok bytes).mp h).1 p hp] at hstart
        cases hstart

/-! ## Digit pairs -/

theorem ofInt_natCast (n : ℕ) : UInt8.ofInt n = n.toUInt8 := by
  rw [← UInt8.toNat_inj, UInt8.ofInt, UInt8.toNat_ofNat', Nat.toUInt8, UInt8.toNat_ofNat']
  omega

theorem hexToBytes_of_isHex {s : List UInt8} (hs : IsHex s) :
    hexToBytes s = .ok (pairValues s) := by
  have hread : ∀ p ∈ pieces s, stoi p = .ok (value (p.filterMap digit)) := fun p hp =>
    stoi_of_digits (length_of_mem_pieces hp).1 ((length_of_mem_pieces hp).2.trans (by decide))
      fun c hc => hs.2 c (mem_of_mem_pieces hp hc)
  refine (hexToBytes_eq_ok_iff s _).mpr ⟨fun p hp => ?_, List.map_congr_left fun p hp => ?_⟩
  · by_contra hstart
    obtain ⟨e, he⟩ := (stoi_piece (length_of_mem_pieces hp).2).mpr
      (Bool.eq_false_of_not_eq_true hstart)
    rw [hread p hp] at he
    cases he
  · rw [readByte, hread p hp]
    exact ofInt_natCast _

/-- Two digits for each byte. -/
def encode (bytes : List UInt8) : List UInt8 :=
  bytes.flatMap fun b => [hexDigit (b.toNat / 16), hexDigit (b.toNat % 16)]

theorem digit_halves (b : UInt8) : digit (hexDigit (b.toNat / 16)) = some (b.toNat / 16) ∧
    digit (hexDigit (b.toNat % 16)) = some (b.toNat % 16) := by
  have hb := b.toNat_lt
  exact ⟨digit_hexDigit _ (by omega), digit_hexDigit _ (by omega)⟩

theorem isHex_encode (bytes : List UInt8) : IsHex (encode bytes) := by
  constructor
  · induction bytes with
    | nil => exact Even.zero
    | cons b bs ih =>
        rw [encode, List.flatMap_cons, List.length_append, ← encode]
        exact Even.add even_two ih
  · intro c hc
    obtain ⟨b, -, hb⟩ := List.mem_flatMap.mp hc
    simp only [List.mem_cons, List.not_mem_nil, or_false] at hb
    rcases hb with rfl | rfl
    · rw [(digit_halves b).1, Option.isSome_some]
    · rw [(digit_halves b).2, Option.isSome_some]

theorem pairValues_encode (bytes : List UInt8) : pairValues (encode bytes) = bytes := by
  induction bytes with
  | nil => rfl
  | cons b bs ih =>
      have hsplit : 16 * (b.toNat / 16) + b.toNat % 16 = b.toNat := Nat.div_add_mod _ _
      have hpair : value ([hexDigit (b.toNat / 16), hexDigit (b.toNat % 16)].filterMap digit) =
          b.toNat := by
        rw [List.filterMap_cons_some (digit_halves b).1,
          List.filterMap_cons_some (digit_halves b).2]
        simpa [value] using hsplit
      rw [encode, List.flatMap_cons, ← encode]
      change (value _).toUInt8 :: pairValues (encode bs) = _
      rw [ih, hpair]
      simp

/-- What two digits for each byte are read back as. -/
theorem hexToBytes_encode (bytes : List UInt8) : hexToBytes (encode bytes) = .ok bytes := by
  rw [hexToBytes_of_isHex (isHex_encode bytes), pairValues_encode]

/-- Texts that are not of digit pairs are refused only at a piece in which no number starts. -/
theorem hexToBytes_meets_iff (s : List UInt8) :
    ReadsHex s ↔ IsHex s ∨ ∃ p ∈ pieces s, startsNumber p = false := by
  constructor
  · rintro ⟨-, hother⟩
    by_cases hs : IsHex s
    · exact .inl hs
    · exact .inr ((exists_error_iff s).mp (hother hs))
  · rintro (hs | hp)
    · exact ⟨fun _ => hexToBytes_of_isHex hs, fun h => absurd hs h⟩
    · obtain ⟨e, he⟩ := (exists_error_iff s).mpr hp
      refine ⟨fun hs => ?_, fun _ => ⟨e, he⟩⟩
      rw [hexToBytes_of_isHex hs] at he
      cases he

/-- The second character of a pair may be any one. -/
theorem not_readsHex_bad_digit : ¬ ReadsHex (bytesOf "1g") := by
  intro h
  have hnot : ¬ IsHex (bytesOf "1g") := fun hs => absurd (hs.2 103) (by decide +kernel)
  obtain ⟨e, he⟩ := h.2 hnot
  have hread : hexToBytes (bytesOf "1g") = .ok [1] := by decide +kernel
  rw [hread] at he
  cases he

end Crc

end P2PWatcher
