import Mathlib.Data.List.Basic
import Mathlib.Data.List.TakeDrop
import Mathlib.Data.UInt
import Mathlib.Tactic.Common

/-!
# Reading text

Lines of a file and numbers in base 16, as the standard library of C++ reads them. A number
may have whitespace, a sign and the mark `0x` in front of it, and it ends at the first
character that is not a digit, so that what is behind it is not looked at. Nothing is read
from a text that has no digit there.
-/

namespace Text

/-- What the library throws. -/
inductive StdError where
  | invalidArgument
  | outOfRange
  | runtimeError (what : String)
  deriving DecidableEq, Repr

def bytesOf (s : String) : List UInt8 := s.toByteArray.data.toList

/-- The lines that `std::getline` takes from a file. -/
def getlines : List UInt8 → List (List UInt8)
  | [] => []
  | c :: cs =>
      if c = 10 then [] :: getlines cs
      else
        match getlines cs with
        | [] => [[c]]
        | l :: ls => (c :: l) :: ls

/-! ## Characters -/

def isSpace (c : UInt8) : Bool := c = 32 || (9 ≤ c && c ≤ 13)

def isSign (c : UInt8) : Bool := c = 43 || c = 45

/-- The value of a digit in base 16. -/
def digit (c : UInt8) : Option ℕ :=
  if 48 ≤ c ∧ c ≤ 57 then some (c.toNat - 48)
  else if 65 ≤ c ∧ c ≤ 70 then some (c.toNat - 55)
  else if 97 ≤ c ∧ c ≤ 102 then some (c.toNat - 87)
  else none

theorem digit_lt {c : UInt8} {d : ℕ} (h : digit c = some d) : d < 16 := by
  simp only [digit, UInt8.le_iff_toNat_le, UInt8.reduceToNat] at h
  split_ifs at h <;> cases h <;> omega

/-- No character is a digit and a blank or a sign. -/
theorem digit_eq_none {c : UInt8} (h : isSpace c ∨ isSign c) : digit c = none := by
  simp only [isSpace, isSign, Bool.or_eq_true, Bool.and_eq_true, decide_eq_true_eq,
    ← UInt8.toNat_inj, UInt8.le_iff_toNat_le, UInt8.reduceToNat] at h
  simp only [digit, UInt8.le_iff_toNat_le, UInt8.reduceToNat]
  rw [if_neg (by omega), if_neg (by omega), if_neg (by omega)]

/-- The small letters are the digits from 10 on. -/
def hexDigit (d : ℕ) : UInt8 := if d < 10 then (48 + d).toUInt8 else (87 + d).toUInt8

theorem digit_hexDigit : ∀ d < 16, digit (hexDigit d) = some d := by
  decide

/-- A blank, a sign, or a character that is neither. -/
theorem char_cases (c : UInt8) :
    isSpace c = true ∧ digit c = none ∨
      isSpace c = false ∧ isSign c = true ∧ digit c = none ∨
      isSpace c = false ∧ isSign c = false := by
  cases hspace : isSpace c with
  | true => exact .inl ⟨rfl, digit_eq_none (.inl hspace)⟩
  | false =>
      cases hsign : isSign c with
      | true => exact .inr (.inl ⟨rfl, rfl, digit_eq_none (.inr hsign)⟩)
      | false => exact .inr (.inr ⟨rfl, rfl⟩)

/-! ## Numbers -/

/-- The values of the digits a text begins with. -/
def leadingDigits : List UInt8 → List ℕ
  | [] => []
  | c :: cs =>
      match digit c with
      | some d => d :: leadingDigits cs
      | none => []

/-- A minus sign or none, and the rest. -/
def sign : List UInt8 → Bool × List UInt8
  | [] => (false, [])
  | c :: cs => if isSign c then (c = 45, cs) else (false, c :: cs)

/-- The mark belongs to the number only where a digit follows it. -/
def skipMark : List UInt8 → List UInt8
  | z :: x :: d :: cs =>
      if z = 48 ∧ (x = 120 ∨ x = 88) ∧ (digit d).isSome then d :: cs else z :: x :: d :: cs
  | cs => cs

/-- The number of a sequence of digits. -/
def value (ds : List ℕ) : ℕ := ds.foldl (fun n d => 16 * n + d) 0

/-- `std::strtol` and `std::strtoul` in base 16, before the value is put into their types. -/
def strto (s : List UInt8) : Option (Bool × ℕ) :=
  let t := sign (s.dropWhile isSpace)
  let ds := leadingDigits (skipMark t.2)
  if ds = [] then none else some (t.1, value ds)

/-- `std::stoi` in base 16. -/
def stoi (s : List UInt8) : Except StdError ℤ :=
  match strto s with
  | none => .error .invalidArgument
  | some (minus, n) =>
      let v : ℤ := if minus then -n else n
      if -2 ^ 31 ≤ v ∧ v < 2 ^ 31 then .ok v else .error .outOfRange

/-- `std::stoul` in base 16, where a minus sign counts back from 2 ^ 64. -/
def stoul (s : List UInt8) : Except StdError ℕ :=
  match strto s with
  | none => .error .invalidArgument
  | some (minus, n) =>
      if n < 2 ^ 64 then .ok (if minus then (2 ^ 64 - n) % 2 ^ 64 else n)
      else .error .outOfRange

/-! ## What is read -/

theorem value_append_singleton (ds : List ℕ) (d : ℕ) : value (ds ++ [d]) = 16 * value ds + d := by
  rw [value, List.foldl_append, List.foldl_cons, List.foldl_nil, value]

theorem value_lt {ds : List ℕ} (h : ∀ d ∈ ds, d < 16) : value ds < 16 ^ ds.length := by
  induction ds using List.reverseRecOn with
  | nil => exact Nat.one_pos
  | append_singleton ds d ih =>
      have hds := ih fun e he => h e (List.mem_append_left _ he)
      have hd := h d (by simp)
      rw [value_append_singleton, List.length_append, List.length_singleton, pow_succ]
      omega

theorem lt_of_mem_leadingDigits {s : List UInt8} {d : ℕ} (h : d ∈ leadingDigits s) : d < 16 := by
  induction s with
  | nil => cases h
  | cons c cs ih =>
      rw [leadingDigits] at h
      split at h
      · rename_i e he
        rcases List.mem_cons.mp h with rfl | h
        · exact digit_lt he
        · exact ih h
      · cases h

theorem leadingDigits_length_le (s : List UInt8) : (leadingDigits s).length ≤ s.length := by
  induction s with
  | nil => exact le_refl _
  | cons c cs ih =>
      rw [leadingDigits]
      split
      · exact Nat.succ_le_succ ih
      · exact Nat.zero_le _

/-- Digits only are read to the end. -/
theorem leadingDigits_of_forall {s : List UInt8} (h : ∀ c ∈ s, (digit c).isSome) :
    leadingDigits s = s.filterMap digit := by
  induction s with
  | nil => rfl
  | cons c cs ih =>
      obtain ⟨d, hd⟩ := Option.isSome_iff_exists.mp (h c List.mem_cons_self)
      rw [leadingDigits, hd, List.filterMap_cons_some hd,
        ih fun e he => h e (List.mem_cons_of_mem c he)]

theorem leadingDigits_cons_eq_nil_iff (c : UInt8) (cs : List UInt8) :
    leadingDigits (c :: cs) = [] ↔ digit c = none := by
  rw [leadingDigits]
  cases digit c with
  | none => exact iff_of_true rfl rfl
  | some d => exact iff_of_false (List.cons_ne_nil _ _) (Option.some_ne_none d)

theorem sign_length_le (s : List UInt8) : (sign s).2.length ≤ s.length := by
  cases s with
  | nil => exact le_refl _
  | cons c cs =>
      rw [sign]
      split
      · exact Nat.le_succ _
      · exact le_refl _

theorem skipMark_length_le (s : List UInt8) : (skipMark s).length ≤ s.length := by
  unfold skipMark
  split
  · split
    · simp
    · exact le_refl _
  · exact le_refl _

/-- Whether a text begins with a digit does not depend on the mark. -/
theorem leadingDigits_skipMark_eq_nil_iff (s : List UInt8) :
    leadingDigits (skipMark s) = [] ↔ leadingDigits s = [] := by
  unfold skipMark
  split
  · rename_i z x d cs
    split
    · rename_i h
      obtain ⟨e, he⟩ := Option.isSome_iff_exists.mp h.2.2
      have hzero : digit z = some 0 := by rw [h.1]; rfl
      rw [leadingDigits, he, leadingDigits, hzero]
      simp
    · rfl
  · rfl

theorem strto_eq_none_iff (s : List UInt8) :
    strto s = none ↔ leadingDigits (sign (s.dropWhile isSpace)).2 = [] := by
  rw [← leadingDigits_skipMark_eq_nil_iff, strto]
  split
  · rename_i h
    exact iff_of_true rfl h
  · rename_i h
    exact iff_of_false (Option.some_ne_none _) h

theorem strto_lt {s : List UInt8} {minus : Bool} {n : ℕ} (h : strto s = some (minus, n)) :
    n < 16 ^ s.length := by
  rw [strto] at h
  split at h
  · cases h
  · obtain ⟨rfl, rfl⟩ := Prod.mk.inj (Option.some.inj h)
    refine lt_of_lt_of_le (value_lt fun _ hd => lt_of_mem_leadingDigits hd)
      (Nat.pow_le_pow_right (by decide) ?_)
    calc (leadingDigits (skipMark (sign (s.dropWhile isSpace)).2)).length
        ≤ (skipMark (sign (s.dropWhile isSpace)).2).length := leadingDigits_length_le _
      _ ≤ (sign (s.dropWhile isSpace)).2.length := skipMark_length_le _
      _ ≤ (s.dropWhile isSpace).length := sign_length_le _
      _ ≤ s.length := (List.dropWhile_sublist _).length_le

/-- A short text is refused only where it begins with no digit. -/
theorem stoi_eq_error_iff {s : List UInt8} (hs : s.length ≤ 7) :
    (∃ e, stoi s = .error e) ↔ leadingDigits (sign (s.dropWhile isSpace)).2 = [] := by
  rw [← strto_eq_none_iff, stoi]
  split
  · rename_i h
    exact ⟨fun _ => h, fun _ => ⟨_, rfl⟩⟩
  · rename_i minus n h
    have hn : n < 2 ^ 28 :=
      lt_of_lt_of_le (strto_lt h) ((Nat.pow_le_pow_right (by decide) hs).trans (by decide))
    have hv : -2 ^ 31 ≤ (if minus then -(n : ℤ) else n) ∧
        (if minus then -(n : ℤ) else n) < 2 ^ 31 := by
      cases minus <;> simp <;> omega
    rw [if_pos hv, h]
    simp

/-- A text of digits only is read as a whole. -/
theorem strto_of_digits {s : List UInt8} (hne : s ≠ []) (h : ∀ c ∈ s, (digit c).isSome) :
    strto s = some (false, value (s.filterMap digit)) := by
  obtain ⟨c, cs, rfl⟩ := List.exists_cons_of_ne_nil hne
  obtain ⟨d, hd⟩ := Option.isSome_iff_exists.mp (h c List.mem_cons_self)
  have hneither : isSpace c = false ∧ isSign c = false := by
    rcases char_cases c with ⟨-, hnone⟩ | ⟨-, -, hnone⟩ | hneither
    · rw [hnone] at hd
      cases hd
    · rw [hnone] at hd
      cases hd
    · exact hneither
  have hmark : skipMark (c :: cs) = c :: cs := by
    obtain _ | ⟨x, _ | ⟨e, cs⟩⟩ := cs
    · rfl
    · rfl
    · have hx := h x (by simp)
      refine if_neg fun hcond => ?_
      rcases hcond.2.1 with rfl | rfl <;> cases hx
  have hdrop : (c :: cs).dropWhile isSpace = c :: cs := by
    rw [List.dropWhile_cons_of_neg (by simp [hneither.1])]
  have hhead : sign (c :: cs) = (false, c :: cs) := if_neg (by simp [hneither.2])
  have hdigits := leadingDigits_of_forall h
  rw [strto, hdrop, hhead, hmark, hdigits]
  exact if_neg (by simp [List.filterMap_cons_some hd])

theorem stoi_of_digits {s : List UInt8} (hne : s ≠ []) (hs : s.length ≤ 7)
    (h : ∀ c ∈ s, (digit c).isSome) : stoi s = .ok (value (s.filterMap digit)) := by
  have hstrto := strto_of_digits hne h
  have hn : value (s.filterMap digit) < 2 ^ 28 :=
    lt_of_lt_of_le (strto_lt hstrto) ((Nat.pow_le_pow_right (by decide) hs).trans (by decide))
  rw [stoi, hstrto]
  exact if_pos (by simp; omega)

end Text
