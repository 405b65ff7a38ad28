import Mathlib.Data.Nat.Digits.Lemmas
import P2PWatcher.Text.Read

/-!
# Printing numbers

Numbers as the standard library of C++ prints them: `std::to_string` in base 10 with a minus
sign in front of a negative number, and a stream with `std::hex` in base 16. What is printed
in base 16 is read back (`strto_print`).
-/

namespace Text

/-- The digits of a number, the highest one first; 0 has one too. -/
def print (b n : ℕ) : List UInt8 :=
  if n = 0 then [48] else (Nat.digits b n).reverse.map hexDigit

/-- `std::to_string`. -/
def toString (v : ℤ) : List UInt8 := if v < 0 then 45 :: print 10 v.natAbs else print 10 v.natAbs

theorem print_ne_nil (b n : ℕ) : print b n ≠ [] := by
  rw [print]
  split
  · exact List.cons_ne_nil _ _
  · next h => simpa [Nat.digits_eq_nil_iff_eq_zero] using h

theorem print_length_le {b n k : ℕ} (hb : 1 < b) (hk : 0 < k) (h : n < b ^ k) :
    (print b n).length ≤ k := by
  rw [print]
  split
  · exact hk
  · rw [List.length_map, List.length_reverse]
    exact (Nat.digits_length_le_iff hb n).mpr h

/-- A number of 64 bits has 19 digits. -/
theorem toString_length_le {v : ℤ} (h : v.natAbs ≤ 2 ^ 63) : (toString v).length ≤ 20 := by
  have hprint : (print 10 v.natAbs).length ≤ 19 :=
    print_length_le (by decide) (by decide) (by omega)
  rw [toString]
  split
  · exact Nat.succ_le_succ hprint
  · exact hprint.trans (Nat.le_succ 19)

theorem foldr_digits (b n : ℕ) : (Nat.digits b n).foldr (fun d m => b * m + d) 0 = n := by
  have h := Nat.ofDigits_digits b n
  rw [Nat.ofDigits_eq_foldr] at h
  simpa [add_comm] using h

/-- What is printed in base 16 is a text of digits, and its number is the one printed. -/
theorem filterMap_print (n : ℕ) : (∀ c ∈ print 16 n, (digit c).isSome) ∧
    value ((print 16 n).filterMap digit) = n := by
  rw [print]
  split
  · next h =>
      subst h
      exact ⟨List.forall_mem_singleton.mpr rfl, rfl⟩
  · have hlt : ∀ d ∈ (Nat.digits 16 n).reverse, d < 16 := fun d hd =>
      Nat.digits_lt_base (by decide) (List.mem_reverse.mp hd)
    constructor
    · intro c hc
      obtain ⟨d, hd, rfl⟩ := List.mem_map.mp hc
      rw [digit_hexDigit d (hlt d hd), Option.isSome_some]
    · have hdigits : ((Nat.digits 16 n).reverse.map hexDigit).filterMap digit =
          (Nat.digits 16 n).reverse := by
        rw [List.filterMap_map]
        exact (List.filterMap_congr fun d hd => digit_hexDigit d (hlt d hd)).trans
          List.filterMap_some
      rw [hdigits, value, List.foldl_reverse]
      exact foldr_digits 16 n

theorem strto_print (n : ℕ) : strto (print 16 n) = some (false, n) := by
  obtain ⟨hdigits, hvalue⟩ := filterMap_print n
  rw [strto_of_digits (print_ne_nil 16 n) hdigits, hvalue]

theorem stoul_print {n : ℕ} (h : n < 2 ^ 64) : stoul (print 16 n) = .ok n := by
  rw [stoul, strto_print]
  exact if_pos h

end Text
