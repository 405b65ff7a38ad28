import Mathlib.Dynamics.PeriodicPts.Defs
import P2PWatcher.Register.Shift

/-!
# Errors in a sequence

Two sequences of one length leave the same register if and only if the modulus divides the
sum of one power of `X` for each place at which they differ (`run_eq_iff_errors`). If the
modulus has the root 1, then an odd number of errors changes the register (`run_ne_of_odd`).
Two errors do, unless their distance is a multiple of the period of the register
(`run_eq_iff_of_pair`): the number of shifts after which 1 comes back.
-/

namespace Register

open Polynomial Function

variable {w k : ℕ}

/-- The places at which two sequences of one length differ. -/
def errors (bs cs : List (BitVec k)) : Finset ℕ :=
  (Finset.range (k * bs.length)).filter fun i => (bitsOf bs)[i]? ≠ (bitsOf cs)[i]?

theorem lt_of_mem_errors {bs cs : List (BitVec k)} {i : ℕ} (h : i ∈ errors bs cs) :
    i < k * bs.length := Finset.mem_range.mp (Finset.mem_filter.mp h).1

theorem bit_sub_bit (a b : Bool) : bit a - bit b = if a ≠ b then 1 else 0 := by
  cases a <;> cases b <;> decide

theorem exists_bit (bs : List (BitVec k)) {i : ℕ} (hi : i < k * bs.length) :
    ∃ b, (bitsOf bs)[k * bs.length - 1 - i]? = some b ∧ (ofWords bs).coeff i = bit b := by
  have hrev : i < (bitsOf bs).reverse.length := by
    rwa [List.length_reverse, bitsOf_length]
  have hget : (bitsOf bs).reverse[i]? = (bitsOf bs)[k * bs.length - 1 - i]? := by
    rw [List.getElem?_reverse (by rwa [List.length_reverse] at hrev), bitsOf_length]
  refine ⟨(bitsOf bs).reverse[i], ?_, ?_⟩
  · rw [← hget, List.getElem?_eq_getElem hrev]
  · rw [coeff_ofWords, List.getD_eq_getElem _ _ hrev]

/-- The difference of two sequences is the sum over their errors. -/
theorem ofWords_sub_ofWords {bs cs : List (BitVec k)} (hlen : bs.length = cs.length) :
    ofWords bs - ofWords cs = ∑ i ∈ errors bs cs, X ^ (k * bs.length - 1 - i) := by
  ext j
  rw [coeff_sub, finsetSum_coeff]
  simp only [coeff_X_pow]
  by_cases hj : j < k * bs.length
  · have hplace : ∀ i ∈ errors bs cs,
        (if j = k * bs.length - 1 - i then (1 : ZMod 2) else 0) =
          if i = k * bs.length - 1 - j then 1 else 0 := by
      intro i hi
      have hlt := lt_of_mem_errors hi
      exact if_congr (by omega) rfl rfl
    obtain ⟨x, hx, hcoeff⟩ := exists_bit bs hj
    obtain ⟨y, hy, hcoeff'⟩ := exists_bit cs (hlen ▸ hj)
    rw [← hlen] at hy
    have hmem : k * bs.length - 1 - j ∈ errors bs cs ↔ x ≠ y := by
      rw [errors, Finset.mem_filter, Finset.mem_range, hx, hy, ne_eq, Option.some.injEq]
      exact ⟨fun h => h.2, fun h => ⟨by omega, h⟩⟩
    rw [Finset.sum_congr rfl hplace, Finset.sum_ite_eq', hcoeff, hcoeff', bit_sub_bit]
    exact if_congr hmem.symm rfl rfl
  · have hdegree : ∀ ds : List (BitVec k), ds.length = bs.length → (ofWords ds).coeff j = 0 :=
      fun ds hds => (degree_lt_iff_coeff_zero _ _).mp (degree_ofWords_lt ds) j
        (by rw [hds]; exact Nat.le_of_not_lt hj)
    rw [hdegree bs rfl, hdegree cs hlen.symm, sub_zero]
    refine (Finset.sum_eq_zero fun i hi => if_neg ?_).symm
    have hlt := lt_of_mem_errors hi
    omega

theorem run_eq_iff_errors (hk : k ≤ w) {poly : BitVec w} (hw : 0 < w)
    (hpoly : poly.getLsbD 0 = true) (r : BitVec w) {bs cs : List (BitVec k)}
    (hlen : bs.length = cs.length) : run poly r bs = run poly r cs ↔
      modulus poly ∣ ∑ i ∈ errors bs cs, X ^ (k * bs.length - 1 - i) := by
  rw [run_eq_iff hk hw hpoly r hlen, ofWords_sub_ofWords hlen]

theorem eq_of_errors_eq_empty {bs cs : List (BitVec k)} (hlen : bs.length = cs.length)
    (h : errors bs cs = ∅) : bs = cs := by
  refine ofWords_injective hlen (sub_eq_zero.mp ?_)
  rw [ofWords_sub_ofWords hlen, h, Finset.sum_empty]

/-! ## An odd number of errors -/

theorem eval_one_modulus (poly : BitVec w) :
    (modulus poly).eval 1 = 1 + ∑ i ∈ Finset.range w, bit (poly.getLsbD i) := by
  rw [modulus, polyOf, eval_add, eval_pow, eval_X, one_pow, eval_finsetSum]
  simp only [eval_mul, eval_C, eval_pow, eval_X, one_pow, mul_one]

theorem run_ne_of_odd (hk : k ≤ w) {poly : BitVec w} (hw : 0 < w) (hpoly : poly.getLsbD 0 = true)
    (hone : (modulus poly).eval 1 = 0) (r : BitVec w) {bs cs : List (BitVec k)}
    (hlen : bs.length = cs.length) (hodd : Odd (errors bs cs).card) :
    run poly r bs ≠ run poly r cs := by
  intro heq
  have hdvd := (run_eq_iff_errors hk hw hpoly r hlen).mp heq
  have hzero := eval_eq_zero_of_dvd_of_eval_eq_zero hdvd hone
  rw [eval_finsetSum] at hzero
  simp only [eval_pow, eval_X, one_pow, Finset.sum_const, nsmul_eq_mul, mul_one] at hzero
  have heven := (ZMod.natCast_eq_zero_iff_even).mp hzero
  exact Nat.not_even_iff_odd.mpr hodd heven

/-! ## Two errors -/

theorem polyOf_one (hw : 0 < w) : polyOf 1#w = 1 := by
  ext i
  rw [coeff_polyOf, coeff_one, BitVec.getLsbD_one]
  by_cases hi : i = 0 <;> simp [hi, hw]

/-- A power of `X` is 1 modulo the modulus after a whole number of periods. -/
theorem dvd_X_pow_sub_one_iff (hw : 0 < w) (poly : BitVec w) (n : ℕ) :
    modulus poly ∣ X ^ n - 1 ↔ minimalPeriod (shift poly) 1#w ∣ n := by
  have hshift := dvd_shift_iterate poly 1#w n
  rw [polyOf_one hw, mul_one] at hshift
  rw [← isPeriodicPt_iff_minimalPeriod_dvd, IsPeriodicPt, IsFixedPt]
  constructor
  · intro h
    refine eq_of_dvd_sub (show modulus poly ∣ _ from ?_)
    rw [polyOf_one hw, ← sub_add_sub_cancel _ (X ^ n)]
    exact dvd_add hshift h
  · intro h
    rw [h, polyOf_one hw] at hshift
    exact (dvd_sub_comm).mp hshift

/-- Two errors are missed exactly if the register comes back between them. -/
theorem run_eq_iff_of_pair (hk : k ≤ w) {poly : BitVec w} (hw : 0 < w)
    (hpoly : poly.getLsbD 0 = true) (r : BitVec w) {bs cs : List (BitVec k)}
    (hlen : bs.length = cs.length) {p q : ℕ} (hpq : p < q) (herrors : errors bs cs = {p, q}) :
    run poly r bs = run poly r cs ↔ minimalPeriod (shift poly) 1#w ∣ q - p := by
  have hq : q < k * bs.length := lt_of_mem_errors (by rw [herrors]; simp)
  have hsum : (∑ i ∈ errors bs cs, X ^ (k * bs.length - 1 - i) : (ZMod 2)[X]) =
      X ^ (k * bs.length - 1 - q) * (X ^ (q - p) - 1) := by
    rw [herrors, Finset.sum_pair (Nat.ne_of_lt hpq), mul_sub, mul_one, ← pow_add,
      CharTwo.sub_eq_add]
    congr 2
    omega
  rw [run_eq_iff_errors hk hw hpoly r hlen, hsum, ← dvd_X_pow_sub_one_iff hw]
  exact ⟨dvd_of_dvd_X_pow_mul (coeff_zero_modulus hw hpoly), fun h => dvd_mul_of_dvd_right h _⟩

end Register
