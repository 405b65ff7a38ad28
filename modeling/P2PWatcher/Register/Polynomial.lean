import Mathlib.Algebra.CharP.Two
import Mathlib.Algebra.Field.ZMod
import Mathlib.Algebra.Polynomial.Div
import Mathlib.Algebra.Polynomial.FieldDivision

/-!
# Bits as polynomials

The bits of a word are the coefficients of a polynomial over `ZMod 2`, the lowest bit first.
Exclusive or is the sum of two polynomials, and a shift to the left is the product with a power
of `X`, up to the bits that fall out. A polynomial with a constant term divides no
polynomial whose coefficients lie in a window below its degree (`not_dvd_of_window`).
-/

namespace Register

open Polynomial

/-! ## Divisors with a constant term -/

/-- Such a polynomial has no factor in common with a power of `X`. -/
theorem dvd_of_dvd_X_pow_mul {K : Type*} [Field K] {P D : K[X]} (hP : P.coeff 0 ≠ 0) {n : ℕ}
    (h : P ∣ X ^ n * D) : P ∣ D := by
  have hX : ¬ X ∣ P := fun hdvd => hP (X_dvd_iff.mp hdvd)
  have hcoprime : IsCoprime P (X ^ n) :=
    IsCoprime.pow_right ((irreducible_X (R := K)).coprime_iff_not_dvd.mpr hX).symm
  exact hcoprime.dvd_of_dvd_mul_left h

theorem not_dvd_of_window {K : Type*} [Field K] {P D : K[X]} (hP : P.coeff 0 ≠ 0) (hD : D ≠ 0)
    {n : ℕ} (hlow : ∀ i < n, D.coeff i = 0) (hhigh : ∀ i, n + P.natDegree ≤ i → D.coeff i = 0) :
    ¬ P ∣ D := by
  intro hdvd
  obtain ⟨B, rfl⟩ := X_pow_dvd_iff.mpr hlow
  have hP0 : P ≠ 0 := by
    rintro rfl
    exact hP (coeff_zero 0)
  have hdeg : B.degree < P.degree := by
    rw [degree_eq_natDegree hP0, degree_lt_iff_coeff_zero]
    intro i hi
    rw [← coeff_X_pow_mul B n i]
    exact hhigh _ (by omega)
  have hB := eq_zero_of_dvd_of_degree_lt (dvd_of_dvd_X_pow_mul hP hdvd) hdeg
  exact hD (by rw [hB, mul_zero])

/-! ## Bits -/

/-- A bit as a coefficient. -/
def bit (b : Bool) : ZMod 2 := if b then 1 else 0

@[simp] theorem bit_false : bit false = 0 := rfl

@[simp] theorem bit_true : bit true = 1 := rfl

theorem bit_xor (a b : Bool) : bit (a ^^ b) = bit a + bit b := by
  cases a <;> cases b <;> decide

theorem bit_injective : Function.Injective bit := by
  intro a b h
  cases a <;> cases b <;> first | rfl | exact absurd h (by decide)

/-! ## Words -/

/-- The bits of `r` as coefficients. -/
noncomputable def polyOf {w : ℕ} (r : BitVec w) : (ZMod 2)[X] :=
  ∑ i ∈ Finset.range w, C (bit (r.getLsbD i)) * X ^ i

@[simp] theorem coeff_polyOf {w : ℕ} (r : BitVec w) (i : ℕ) :
    (polyOf r).coeff i = bit (r.getLsbD i) := by
  rw [polyOf, finsetSum_coeff]
  simp only [coeff_C_mul_X_pow]
  by_cases hi : i < w
  · rw [Finset.sum_eq_single i (fun j _ hne => if_neg (Ne.symm hne))
      (fun h => absurd (Finset.mem_range.mpr hi) h), if_pos rfl]
  · rw [BitVec.getLsbD_of_ge r i (Nat.not_lt.mp hi), bit_false]
    refine Finset.sum_eq_zero fun j hj => if_neg ?_
    have hlt := Finset.mem_range.mp hj
    omega

theorem polyOf_injective {w : ℕ} : Function.Injective (polyOf : BitVec w → (ZMod 2)[X]) := by
  intro r s h
  refine BitVec.eq_of_getLsbD_eq fun i _ => bit_injective ?_
  rw [← coeff_polyOf, h, coeff_polyOf]

@[simp] theorem polyOf_zero {w : ℕ} : polyOf (0 : BitVec w) = 0 := by
  ext i
  simp

theorem polyOf_xor {w : ℕ} (r s : BitVec w) : polyOf (r ^^^ s) = polyOf r + polyOf s := by
  ext i
  rw [coeff_add, coeff_polyOf, coeff_polyOf, coeff_polyOf, BitVec.getLsbD_xor, bit_xor]

theorem degree_polyOf_lt {w : ℕ} (r : BitVec w) : (polyOf r).degree < w := by
  rw [degree_lt_iff_coeff_zero]
  intro i hi
  rw [coeff_polyOf, BitVec.getLsbD_of_ge r i hi, bit_false]

/-- A shift to the left and the bits that fall out. -/
theorem polyOf_shiftLeft_add {w : ℕ} (r : BitVec w) {k : ℕ} (hk : k ≤ w) :
    polyOf (r <<< k) + X ^ w * polyOf (r >>> (w - k)) = X ^ k * polyOf r := by
  ext i
  rw [coeff_add, coeff_X_pow_mul', coeff_X_pow_mul', coeff_polyOf, coeff_polyOf, coeff_polyOf,
    BitVec.getLsbD_shiftLeft, BitVec.getLsbD_ushiftRight]
  by_cases hi : i < w
  · by_cases hki : k ≤ i
    · simp [hi, hki, Nat.not_le.mpr hi, Nat.not_lt.mpr hki]
    · simp [hki, Nat.not_le.mpr hi, Nat.lt_of_not_le hki]
  · have hsub : w - k + (i - w) = i - k := by omega
    simp [hi, Nat.not_lt.mp hi, hk.trans (Nat.not_lt.mp hi), hsub]

/-- A word at the upper end of a longer one. -/
theorem polyOf_setWidth_shiftLeft {k w : ℕ} (hk : k ≤ w) (b : BitVec k) :
    polyOf (b.setWidth w <<< (w - k)) = X ^ (w - k) * polyOf b := by
  ext i
  rw [coeff_X_pow_mul', coeff_polyOf, coeff_polyOf, BitVec.getLsbD_shiftLeft,
    BitVec.getLsbD_setWidth]
  by_cases hi : w - k ≤ i
  · by_cases hw : i < w
    · simp [hi, hw, Nat.not_lt.mpr hi, show i - (w - k) < w by omega]
    · simp [hi, hw, BitVec.getLsbD_of_ge b (i - (w - k)) (by omega)]
  · simp [hi, Nat.lt_of_not_le hi]

/-- Two words side by side. -/
theorem polyOf_append {k w : ℕ} (b : BitVec k) (r : BitVec w) :
    polyOf (b ++ r) = X ^ w * polyOf b + polyOf r := by
  ext i
  rw [coeff_add, coeff_X_pow_mul', coeff_polyOf, coeff_polyOf, coeff_polyOf,
    BitVec.getLsbD_append]
  by_cases hi : i < w
  · simp [hi, Nat.not_le.mpr hi]
  · simp [hi, Nat.not_lt.mp hi]

end Register
