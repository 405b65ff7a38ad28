import Mathlib.Data.List.GetD
import P2PWatcher.Register.Polynomial

/-!
# Shift registers

A register of `w` bits is shifted to the left, and a bit that falls out at the upper end
brings in the feedback `poly`. That is the multiplication by `X` modulo the polynomial
`X ^ w + polyOf poly`. A word of `k` bits is put on the upper end of the register and shifted
through, so that a register that is run on a sequence of words holds a remainder
(`polyOf_run`). From this come the update from a table, which does the shifts of a word at
once (`feed_eq_table`), the words that take a register to 0 (`run_eq_zero_iff`), and that no
two sequences leave the same register if they differ inside of a window of `w` bits
(`run_ne_of_window`).
-/

namespace Register

open Polynomial

variable {w k : ℕ}

/-- One shift to the left. -/
def shift (poly r : BitVec w) : BitVec w :=
  if r.msb then (r <<< 1) ^^^ poly else r <<< 1

/-- A word is shifted through. -/
def feed (poly r : BitVec w) (b : BitVec k) : BitVec w :=
  (shift poly)^[k] (r ^^^ (b.setWidth w <<< (w - k)))

def run (poly r : BitVec w) (bs : List (BitVec k)) : BitVec w := bs.foldl (feed poly) r

@[simp] theorem run_nil (poly r : BitVec w) : run poly r ([] : List (BitVec k)) = r := rfl

theorem run_cons (poly r : BitVec w) (b : BitVec k) (bs : List (BitVec k)) :
    run poly r (b :: bs) = run poly (feed poly r b) bs := rfl

theorem run_append (poly r : BitVec w) (bs cs : List (BitVec k)) :
    run poly r (bs ++ cs) = run poly (run poly r bs) cs := List.foldl_append

/-! ## The modulus -/

/-- What the register counts modulo. -/
noncomputable def modulus (poly : BitVec w) : (ZMod 2)[X] := X ^ w + polyOf poly

theorem monic_modulus (poly : BitVec w) : (modulus poly).Monic :=
  monic_X_pow_add (degree_polyOf_lt poly)

theorem degree_modulus (poly : BitVec w) : (modulus poly).degree = w := by
  have hlt : (polyOf poly).degree < (X ^ w : (ZMod 2)[X]).degree := by
    rw [degree_X_pow]
    exact degree_polyOf_lt poly
  rw [modulus, degree_add_eq_left_of_degree_lt hlt, degree_X_pow]

theorem natDegree_modulus (poly : BitVec w) : (modulus poly).natDegree = w :=
  natDegree_eq_of_degree_eq_some (degree_modulus poly)

theorem coeff_zero_modulus {poly : BitVec w} (hw : 0 < w) (h : poly.getLsbD 0 = true) :
    (modulus poly).coeff 0 ≠ 0 := by
  rw [modulus, coeff_add, coeff_polyOf, h, coeff_X_pow, if_neg (by omega), zero_add]
  exact one_ne_zero

/-- Registers that are the same modulo the modulus are the same. -/
theorem eq_of_dvd_sub {poly r s : BitVec w} (h : modulus poly ∣ polyOf r - polyOf s) : r = s := by
  refine polyOf_injective (sub_eq_zero.mp (eq_zero_of_dvd_of_degree_lt h ?_))
  rw [degree_modulus]
  exact lt_of_le_of_lt (degree_sub_le _ _) (max_lt (degree_polyOf_lt r) (degree_polyOf_lt s))

/-! ## What the register holds -/

theorem polyOf_ushiftRight_last (r : BitVec w) : polyOf (r >>> (w - 1)) = C (bit r.msb) := by
  ext i
  rw [coeff_polyOf, coeff_C, BitVec.getLsbD_ushiftRight]
  cases i with
  | zero => rw [if_pos rfl, Nat.add_zero, BitVec.msb_eq_getLsbD_last]
  | succ i =>
      rw [if_neg (Nat.succ_ne_zero i), BitVec.getLsbD_of_ge r _ (by omega), bit_false]

theorem polyOf_shift (poly r : BitVec w) :
    polyOf (shift poly r) = X * polyOf r + C (bit r.msb) * modulus poly := by
  have hout : polyOf (r <<< 1) = X * polyOf r + C (bit r.msb) * X ^ w := by
    rcases Nat.eq_zero_or_pos w with rfl | hw
    · have hzero (s : BitVec 0) : polyOf s = 0 := by rw [Subsingleton.elim s 0, polyOf_zero]
      rw [hzero, hzero, mul_zero, BitVec.msb_eq_getLsbD_last, BitVec.getLsbD_of_ge r _ (le_refl 0)]
      simp
    · have hadd := polyOf_shiftLeft_add r (k := 1) hw
      rw [polyOf_ushiftRight_last, pow_one, mul_comm (X ^ w)] at hadd
      rw [← hadd, add_assoc, CharTwo.add_self_eq_zero, add_zero]
  rw [shift, modulus]
  cases hmsb : r.msb with
  | false =>
      rw [if_neg Bool.false_ne_true, hout, hmsb]
      simp
  | true =>
      rw [if_pos rfl, polyOf_xor, hout, hmsb]
      simp only [bit_true, map_one, one_mul]
      ring

theorem dvd_shift_iterate (poly r : BitVec w) (n : ℕ) :
    modulus poly ∣ polyOf ((shift poly)^[n] r) - X ^ n * polyOf r := by
  induction n generalizing r with
  | zero => simp
  | succ n ih =>
      have hstep := dvd_add (ih (shift poly r)) (dvd_mul_of_dvd_right
        (dvd_mul_left (modulus poly) (C (bit r.msb))) (X ^ n))
      rw [polyOf_shift] at hstep
      rw [Function.iterate_succ_apply]
      convert hstep using 1
      ring

theorem dvd_feed (hk : k ≤ w) (poly r : BitVec w) (b : BitVec k) :
    modulus poly ∣ polyOf (feed poly r b) - (X ^ k * polyOf r + X ^ w * polyOf b) := by
  have h := dvd_shift_iterate poly (r ^^^ (b.setWidth w <<< (w - k))) k
  rw [polyOf_xor, polyOf_setWidth_shiftLeft hk, mul_add, ← mul_assoc, ← pow_add,
    Nat.add_sub_cancel' hk] at h
  exact h

/-- A sequence of words as one polynomial, the first word on top. -/
noncomputable def ofWords : List (BitVec k) → (ZMod 2)[X]
  | [] => 0
  | b :: bs => X ^ (k * bs.length) * polyOf b + ofWords bs

theorem dvd_run (hk : k ≤ w) (poly r : BitVec w) (bs : List (BitVec k)) :
    modulus poly ∣
      polyOf (run poly r bs) - (X ^ (k * bs.length) * polyOf r + X ^ w * ofWords bs) := by
  induction bs generalizing r with
  | nil => simp [ofWords]
  | cons b bs ih =>
      have hstep := dvd_add (ih (feed poly r b))
        (dvd_mul_of_dvd_right (dvd_feed hk poly r b) (X ^ (k * bs.length)))
      rw [run_cons, ofWords, List.length_cons, Nat.mul_succ, pow_add]
      convert hstep using 1
      ring

/-- The register holds the remainder of what has been shifted through. -/
theorem polyOf_run (hk : k ≤ w) (poly r : BitVec w) (bs : List (BitVec k)) :
    polyOf (run poly r bs) =
      (X ^ (k * bs.length) * polyOf r + X ^ w * ofWords bs) %ₘ modulus poly := by
  rw [← modByMonic_eq_of_dvd_sub (monic_modulus poly) (dvd_run hk poly r bs), eq_comm,
    modByMonic_eq_self_iff (monic_modulus poly), degree_modulus]
  exact degree_polyOf_lt _

/-! ## The update from a table -/

/-- The bits that are shifted out select, together with the word, what comes in. -/
theorem feed_eq_table (hk : k ≤ w) (poly r : BitVec w) (b : BitVec k) :
    feed poly r b = (r <<< k) ^^^ feed poly 0 ((r >>> (w - k)).setWidth k ^^^ b) := by
  have hout : polyOf ((r >>> (w - k)).setWidth k) = polyOf (r >>> (w - k)) := by
    ext i
    rw [coeff_polyOf, coeff_polyOf, BitVec.getLsbD_setWidth, BitVec.getLsbD_ushiftRight]
    by_cases hi : i < k
    · simp [hi]
    · simp [hi, BitVec.getLsbD_of_ge r (w - k + i) (by omega)]
  have hentry := dvd_feed hk poly 0 ((r >>> (w - k)).setWidth k ^^^ b)
  rw [polyOf_zero, mul_zero, zero_add, polyOf_xor, hout] at hentry
  refine eq_of_dvd_sub (show modulus poly ∣ _ from ?_)
  have h := dvd_sub (dvd_feed hk poly r b) hentry
  rw [← polyOf_shiftLeft_add r hk] at h
  rw [polyOf_xor]
  convert h using 1
  ring

/-! ## The bits of a sequence -/

/-- The bits of the words, the upper end of each first. -/
def bitsOf (bs : List (BitVec k)) : List Bool :=
  bs.flatMap fun b => (List.range k).map b.getMsbD

@[simp] theorem bitsOf_length (bs : List (BitVec k)) : (bitsOf bs).length = k * bs.length := by
  simp [bitsOf, List.length_flatMap, mul_comm]

theorem reverse_map_getMsbD (b : BitVec k) :
    ((List.range k).map b.getMsbD).reverse = (List.range k).map b.getLsbD := by
  refine List.ext_getElem (by simp) fun i hi _ => ?_
  have hlt : i < k := by simpa using hi
  simp only [List.getElem_reverse, List.getElem_map, List.getElem_range, List.length_map,
    List.length_range, BitVec.getMsbD_eq_getLsbD]
  simp [show k - 1 - i < k by omega, show k - 1 - (k - 1 - i) = i by omega]

theorem getD_map_getLsbD (b : BitVec k) (i : ℕ) :
    ((List.range k).map b.getLsbD).getD i false = b.getLsbD i := by
  by_cases hi : i < k
  · simp [List.getD_eq_getElem?_getD, hi]
  · rw [List.getD_eq_default _ _ (by simpa using hi), BitVec.getLsbD_of_ge b i (by omega)]

/-- The polynomial of a sequence has its bits, the last one first. -/
theorem coeff_ofWords (bs : List (BitVec k)) (i : ℕ) :
    (ofWords bs).coeff i = bit ((bitsOf bs).reverse.getD i false) := by
  induction bs with
  | nil => simp [ofWords, bitsOf]
  | cons b bs ih =>
      have hbits : (bitsOf (b :: bs)).reverse =
          (bitsOf bs).reverse ++ (List.range k).map b.getLsbD := by
        rw [bitsOf, List.flatMap_cons, List.reverse_append, reverse_map_getMsbD, ← bitsOf]
      have hlen : (bitsOf bs).reverse.length = k * bs.length := by simp
      rw [ofWords, coeff_add, ih, coeff_X_pow_mul', hbits]
      by_cases hi : k * bs.length ≤ i
      · rw [if_pos hi, coeff_polyOf, List.getD_eq_default _ _ (by rwa [hlen]), bit_false, add_zero,
          List.getD_append_right _ _ _ _ (by rwa [hlen]), hlen, getD_map_getLsbD]
      · rw [if_neg hi, zero_add, List.getD_append _ _ _ _ (by rw [hlen]; exact Nat.lt_of_not_le hi)]

theorem degree_ofWords_lt (bs : List (BitVec k)) : (ofWords bs).degree < (k * bs.length : ℕ) := by
  rw [degree_lt_iff_coeff_zero]
  intro i hi
  rw [coeff_ofWords, List.getD_eq_default _ _ (by simpa using hi), bit_false]

/-! ## Appended words -/

/-- Words that fit into the register take it to 0 exactly when they are what it begins with. -/
theorem run_eq_zero_iff (hk : k ≤ w) {poly : BitVec w} (hw : 0 < w)
    (hpoly : poly.getLsbD 0 = true) (r : BitVec w) (bs : List (BitVec k))
    (hlen : k * bs.length ≤ w) :
    run poly r bs = 0 ↔ polyOf r = X ^ (w - k * bs.length) * ofWords bs := by
  have hsum : X ^ (k * bs.length) * polyOf r + X ^ w * ofWords bs =
      X ^ (k * bs.length) * (polyOf r + X ^ (w - k * bs.length) * ofWords bs) := by
    rw [mul_add, ← mul_assoc, ← pow_add, Nat.add_sub_cancel' hlen]
  have hdeg : (polyOf r + X ^ (w - k * bs.length) * ofWords bs).degree < (modulus poly).degree := by
    rw [degree_modulus, degree_lt_iff_coeff_zero]
    intro i hi
    have hwords := (degree_lt_iff_coeff_zero _ _).mp (degree_ofWords_lt bs)
    rw [coeff_add, coeff_polyOf, BitVec.getLsbD_of_ge r i hi, bit_false, zero_add, coeff_X_pow_mul',
      if_pos (by omega), hwords _ (by omega)]
  have hzero : run poly r bs = 0 ↔
      modulus poly ∣ X ^ (k * bs.length) * (polyOf r + X ^ (w - k * bs.length) * ofWords bs) := by
    rw [← hsum, ← modByMonic_eq_zero_iff_dvd (monic_modulus poly), ← polyOf_run hk,
      ← polyOf_injective.eq_iff, polyOf_zero]
  rw [hzero, ← CharTwo.add_eq_zero]
  constructor
  · intro h
    exact eq_zero_of_dvd_of_degree_lt (dvd_of_dvd_X_pow_mul (coeff_zero_modulus hw hpoly) h) hdeg
  · intro h
    rw [h, mul_zero]
    exact dvd_zero _

/-! ## Bursts -/

/-- Two sequences of one length leave one register if and only if the modulus divides their
difference. -/
theorem run_eq_iff (hk : k ≤ w) {poly : BitVec w} (hw : 0 < w) (hpoly : poly.getLsbD 0 = true)
    (r : BitVec w) {bs cs : List (BitVec k)} (hlen : bs.length = cs.length) :
    run poly r bs = run poly r cs ↔ modulus poly ∣ ofWords bs - ofWords cs := by
  have hsub : X ^ (k * bs.length) * polyOf r + X ^ w * ofWords bs -
      (X ^ (k * cs.length) * polyOf r + X ^ w * ofWords cs) =
        X ^ w * (ofWords bs - ofWords cs) := by
    rw [hlen]
    ring
  rw [← polyOf_injective.eq_iff, polyOf_run hk, polyOf_run hk, ← sub_eq_zero, ← sub_modByMonic,
    modByMonic_eq_zero_iff_dvd (monic_modulus poly), hsub]
  exact ⟨dvd_of_dvd_X_pow_mul (coeff_zero_modulus hw hpoly), fun h => dvd_mul_of_dvd_right h _⟩

/-- The coefficients on top are the bits of the first word. -/
theorem coeff_ofWords_cons (b : BitVec k) (bs : List (BitVec k)) (i : ℕ) :
    (ofWords (b :: bs)).coeff (i + k * bs.length) = bit (b.getLsbD i) := by
  have hrest := (degree_lt_iff_coeff_zero _ _).mp (degree_ofWords_lt bs) (i + k * bs.length)
    (Nat.le_add_left _ _)
  rw [ofWords, coeff_add, coeff_X_pow_mul, hrest, add_zero, coeff_polyOf]

theorem ofWords_injective {bs cs : List (BitVec k)} (hlen : bs.length = cs.length)
    (h : ofWords bs = ofWords cs) : bs = cs := by
  induction bs generalizing cs with
  | nil => exact (List.length_eq_zero_iff.mp hlen.symm).symm
  | cons b bs ih =>
      obtain _ | ⟨c, cs⟩ := cs
      · cases hlen
      have hlen' : bs.length = cs.length := Nat.succ.inj hlen
      have hhead : b = c := by
        refine BitVec.eq_of_getLsbD_eq fun i _ => bit_injective ?_
        rw [← coeff_ofWords_cons b bs, ← coeff_ofWords_cons c cs, ← hlen', h]
      subst hhead
      rw [ofWords, ofWords, hlen'] at h
      rw [ih hlen' (add_left_cancel h)]

/-- Two sequences of one length have two coefficients only where they have two bits. -/
theorem bit_ne_of_coeff_ne {bs cs : List (BitVec k)} (hlen : bs.length = cs.length) {i : ℕ}
    (h : (ofWords bs).coeff i ≠ (ofWords cs).coeff i) :
    i < k * bs.length ∧
      (bitsOf bs)[k * bs.length - 1 - i]? ≠ (bitsOf cs)[k * bs.length - 1 - i]? := by
  rw [coeff_ofWords, coeff_ofWords, List.getD_eq_getElem?_getD, List.getD_eq_getElem?_getD] at h
  have hlt : i < k * bs.length := by
    by_contra hge
    rw [List.getElem?_eq_none (by simpa using hge),
      List.getElem?_eq_none (by simpa [hlen] using hge)] at h
    exact h rfl
  rw [List.getElem?_reverse (by simpa using hlt),
    List.getElem?_reverse (by simpa [hlen] using hlt), bitsOf_length, bitsOf_length, ← hlen] at h
  refine ⟨hlt, fun hbit => ?_⟩
  rw [hbit] at h
  exact h rfl

/-- Two sequences of one length that differ only inside of `w` bits leave two registers. -/
theorem run_ne_of_window (hk : k ≤ w) {poly : BitVec w} (hw : 0 < w)
    (hpoly : poly.getLsbD 0 = true) (r : BitVec w) {bs cs : List (BitVec k)}
    (hlen : bs.length = cs.length) (hne : bs ≠ cs) {p : ℕ}
    (hwindow : ∀ i, (bitsOf bs)[i]? ≠ (bitsOf cs)[i]? → p ≤ i ∧ i < p + w) :
    run poly r bs ≠ run poly r cs := by
  intro heq
  have hdvd := (run_eq_iff hk hw hpoly r hlen).mp heq
  have hcoeff : ∀ i, (ofWords bs - ofWords cs).coeff i ≠ 0 →
      i < k * bs.length ∧ p ≤ k * bs.length - 1 - i ∧ k * bs.length - 1 - i < p + w := by
    intro i hi
    rw [coeff_sub, sub_ne_zero] at hi
    obtain ⟨hlt, hbit⟩ := bit_ne_of_coeff_ne hlen hi
    exact ⟨hlt, hwindow _ hbit⟩
  refine not_dvd_of_window (coeff_zero_modulus hw hpoly)
    (sub_ne_zero.mpr fun h => hne (ofWords_injective hlen h))
    (n := k * bs.length - p - w) ?_ ?_ hdvd
  · intro i hi
    by_contra hne0
    have := hcoeff i hne0
    omega
  · intro i hi
    by_contra hne0
    have := hcoeff i hne0
    rw [natDegree_modulus] at hi
    omega

end Register
