import P2PWatcher.Memory.Buffer

/-!
# Partly written buffers

`mask a keep xs` is `xs` where `keep` holds and the filler `a` elsewhere: what a
buffer of fillers looks like after some pieces of `xs` were copied to their
places. Copying one more piece adds its positions to `keep`, in whatever order
the pieces come.
-/

namespace Memory

/-- `xs` at the positions in `keep`, and `a` elsewhere. -/
def mask {α : Type*} (a : α) (keep : ℕ → Bool) (xs : List α) : List α :=
  xs.mapIdx fun p x => if keep p then x else a

@[simp] theorem mask_length {α : Type*} (a : α) (keep : ℕ → Bool) (xs : List α) :
    (mask a keep xs).length = xs.length := by
  simp [mask]

theorem mask_getElem? {α : Type*} (a : α) (keep : ℕ → Bool) (xs : List α) (p : ℕ) :
    (mask a keep xs)[p]? = xs[p]?.map fun x => if keep p then x else a := by
  rw [mask, List.getElem?_mapIdx]

theorem mask_congr {α : Type*} (a : α) {keep keep' : ℕ → Bool} (xs : List α)
    (h : ∀ p < xs.length, keep p = keep' p) : mask a keep xs = mask a keep' xs := by
  apply List.ext_getElem?
  intro p
  rw [mask_getElem?, mask_getElem?]
  by_cases hp : p < xs.length
  · rw [h p hp]
  · rw [List.getElem?_eq_none (by omega)]
    rfl

theorem mask_false {α : Type*} (a : α) (xs : List α) :
    mask a (fun _ => false) xs = List.replicate xs.length a := by
  apply List.ext_getElem?
  intro p
  rw [mask_getElem?, List.getElem?_replicate]
  by_cases hp : p < xs.length
  · rw [List.getElem?_eq_getElem hp, if_pos hp]
    rfl
  · rw [List.getElem?_eq_none (by omega), if_neg hp]
    rfl

/-- The mask hides nothing exactly when the fillers are already there. -/
theorem mask_eq_self_iff {α : Type*} (a : α) (keep : ℕ → Bool) (xs : List α) :
    mask a keep xs = xs ↔ ∀ p (h : p < xs.length), keep p = false → xs[p] = a := by
  constructor
  · intro h p hp hkeep
    have hget := congrArg (fun ys => ys[p]?) h
    simp only [mask_getElem?, List.getElem?_eq_getElem hp, Option.map_some, hkeep,
      Bool.false_eq_true, if_false, Option.some.injEq] at hget
    exact hget.symm
  · intro h
    apply List.ext_getElem?
    intro p
    rw [mask_getElem?]
    by_cases hp : p < xs.length
    · rw [List.getElem?_eq_getElem hp, Option.map_some]
      cases hkeep : keep p with
      | true => rw [if_pos rfl]
      | false => rw [if_neg (by simp), h p hp hkeep]
    · rw [List.getElem?_eq_none (by omega)]
      rfl

/-- Copying a piece of `xs` to its place adds its positions. -/
theorem splice_mask {α : Type*} (a : α) (keep : ℕ → Bool) (xs : List α) (off len : ℕ)
    (h : off + len ≤ xs.length) :
    splice (mask a keep xs) off ((xs.drop off).take len) =
      mask a (fun p => keep p || decide (off ≤ p ∧ p < off + len)) xs := by
  have hlen : ((xs.drop off).take len).length = len := by
    rw [List.length_take, List.length_drop]
    omega
  apply List.ext_getElem?
  intro p
  rw [splice_getElem? _ _ _ (by rw [hlen, mask_length]; exact h), hlen, mask_getElem?,
    mask_getElem?]
  by_cases hp : off ≤ p ∧ p < off + len
  · rw [if_pos hp, List.getElem?_take_of_lt (by omega), List.getElem?_drop]
    rw [show off + (p - off) = p by omega, List.getElem?_eq_getElem (by omega)]
    simp [hp]
  · rw [if_neg hp]
    simp [hp]

/-- Copying pieces of one length to their places adds the positions of all of them. -/
theorem foldl_splice_mask {α ι : Type*} (a : α) (keep : ℕ → Bool) (xs : List α)
    (off : ι → ℕ) (len : ℕ) (is : List ι) (h : ∀ i ∈ is, off i + len ≤ xs.length) :
    is.foldl (fun buf i => splice buf (off i) ((xs.drop (off i)).take len))
        (mask a keep xs) =
      mask a (fun p => keep p || is.any fun i => decide (off i ≤ p ∧ p < off i + len)) xs := by
  induction is generalizing keep with
  | nil => simp
  | cons i is ih =>
      obtain ⟨hi, his⟩ := List.forall_mem_cons.mp h
      rw [List.foldl_cons, splice_mask a keep xs _ _ hi, ih _ his]
      simp only [List.any_cons, Bool.or_assoc]

end Memory
