import Mathlib.Data.List.Basic
import Mathlib.Data.List.Flatten
import Mathlib.Tactic.Common

/-!
# Interleavings

`Interleave xs ys zs` says that `zs` merges `xs` and `ys` and keeps the order
within each of them. When the two sequences consist of blocks, an interleaving
of the blocks flattens to an interleaving of the cells, but not the other way
round: an interleaving of the cells may cut a block.
-/

namespace Sequence

/-- `zs` merges `xs` and `ys`, each in its own order. -/
inductive Interleave {α : Type*} : List α → List α → List α → Prop where
  | nil : Interleave [] [] []
  | left {x : α} {xs ys zs : List α} :
      Interleave xs ys zs → Interleave (x :: xs) ys (x :: zs)
  | right {y : α} {xs ys zs : List α} :
      Interleave xs ys zs → Interleave xs (y :: ys) (y :: zs)

namespace Interleave

theorem symm {α : Type*} {xs ys zs : List α} (h : Interleave xs ys zs) :
    Interleave ys xs zs := by
  induction h with
  | nil => exact nil
  | left _ ih => exact right ih
  | right _ ih => exact left ih

theorem append_left {α : Type*} {xs ys zs : List α} (ws : List α)
    (h : Interleave xs ys zs) : Interleave (ws ++ xs) ys (ws ++ zs) := by
  induction ws with
  | nil => exact h
  | cons w ws ih => exact left ih

theorem append_right {α : Type*} {xs ys zs : List α} (ws : List α)
    (h : Interleave xs ys zs) : Interleave xs (ws ++ ys) (ws ++ zs) :=
  (append_left ws h.symm).symm

/-- One sequence after the other is an interleaving. -/
theorem append {α : Type*} (xs ys : List α) : Interleave xs ys (xs ++ ys) := by
  induction xs with
  | nil =>
      induction ys with
      | nil => exact nil
      | cons y ys ih => exact right ih
  | cons x xs ih => exact left ih

theorem eq_of_nil_left {α : Type*} {ys zs : List α} (h : Interleave [] ys zs) :
    zs = ys := by
  induction ys generalizing zs with
  | nil =>
      cases h
      rfl
  | cons y ys ih =>
      cases h with
      | right h => rw [ih h]

theorem eq_of_nil_right {α : Type*} {xs zs : List α} (h : Interleave xs [] zs) :
    zs = xs :=
  eq_of_nil_left h.symm

theorem perm {α : Type*} {xs ys zs : List α} (h : Interleave xs ys zs) :
    zs.Perm (xs ++ ys) := by
  induction h with
  | nil => exact List.Perm.refl _
  | left _ ih => exact ih.cons _
  | right _ ih => exact (ih.cons _).trans List.perm_middle.symm

theorem mem_iff {α : Type*} {xs ys zs : List α} (h : Interleave xs ys zs) (a : α) :
    a ∈ zs ↔ a ∈ xs ∨ a ∈ ys := by
  rw [h.perm.mem_iff, List.mem_append]

theorem countP_eq {α : Type*} {xs ys zs : List α} (h : Interleave xs ys zs)
    (p : α → Bool) : zs.countP p = xs.countP p + ys.countP p := by
  rw [h.perm.countP_eq, List.countP_append]

theorem map {α β : Type*} {xs ys zs : List α} (f : α → β) (h : Interleave xs ys zs) :
    Interleave (xs.map f) (ys.map f) (zs.map f) := by
  induction h with
  | nil => exact nil
  | left _ ih => exact left ih
  | right _ ih => exact right ih

/-- An interleaving of blocks is an interleaving of their cells. -/
theorem flatten {α : Type*} {xss yss zss : List (List α)} (h : Interleave xss yss zss) :
    Interleave xss.flatten yss.flatten zss.flatten := by
  induction h with
  | nil => exact nil
  | left _ ih => exact append_left _ ih
  | right _ ih => exact append_right _ ih

/-- An interleaving of images under `f` comes from an interleaving. -/
theorem exists_of_map {α β : Type*} (f : α → β) {xs ys : List α} {zs : List β}
    (h : Interleave (xs.map f) (ys.map f) zs) :
    ∃ ws, Interleave xs ys ws ∧ zs = ws.map f := by
  generalize hxs : xs.map f = xs' at h
  generalize hys : ys.map f = ys' at h
  induction h generalizing xs ys with
  | nil =>
      rw [List.map_eq_nil_iff] at hxs hys
      subst hxs hys
      exact ⟨[], nil, rfl⟩
  | left _ ih =>
      obtain ⟨x, xs', rfl, rfl, hxs'⟩ := List.map_eq_cons_iff.mp hxs
      obtain ⟨ws, hws, rfl⟩ := ih hxs' hys
      exact ⟨x :: ws, left hws, rfl⟩
  | right _ ih =>
      obtain ⟨y, ys', rfl, rfl, hys'⟩ := List.map_eq_cons_iff.mp hys
      obtain ⟨ws, hws, rfl⟩ := ih hxs hys'
      exact ⟨y :: ws, right hws, rfl⟩

end Interleave

end Sequence
