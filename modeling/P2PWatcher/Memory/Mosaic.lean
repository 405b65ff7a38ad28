import P2PWatcher.Memory.Buffer
import Mathlib.Data.Set.Basic

/-!
# Mosaics

A mosaic of some lists has the length of one of them, and each of its cells is a filler or the
cell at the same place in one of them, not always the same one. A buffer that is set
up with fillers and then gets pieces of the lists, each to its own place and in whatever
order, is a mosaic. A mosaic of mosaics is a mosaic.
-/

namespace Memory

variable {α : Type*} {a : α} {S T : Set (List α)} {xs ys : List α}

/-- `xs` is made of the lists in `S` and of the filler `a`. -/
structure Mosaic (a : α) (S : Set (List α)) (xs : List α) : Prop where
  length_eq : ∃ ys ∈ S, xs.length = ys.length
  cells : ∀ (p : ℕ) (x : α), xs[p]? = some x → x = a ∨ ∃ ys ∈ S, ys[p]? = some x

/-- A buffer that has just been set up for a list. -/
theorem mosaic_replicate (h : xs ∈ S) : Mosaic a S (List.replicate xs.length a) := by
  refine ⟨⟨xs, h, List.length_replicate⟩, fun p x hx => ?_⟩
  rw [List.getElem?_replicate] at hx
  split at hx
  · exact .inl (Option.some.inj hx).symm
  · exact nomatch hx

/-- A piece of a list is copied to its place. -/
theorem Mosaic.splice (h : Mosaic a S xs) (hys : ys ∈ S) (off len : ℕ)
    (hfits : off + ((ys.drop off).take len).length ≤ xs.length) :
    Mosaic a S (splice xs off ((ys.drop off).take len)) := by
  constructor
  · obtain ⟨zs, hzs, hlen⟩ := h.length_eq
    exact ⟨zs, hzs, by rw [splice_length _ _ _ hfits, hlen]⟩
  · intro p x hx
    rw [splice_getElem? _ _ _ hfits] at hx
    split at hx
    · next hinside =>
        rw [List.length_take] at hinside
        rw [List.getElem?_take_of_lt (by omega), List.getElem?_drop,
          Nat.add_sub_cancel' hinside.1] at hx
        exact .inr ⟨ys, hys, hx⟩
    · exact h.cells p x hx

theorem Mosaic.trans (hT : ∀ ys ∈ T, Mosaic a S ys) (h : Mosaic a T xs) : Mosaic a S xs := by
  constructor
  · obtain ⟨ys, hys, hlen⟩ := h.length_eq
    obtain ⟨zs, hzs, hlen'⟩ := (hT ys hys).length_eq
    exact ⟨zs, hzs, hlen.trans hlen'⟩
  · intro p x hx
    rcases h.cells p x hx with ha | ⟨ys, hys, hcell⟩
    · exact .inl ha
    · exact (hT ys hys).cells p x hcell

end Memory
