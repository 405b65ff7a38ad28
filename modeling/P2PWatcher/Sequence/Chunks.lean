import Mathlib.Data.List.Basic
import Mathlib.Data.List.TakeDrop
import Mathlib.Data.List.Range
import Mathlib.Tactic.Common
import Mathlib.Tactic.Ring

/-!
# Chunks of one length

`chunk n xs i` is the piece of `xs` with index `i` when `xs` is cut into pieces of
`n` elements. The first `k` pieces are the first `n * k` elements, so enough of
them are the whole list, and the piece `i` lies behind `n * i` elements.
-/

namespace Sequence

/-- The piece with index `i`; it is shorter where the list ends. -/
def chunk {α : Type*} (n : ℕ) (xs : List α) (i : ℕ) : List α := (xs.drop (n * i)).take n

theorem chunk_length {α : Type*} (n : ℕ) (xs : List α) (i : ℕ) :
    (chunk n xs i).length = min n (xs.length - n * i) := by
  rw [chunk, List.length_take, List.length_drop]

/-- The first pieces, one after the other. -/
theorem flatMap_chunk {α : Type*} (n : ℕ) (xs : List α) (k : ℕ) :
    (List.range k).flatMap (chunk n xs) = xs.take (n * k) := by
  induction k with
  | zero => simp
  | succ k ih =>
      rw [List.range_succ, List.flatMap_append, ih, List.flatMap_singleton, chunk,
        Nat.mul_succ, List.take_add]

theorem flatMap_chunk_of_le {α : Type*} {n : ℕ} {xs : List α} {k : ℕ}
    (h : xs.length ≤ n * k) : (List.range k).flatMap (chunk n xs) = xs := by
  rw [flatMap_chunk, List.take_of_length_le h]

end Sequence
