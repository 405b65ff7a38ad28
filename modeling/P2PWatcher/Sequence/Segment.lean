import Mathlib.Data.List.Basic
import Mathlib.Data.List.TakeDrop
import Mathlib.Tactic.Common

/-!
# Reading off a segmented stream

A stream arrives in segments. `pull n segs` reads `n` cells, over as many segments as
it takes, and leaves the rest of the segment where it stops in front. What is
read and what is left depends on the stream alone and not on where it was cut:
`pull_fst` and `pull_snd_flatten`.
-/

namespace Sequence

/-- The first `n` cells, as far as there are so many, and the segments behind them. -/
def pull {α : Type*} : ℕ → List (List α) → List α × List (List α)
  | _, [] => ([], [])
  | n, seg :: segs =>
      if seg.length ≤ n then
        (seg ++ (pull (n - seg.length) segs).1, (pull (n - seg.length) segs).2)
      else (seg.take n, seg.drop n :: segs)

theorem pull_fst {α : Type*} (n : ℕ) (segs : List (List α)) :
    (pull n segs).1 = segs.flatten.take n := by
  induction segs generalizing n with
  | nil => simp [pull]
  | cons seg segs ih =>
      rw [pull, List.flatten_cons]
      split
      · next h => rw [ih, List.take_append, List.take_of_length_le h]
      · next h => rw [List.take_append_of_le_length (by omega)]

theorem pull_snd_flatten {α : Type*} (n : ℕ) (segs : List (List α)) :
    (pull n segs).2.flatten = segs.flatten.drop n := by
  induction segs generalizing n with
  | nil => simp [pull]
  | cons seg segs ih =>
      rw [pull, List.flatten_cons]
      split
      · next h => rw [ih, List.drop_append, List.drop_eq_nil_of_le h, List.nil_append]
      · next h => rw [List.flatten_cons, List.drop_append_of_le_length (by omega)]

end Sequence
