import Mathlib.Data.List.Basic
import Mathlib.Tactic.Common

/-!
# Bounded buffers

A buffer is the list of its cells. `readAt` and `writeAt` are the block copies
of a language without bounds checks: inside the buffer they do the copy, and an
access that leaves the buffer is a `Fault`, after which nothing is promised.
`overlay` is a receive into a buffer of fixed size: it keeps what fits, drops
the rest and leaves the cells behind a shorter message as they were. `Fixed`
is a buffer that cannot change its size.
-/

namespace Memory

/-- The ways in which an operation leaves what the language defines: a read
past the end of a buffer, a write past the end, an integer result outside its
type. -/
inductive Fault where
  | read
  | write
  | overflow
  deriving DecidableEq, Repr

/-- The `n` cells from `off` on. -/
def readAt {α : Type*} (bs : List α) (off n : ℕ) : Except Fault (List α) :=
  if off + n ≤ bs.length then .ok ((bs.drop off).take n) else .error .read

/-- `bs` with the cells from `off` on replaced by `xs`. -/
def splice {α : Type*} (bs : List α) (off : ℕ) (xs : List α) : List α :=
  bs.take off ++ xs ++ bs.drop (off + xs.length)

/-- The block copy of `xs` to the offset `off`. -/
def writeAt {α : Type*} (bs : List α) (off : ℕ) (xs : List α) :
    Except Fault (List α) :=
  if off + xs.length ≤ bs.length then .ok (splice bs off xs) else .error .write

/-- A message received into `bs`: a message that is too long is cut, and behind
a shorter one the old cells remain. -/
def overlay {α : Type*} (bs xs : List α) : List α :=
  xs.take bs.length ++ bs.drop xs.length

/-- `bs` cut or filled up with `a` to the length `n`. -/
def resize {α : Type*} (a : α) (bs : List α) (n : ℕ) : List α :=
  bs.take n ++ List.replicate (n - bs.length) a

/-! ## Reads -/

theorem readAt_eq_ok_iff {α : Type*} (bs : List α) (off n : ℕ) (xs : List α) :
    readAt bs off n = .ok xs ↔
      off + n ≤ bs.length ∧ (bs.drop off).take n = xs := by
  by_cases h : off + n ≤ bs.length
  · simp [readAt, h]
  · simp [readAt, h]

theorem readAt_eq_error_iff {α : Type*} (bs : List α) (off n : ℕ) (f : Fault) :
    readAt bs off n = .error f ↔ bs.length < off + n ∧ f = .read := by
  by_cases h : off + n ≤ bs.length
  · simp [readAt, h, Nat.not_lt.mpr h]
  · simp [readAt, h, eq_comm, Nat.not_le.mp h]

theorem readAt_length {α : Type*} {bs : List α} {off n : ℕ} {xs : List α}
    (h : readAt bs off n = .ok xs) : xs.length = n := by
  obtain ⟨hle, rfl⟩ := (readAt_eq_ok_iff bs off n xs).mp h
  rw [List.length_take, List.length_drop]
  omega

/-- A read from the start is a prefix. -/
theorem readAt_zero_eq_ok_iff {α : Type*} (bs : List α) (n : ℕ) (xs : List α) :
    readAt bs 0 n = .ok xs ↔ xs.length = n ∧ ∃ t, bs = xs ++ t := by
  rw [readAt_eq_ok_iff]
  constructor
  · rintro ⟨hle, rfl⟩
    refine ⟨by simp; omega, bs.drop n, ?_⟩
    rw [List.drop_zero, List.take_append_drop]
  · rintro ⟨rfl, t, rfl⟩
    simp

/-- Two reads that follow one another are one read. -/
theorem readAt_add_eq_ok_iff {α : Type*} (bs : List α) (off n m : ℕ) (zs : List α) :
    readAt bs off (n + m) = .ok zs ↔
      ∃ xs ys, readAt bs off n = .ok xs ∧ readAt bs (off + n) m = .ok ys ∧
        zs = xs ++ ys := by
  simp only [readAt_eq_ok_iff]
  constructor
  · rintro ⟨hle, rfl⟩
    refine ⟨_, _, ⟨by omega, rfl⟩, ⟨by omega, rfl⟩, ?_⟩
    rw [List.take_add, List.drop_drop]
  · rintro ⟨_, _, ⟨hn, rfl⟩, ⟨hm, rfl⟩, rfl⟩
    refine ⟨by omega, ?_⟩
    rw [List.take_add, List.drop_drop]

/-- A read that stays inside a buffer does not see what lies behind it. -/
theorem readAt_append {α : Type*} {bs : List α} {off n : ℕ} {xs : List α}
    (h : readAt bs off n = .ok xs) (t : List α) : readAt (bs ++ t) off n = .ok xs := by
  obtain ⟨hle, rfl⟩ := (readAt_eq_ok_iff _ _ _ _).mp h
  have hdrop : n ≤ (bs.drop off).length := by
    rw [List.length_drop]
    omega
  refine (readAt_eq_ok_iff _ _ _ _).mpr ⟨by rw [List.length_append]; omega, ?_⟩
  rw [List.drop_append_of_le_length (by omega), List.take_append_of_le_length hdrop]

/-! ## Writes -/

@[simp] theorem splice_length {α : Type*} (bs : List α) (off : ℕ) (xs : List α)
    (h : off + xs.length ≤ bs.length) : (splice bs off xs).length = bs.length := by
  simp only [splice, List.length_append, List.length_take, List.length_drop]
  omega

/-- Inside the written block the cells are the new ones, outside the old. -/
theorem splice_getElem? {α : Type*} (bs : List α) (off : ℕ) (xs : List α)
    (h : off + xs.length ≤ bs.length) (i : ℕ) :
    (splice bs off xs)[i]? =
      if off ≤ i ∧ i < off + xs.length then xs[i - off]? else bs[i]? := by
  have htake : (bs.take off).length = off := by
    rw [List.length_take]
    omega
  rw [splice, List.append_assoc, List.getElem?_append, htake]
  by_cases hlo : i < off
  · rw [if_pos hlo, if_neg (by omega), List.getElem?_take_of_lt hlo]
  · rw [if_neg hlo, List.getElem?_append]
    by_cases hhi : i - off < xs.length
    · rw [if_pos hhi, if_pos (by omega)]
    · rw [if_neg hhi, if_neg (by omega), List.getElem?_drop]
      congr 1
      omega

/-- The written block reads back. -/
theorem splice_block {α : Type*} {bs : List α} {off : ℕ} {xs : List α}
    (h : off + xs.length ≤ bs.length) :
    ((splice bs off xs).drop off).take xs.length = xs := by
  have htake : (bs.take off).length = off := List.length_take_of_le (by omega)
  rw [splice, List.append_assoc, List.drop_left' htake, List.take_left]

/-! ## Receiving -/

@[simp] theorem overlay_length {α : Type*} (bs xs : List α) :
    (overlay bs xs).length = bs.length := by
  simp only [overlay, List.length_append, List.length_take, List.length_drop]
  omega

/-- A message that fills the buffer leaves none of its old cells. -/
theorem overlay_of_le {α : Type*} (bs xs : List α) (h : bs.length ≤ xs.length) :
    overlay bs xs = xs.take bs.length := by
  rw [overlay, List.drop_eq_nil_of_le h, List.append_nil]

theorem overlay_of_length_eq {α : Type*} {bs xs : List α} (h : xs.length = bs.length) :
    overlay bs xs = xs := by
  rw [overlay_of_le bs xs (Nat.le_of_eq h.symm), ← h, List.take_length]

/-- What comes first in the message goes to the start of the buffer, and the rest is
received by the cells behind it. -/
theorem overlay_append {α : Type*} (bs xs ys : List α) (h : xs.length ≤ bs.length) :
    overlay bs (xs ++ ys) = xs ++ overlay (bs.drop xs.length) ys := by
  simp only [overlay, List.take_append, List.take_of_length_le h, List.length_append,
    List.length_drop, List.drop_drop, List.append_assoc]

theorem overlay_of_length_le {α : Type*} {bs xs : List α} (h : xs.length ≤ bs.length) :
    overlay bs xs = xs ++ bs.drop xs.length := by
  rw [overlay, List.take_of_length_le h]

/-- Only what fits is received. -/
theorem overlay_take {α : Type*} (bs xs : List α) :
    overlay bs (xs.take bs.length) = overlay bs xs := by
  rcases Nat.le_total xs.length bs.length with h | h
  · rw [List.take_of_length_le h]
  · rw [overlay_of_le bs xs h, overlay_of_length_eq (List.length_take_of_le h)]

/-- The received cells are in the buffer, in every block. -/
theorem isPrefix_overlay_block {α : Type*} {bs : List α} {off n : ℕ} (hn : off + n ≤ bs.length)
    (xs : List α) : (xs.drop off).take n <+: ((overlay bs xs).drop off).take n := by
  have hcut : ((xs.take bs.length).drop off).take n = (xs.drop off).take n := by
    rw [List.drop_take, List.take_take, Nat.min_eq_left (by omega)]
  rw [overlay, List.drop_append, List.take_append, hcut]
  exact List.prefix_append _ _

/-- What the received cells leave open of a block is decided by the old ones. -/
theorem overlay_block {α : Type*} {bs xs : List α} {off n : ℕ} (hn : off + n ≤ bs.length)
    (hxs : xs.length ≤ bs.length)
    (h : (xs.drop off).take n <+: (bs.drop off).take n) :
    ((overlay bs xs).drop off).take n = (bs.drop off).take n := by
  apply List.ext_getElem?
  intro i
  by_cases hi : i < n
  · rw [List.getElem?_take_of_lt hi, List.getElem?_take_of_lt hi, List.getElem?_drop,
      List.getElem?_drop, overlay_of_length_le hxs, List.getElem?_append]
    split
    · next hlt =>
        have hlen : i < ((xs.drop off).take n).length := by
          rw [List.length_take, List.length_drop]
          omega
        have hget := h.getElem hlen
        rw [List.getElem_take, List.getElem_take, List.getElem_drop, List.getElem_drop] at hget
        rw [List.getElem?_eq_getElem hlt, List.getElem?_eq_getElem (by omega), hget]
    · next hle =>
        rw [List.getElem?_drop]
        congr 1
        omega
  · rw [List.getElem?_eq_none (by rw [List.length_take]; omega),
      List.getElem?_eq_none (by rw [List.length_take]; omega)]

/-- What is there whatever the buffer held before has been received. -/
theorem isPrefix_of_forall_overlay {α : Type*} {a b : α} (hab : a ≠ b) {xs ys : List α} {n : ℕ}
    (hn : xs.length ≤ n) (h : ∀ bs : List α, bs.length = n → ys <+: overlay bs xs) :
    ys <+: xs := by
  have hfill : ∀ c : α, ys <+: xs ++ List.replicate (n - xs.length) c := by
    intro c
    have hc := h (List.replicate n c) List.length_replicate
    rwa [overlay_of_length_le (by rwa [List.length_replicate]), List.drop_replicate] at hc
  have ha := hfill a
  have hb := hfill b
  rcases Nat.lt_or_ge xs.length ys.length with hlt | hle
  · have hca := ha.getElem hlt
    have hcb := hb.getElem hlt
    rw [List.getElem_append_right (Nat.le_refl _), List.getElem_replicate] at hca hcb
    exact absurd (hca.symm.trans hcb) hab
  · exact List.prefix_of_prefix_length_le ha (List.prefix_append _ _) hle

/-- A message that leaves no trace of two different fillers fills the buffer. -/
theorem length_le_of_overlay_replicate {α : Type*} {a b : α} (hab : a ≠ b) {xs : List α} {n : ℕ}
    (h : overlay (List.replicate n a) xs = overlay (List.replicate n b) xs) : n ≤ xs.length := by
  by_contra hlt
  have hle : xs.length ≤ n := by omega
  rw [overlay_of_length_le (by rwa [List.length_replicate]),
    overlay_of_length_le (by rwa [List.length_replicate]), List.append_cancel_left_eq,
    List.drop_replicate, List.drop_replicate] at h
  obtain ⟨k, hk⟩ : ∃ k, n - xs.length = k + 1 := ⟨n - xs.length - 1, by omega⟩
  rw [hk, List.replicate_succ, List.replicate_succ] at h
  exact hab (List.cons.inj h).1

/-- The same where the block is copied into a buffer. -/
theorem length_le_of_splice_replicate {α : Type*} {a b : α} (hab : a ≠ b) {old xs : List α}
    {off n : ℕ} (hfits : off + n ≤ old.length)
    (h : splice old off (overlay (List.replicate n a) xs) =
      splice old off (overlay (List.replicate n b) xs)) : n ≤ xs.length := by
  have hblock : ∀ x : α, ((splice old off (overlay (List.replicate n x) xs)).drop off).take n =
      overlay (List.replicate n x) xs := by
    intro x
    have hlen : (overlay (List.replicate n x) xs).length = n := by
      rw [overlay_length, List.length_replicate]
    have hread := splice_block (show off + (overlay (List.replicate n x) xs).length ≤ old.length
      by rwa [hlen])
    rwa [hlen] at hread
  refine length_le_of_overlay_replicate hab ?_
  rw [← hblock a, h, hblock b]

@[simp] theorem resize_length {α : Type*} (a : α) (bs : List α) (n : ℕ) :
    (resize a bs n).length = n := by
  simp only [resize, List.length_append, List.length_take, List.length_replicate]
  omega

/-- A buffer of `n` cells that every operation keeps at this size. -/
structure Fixed (α : Type*) (n : ℕ) where
  cells : List α
  length_eq : cells.length = n

/-- The buffer of `n` copies of `a`. -/
def Fixed.replicate {α : Type*} (n : ℕ) (a : α) : Fixed α n :=
  ⟨List.replicate n a, List.length_replicate⟩

/-- A receive into a buffer of fixed size. -/
def Fixed.receive {α : Type*} {n : ℕ} (b : Fixed α n) (xs : List α) : Fixed α n :=
  ⟨overlay b.cells xs, by rw [overlay_length, b.length_eq]⟩

end Memory
