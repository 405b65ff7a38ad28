import P2PWatcher.Memory.Buffer
import P2PWatcher.Machine.Run
import P2PWatcher.Sequence.Interleave
import Mathlib.Data.List.ReduceOption

/-!
# Reassembly of a message from blocks

A message is sent as blocks. The block with the flag `first` sets up a buffer
of the announced size, every block is copied to its offset, and the block with
the flag `last` hands the buffer out and leaves an empty one. Nothing else is
recorded: `accept` is the whole receiver.

Two facts hold whatever the blocks are. The size of the buffer follows from the
flags and the announced sizes alone (`accept_length`). And a block with data
needs a buffer that has been set up, so in a run without a fault every closing
block consumes an opening one (`countP_closing_le`). The second makes two senders
who share one receiver exclude one another: `serial_of_completes` says that an
interleaving of two sequences of messages that runs without a fault has not cut
any message, however it was made.
-/

namespace Sequence

open Memory Machine

structure Block (α : Type*) where
  first : Bool
  last : Bool
  total : ℕ
  offset : ℕ
  data : List α

namespace Reassembly

/-- The buffer into which the block is copied. -/
def setUp {α : Type*} (a : α) (buf : List α) (b : Block α) : List α :=
  if b.first then List.replicate b.total a else buf

/-- One block: the next buffer, and the message if it is finished. -/
def accept {α : Type*} (a : α) (buf : List α) (b : Block α) :
    Except Fault (List α × Option (List α)) :=
  match writeAt (setUp a buf b) b.offset b.data with
  | .error f => .error f
  | .ok buf' => .ok (if b.last then ([], some buf') else (buf', none))

/-- The size that the buffer has for the block. -/
def sizeFor {α : Type*} (n : ℕ) (b : Block α) : ℕ := if b.first then b.total else n

/-- The size that the buffer has behind the block. -/
def sizeAfter {α : Type*} (n : ℕ) (b : Block α) : ℕ := if b.last then 0 else sizeFor n b

/-- The block lies inside the buffer that it meets. -/
def Fits {α : Type*} (n : ℕ) (b : Block α) : Prop :=
  b.offset + b.data.length ≤ sizeFor n b

theorem setUp_length {α : Type*} (a : α) (buf : List α) (b : Block α) :
    (setUp a buf b).length = sizeFor buf.length b := by
  cases h : b.first <;> simp [setUp, sizeFor, h]

theorem accept_eq_ok_iff {α : Type*} (a : α) (buf : List α) (b : Block α)
    (r : List α × Option (List α)) :
    accept a buf b = .ok r ↔ Fits buf.length b ∧
      (if b.last then ([], some (splice (setUp a buf b) b.offset b.data))
        else (splice (setUp a buf b) b.offset b.data, none)) = r := by
  rw [Fits, ← setUp_length a]
  by_cases h : b.offset + b.data.length ≤ (setUp a buf b).length
  · simp [accept, writeAt, h]
  · simp [accept, writeAt, h]

theorem accept_length {α : Type*} {a : α} {buf buf' : List α} {b : Block α}
    {o : Option (List α)} (h : accept a buf b = .ok (buf', o)) :
    buf'.length = sizeAfter buf.length b := by
  obtain ⟨hfits, heq⟩ := (accept_eq_ok_iff a buf b _).mp h
  rw [Fits, ← setUp_length a] at hfits
  cases hl : b.last with
  | true =>
      rw [if_pos hl, Prod.mk.injEq] at heq
      simp [← heq.1, sizeAfter, hl]
  | false =>
      rw [if_neg (by simp [hl]), Prod.mk.injEq] at heq
      rw [← heq.1, splice_length _ _ _ hfits, setUp_length, sizeAfter, if_neg (by simp [hl])]

/-! ## Opening and closing blocks -/

/-- A block that sets up a buffer and leaves it for others. -/
def opening {α : Type*} (b : Block α) : Bool := b.first && !b.last

/-- A block that hands out a buffer set up by another. -/
def closing {α : Type*} (b : Block α) : Bool := !b.first && b.last

/-- In a run without a fault every closing block uses up the buffer that was
there at the start or an opening block of its own. -/
theorem countP_closing_le {α : Type*} {a : α} {buf buf' : List α} {bs : List (Block α)}
    {os : List (Option (List α))} (hdata : ∀ b ∈ bs, b.data ≠ [])
    (h : Completes (accept a) buf bs buf' os) :
    bs.countP closing ≤ bs.countP opening + min 1 buf.length := by
  induction bs generalizing buf os with
  | nil => simp
  | cons b bs ih =>
      obtain ⟨t, o, os', hb, hbs, -⟩ := (completes_cons_iff _ _ _ _ _ _).mp h
      have hrest := ih (fun c hc => hdata c (List.mem_cons_of_mem b hc)) hbs
      have hfits := ((accept_eq_ok_iff a buf b _).mp hb).1
      have hlen := accept_length hb
      have hpos : 0 < b.data.length :=
        List.length_pos_iff.mpr (hdata b (List.mem_cons_self ..))
      rw [List.countP_cons, List.countP_cons]
      rw [Fits, sizeFor] at hfits
      rw [sizeAfter, sizeFor] at hlen
      cases hf : b.first <;> cases hl : b.last <;>
        simp only [opening, closing, hf, hl, Bool.not_true, Bool.not_false, Bool.and_true,
          Bool.and_false, Bool.false_eq_true, if_true, if_false] at hfits hlen ⊢ <;> omega

/-! ## Messages -/

/-- The blocks of a message behind the opening one. -/
inductive IsTail {α : Type*} : List (Block α) → Prop where
  | last (b : Block α) (hf : b.first = false) (hl : b.last = true) (hd : b.data ≠ []) :
      IsTail [b]
  | cons (b : Block α) (bs : List (Block α)) (hf : b.first = false) (hl : b.last = false)
      (hd : b.data ≠ []) (hbs : IsTail bs) : IsTail (b :: bs)

/-- The blocks of a message: the first one carries the flag `first`, the last one
the flag `last`, and an empty message has no blocks at all. -/
inductive IsMessage {α : Type*} : List (Block α) → Prop where
  | nil : IsMessage []
  | single (b : Block α) (hf : b.first = true) (hl : b.last = true) (hd : b.data ≠ []) :
      IsMessage [b]
  | cons (b : Block α) (bs : List (Block α)) (hf : b.first = true) (hl : b.last = false)
      (hd : b.data ≠ []) (hbs : IsTail bs) : IsMessage (b :: bs)

theorem IsTail.countP_closing {α : Type*} {bs : List (Block α)} (h : IsTail bs) :
    bs.countP closing = bs.countP opening + 1 := by
  induction h with
  | last b hf hl _ => simp [opening, closing, hf, hl]
  | cons b bs hf hl _ _ ih => simp [opening, closing, hf, hl, ih]

theorem IsMessage.countP_closing {α : Type*} {bs : List (Block α)} (h : IsMessage bs) :
    bs.countP closing = bs.countP opening := by
  cases h with
  | nil => rfl
  | single b hf hl _ => simp [opening, closing, hf, hl]
  | cons b bs hf hl _ hbs => simp [opening, closing, hf, hl, hbs.countP_closing]

theorem countP_closing_flatten {α : Type*} {ms : List (List (Block α))}
    (h : ∀ m ∈ ms, IsMessage m) :
    ms.flatten.countP closing = ms.flatten.countP opening := by
  induction ms with
  | nil => rfl
  | cons m ms ih =>
      rw [List.flatten_cons, List.countP_append, List.countP_append,
        (h m (List.mem_cons_self ..)).countP_closing,
        ih fun m' hm' => h m' (List.mem_cons_of_mem m hm')]

theorem IsTail.data_ne_nil {α : Type*} {bs : List (Block α)} (h : IsTail bs) :
    ∀ b ∈ bs, b.data ≠ [] := by
  induction h with
  | last b _ _ hd => simpa using hd
  | cons b bs _ _ hd _ ih => simpa using ⟨hd, ih⟩

theorem IsMessage.data_ne_nil {α : Type*} {bs : List (Block α)} (h : IsMessage bs) :
    ∀ b ∈ bs, b.data ≠ [] := by
  cases h with
  | nil => simp
  | single b _ _ hd => simpa using hd
  | cons b bs _ _ hd hbs => simpa using ⟨hd, hbs.data_ne_nil⟩

theorem data_ne_nil_flatten {α : Type*} {ms : List (List (Block α))}
    (h : ∀ m ∈ ms, IsMessage m) : ∀ b ∈ ms.flatten, b.data ≠ [] := by
  intro b hb
  obtain ⟨m, hm, hbm⟩ := List.mem_flatten.mp hb
  exact (h m hm).data_ne_nil b hbm

/-- The block that begins a message has the flag `first`, and what follows it is
the rest of a message or nothing. -/
theorem IsMessage.of_cons {α : Type*} {b : Block α} {bs : List (Block α)}
    (h : IsMessage (b :: bs)) : b.first = true ∧ (b.last = true ∧ bs = [] ∨
      b.last = false ∧ IsTail bs) := by
  cases h with
  | single _ hf hl _ => exact ⟨hf, .inl ⟨hl, rfl⟩⟩
  | cons _ _ hf hl _ hbs => exact ⟨hf, .inr ⟨hl, hbs⟩⟩

theorem IsTail.of_cons {α : Type*} {b : Block α} {bs : List (Block α)}
    (h : IsTail (b :: bs)) : bs = [] ∨ IsTail bs := by
  cases h with
  | last _ _ _ _ => exact .inl rfl
  | cons _ _ _ _ _ hbs => exact .inr hbs

theorem isTail_of_flags {α : Type*} {bs : List (Block α)} (hne : bs ≠ [])
    (h : ∀ i (hi : i < bs.length), bs[i].first = false ∧
      bs[i].last = decide (i + 1 = bs.length) ∧ bs[i].data ≠ []) : IsTail bs := by
  induction bs with
  | nil => exact absurd rfl hne
  | cons b bs ih =>
      obtain ⟨hf, hl, hd⟩ := h 0 (Nat.zero_lt_succ _)
      by_cases hbs : bs = []
      · subst hbs
        exact .last b hf hl hd
      · have hlen := List.length_pos_iff.mpr hbs
        refine .cons b bs hf (hl.trans (decide_eq_false ?_)) hd (ih hbs fun i hi => ?_)
        · rw [List.length_cons]
          omega
        · simpa only [List.getElem_cons_succ, List.length_cons, Nat.add_right_cancel_iff]
            using h (i + 1) (Nat.succ_lt_succ hi)

/-- Blocks with the flag `first` on the first and the flag `last` on the last are a
message. -/
theorem isMessage_of_flags {α : Type*} {bs : List (Block α)}
    (h : ∀ i (hi : i < bs.length), bs[i].first = decide (i = 0) ∧
      bs[i].last = decide (i + 1 = bs.length) ∧ bs[i].data ≠ []) : IsMessage bs := by
  cases bs with
  | nil => exact .nil
  | cons b bs =>
      obtain ⟨hf, hl, hd⟩ := h 0 (Nat.zero_lt_succ _)
      by_cases hbs : bs = []
      · subst hbs
        exact .single b hf hl hd
      · have hlen := List.length_pos_iff.mpr hbs
        refine .cons b bs hf (hl.trans (decide_eq_false ?_)) hd
          (isTail_of_flags hbs fun i hi => ?_)
        · rw [List.length_cons]
          omega
        · have hi' := h (i + 1) (Nat.succ_lt_succ hi)
          rw [decide_eq_false (Nat.succ_ne_zero i)] at hi'
          simpa only [List.getElem_cons_succ, List.length_cons, Nat.add_right_cancel_iff]
            using hi'

/-! ## Two senders -/

/-- While the message of one sender is under way, a block that begins a message
of the other leads to a fault: from then on there are more closing blocks to
come than buffers for them. -/
theorem not_completes_of_overlap {α : Type*} {a : α} {buf buf' : List α}
    {ra : List (Block α)} {xs ys : List (List (Block α))} {c : Block α}
    {rest w : List (Block α)} {os : List (Option (List α))}
    (hra : IsTail ra) (hxs : ∀ m ∈ xs, IsMessage m) (hys : ∀ m ∈ ys, IsMessage m)
    (hc : IsMessage (c :: rest))
    (hw : Interleave (ra ++ xs.flatten) (rest ++ ys.flatten) w) :
    ¬ Completes (accept a) buf (c :: w) buf' os := by
  intro h
  obtain ⟨t, o, os', hstep, hrun, -⟩ := (completes_cons_iff _ _ _ _ _ _).mp h
  have hdata : ∀ b ∈ w, b.data ≠ [] := by
    intro b hb
    have hrest := fun b hb => hc.data_ne_nil b (List.mem_cons_of_mem c hb)
    rcases (hw.mem_iff b).mp hb with hb | hb <;> rcases List.mem_append.mp hb with hb | hb
    · exact hra.data_ne_nil b hb
    · exact data_ne_nil_flatten hxs b hb
    · exact hrest b hb
    · exact data_ne_nil_flatten hys b hb
  have hle := countP_closing_le hdata hrun
  rw [hw.countP_eq, hw.countP_eq, List.countP_append, List.countP_append,
    List.countP_append, List.countP_append, hra.countP_closing,
    countP_closing_flatten hxs, countP_closing_flatten hys] at hle
  have hlen := accept_length hstep
  obtain ⟨-, ⟨hl, rfl⟩ | ⟨-, htail⟩⟩ := hc.of_cons
  · rw [sizeAfter, if_pos hl] at hlen
    simp only [List.countP_nil] at hle
    omega
  · have hcount := htail.countP_closing
    omega

/-- The induction for `serial_of_completes`, on the number of blocks and messages
that are left. It carries the rest `ra` of a message of the left sender that is
under way, and is symmetric in the senders when there is none. -/
theorem serial_of_completes_aux {α κ : Type*} {a : α} (c : κ → Block α) {buf' : List α}
    (n : ℕ) :
    ∀ {buf : List α} {ra : List κ} {xs ys : List (List κ)} {w : List κ}
      {os : List (Option (List α))},
      w.length + xs.length + ys.length = n → (ra = [] ∨ IsTail (ra.map c)) →
      (∀ m ∈ xs, IsMessage (m.map c)) → (∀ m ∈ ys, IsMessage (m.map c)) →
      Interleave (ra ++ xs.flatten) ys.flatten w → Completes (accept a) buf (w.map c) buf' os →
      ∃ g, Interleave xs ys g ∧ w = ra ++ g.flatten := by
  induction n using Nat.strongRecOn with
  | ind n ih =>
      intro buf ra xs ys w os hn hra hxs hys hw h
      obtain rfl | hra := hra
      · -- no message is under way, so the next block begins one
        rcases xs with _ | ⟨_ | ⟨b, rest⟩, xs⟩
        · exact ⟨ys, Interleave.append [] ys, hw.eq_of_nil_left⟩
        · obtain ⟨g, hg, rfl⟩ := ih _ (by simp at hn; omega) rfl (.inl rfl)
            (fun m hm => hxs m (List.mem_cons_of_mem _ hm)) hys hw h
          exact ⟨[] :: g, hg.left, rfl⟩
        · rcases ys with _ | ⟨_ | ⟨d, rest'⟩, ys⟩
          · exact ⟨_, by simpa using Interleave.append _ [], hw.eq_of_nil_right⟩
          · obtain ⟨g, hg, rfl⟩ := ih _ (by simp at hn ⊢; omega) rfl (.inl rfl) hxs
              (fun m hm => hys m (List.mem_cons_of_mem _ hm)) hw h
            exact ⟨[] :: g, hg.right, rfl⟩
          · rw [List.nil_append, List.flatten_cons, List.flatten_cons] at hw
            cases hw with
            | left hw =>
                obtain ⟨t, o, os', -, hrun, -⟩ := (completes_cons_iff _ _ _ _ _ _).mp h
                have hrest := (hxs _ (List.mem_cons_self ..)).of_cons.2
                obtain ⟨g, hg, rfl⟩ := ih _ (by simp at hn ⊢; omega) rfl
                  (hrest.imp (List.map_eq_nil_iff.mp ·.2) And.right)
                  (fun m hm => hxs m (List.mem_cons_of_mem _ hm)) hys hw hrun
                exact ⟨_ :: g, hg.left, rfl⟩
            | right hw =>
                obtain ⟨t, o, os', -, hrun, -⟩ := (completes_cons_iff _ _ _ _ _ _).mp h
                have hrest := (hys _ (List.mem_cons_self ..)).of_cons.2
                obtain ⟨g, hg, rfl⟩ := ih _ (by simp at hn ⊢; omega) rfl
                  (hrest.imp (List.map_eq_nil_iff.mp ·.2) And.right)
                  (fun m hm => hys m (List.mem_cons_of_mem _ hm)) hxs hw.symm hrun
                exact ⟨_ :: g, hg.symm.right, rfl⟩
      · cases ra with
        | nil => cases hra
        | cons b ra =>
            generalize hyf : ys.flatten = yf at hw
            cases hw with
            | left hw =>
                subst hyf
                obtain ⟨t, o, os', -, hrun, -⟩ := (completes_cons_iff _ _ _ _ _ _).mp h
                obtain ⟨g, hg, rfl⟩ := ih _ (by simp at hn ⊢; omega) rfl
                  (hra.of_cons.imp_left List.map_eq_nil_iff.mp) hxs hys hw hrun
                exact ⟨g, hg, rfl⟩
            | right hw =>
                obtain ⟨as, rest, cs, rfl, -, rfl⟩ := List.flatten_eq_cons_iff.mp hyf
                have hcs : ∀ m ∈ cs, IsMessage (m.map c) := fun m hm => hys m (by simp [hm])
                have hrest := hys _ (List.mem_append_right as (List.mem_cons_self ..))
                have hwc := hw.map c
                rw [List.map_append, List.map_append, List.map_flatten, List.map_flatten] at hwc
                exact absurd h (not_completes_of_overlap hra (List.forall_mem_map.mpr hxs)
                  (List.forall_mem_map.mpr hcs) hrest hwc)

/-- An interleaving of two sequences of messages that runs without a fault cuts
no message. The blocks are those of items `κ`, so that the items are known to be
in one piece too. -/
theorem serial_of_completes {α κ : Type*} {a : α} {c : κ → Block α} {buf buf' : List α}
    {xs ys : List (List κ)} {w : List κ} {os : List (Option (List α))}
    (hxs : ∀ m ∈ xs, IsMessage (m.map c)) (hys : ∀ m ∈ ys, IsMessage (m.map c))
    (hw : Interleave xs.flatten ys.flatten w) (h : Completes (accept a) buf (w.map c) buf' os) :
    ∃ g, Interleave xs ys g ∧ w = g.flatten :=
  serial_of_completes_aux c _ rfl (.inl rfl) hxs hys hw h

/-! ## Whole messages -/

/-- The buffers handed out for a message by itself. -/
def handouts {α : Type*} (a : α) : List (Block α) → List (List α)
  | [] => []
  | b :: bs =>
      [(b :: bs).foldl (fun buf c => splice buf c.offset c.data) (List.replicate b.total a)]

/-- Every block of the message lies inside the size that its first one announces. -/
def FitsTotal {α : Type*} : List (Block α) → Prop
  | [] => True
  | b :: bs => ∀ c ∈ b :: bs, c.offset + c.data.length ≤ b.total

theorem accept_of_not_first {α : Type*} {a : α} {buf : List α} {b : Block α}
    (hf : b.first = false) (h : b.offset + b.data.length ≤ buf.length) :
    accept a buf b = .ok (if b.last then ([], some (splice buf b.offset b.data))
      else (splice buf b.offset b.data, none)) := by
  have hset : setUp a buf b = buf := if_neg (by simp [hf])
  rw [accept, hset, writeAt, if_pos h]

theorem fits_of_not_first {α : Type*} {n : ℕ} {b : Block α} (hf : b.first = false)
    (h : Fits n b) : b.offset + b.data.length ≤ n := by
  simpa [Fits, sizeFor, hf] using h

theorem completes_tail {α : Type*} {a : α} {buf buf' : List α} {bs : List (Block α)}
    {os : List (Option (List α))} (hbs : IsTail bs)
    (h : Completes (accept a) buf bs buf' os) :
    (∀ c ∈ bs, c.offset + c.data.length ≤ buf.length) ∧
      os.reduceOption = [bs.foldl (fun buf c => splice buf c.offset c.data) buf] := by
  induction hbs generalizing buf os with
  | last b hf hl hd =>
      obtain ⟨o, hstep, rfl⟩ := (completes_singleton_iff _ _ _ _ _).mp h
      have hfits := fits_of_not_first hf ((accept_eq_ok_iff a buf b _).mp hstep).1
      rw [accept_of_not_first hf hfits, if_pos hl, Except.ok.injEq, Prod.mk.injEq] at hstep
      obtain ⟨-, rfl⟩ := hstep
      exact ⟨by simpa using hfits, rfl⟩
  | cons b bs hf hl hd hbs ih =>
      obtain ⟨t, o, os', hstep, hrun, rfl⟩ := (completes_cons_iff _ _ _ _ _ _).mp h
      have hfits := fits_of_not_first hf ((accept_eq_ok_iff a buf b _).mp hstep).1
      rw [accept_of_not_first hf hfits, if_neg (by simp [hl]), Except.ok.injEq,
        Prod.mk.injEq] at hstep
      obtain ⟨rfl, rfl⟩ := hstep
      obtain ⟨hrest, hos⟩ := ih hrun
      rw [splice_length _ _ _ hfits] at hrest
      refine ⟨List.forall_mem_cons.mpr ⟨hfits, hrest⟩, ?_⟩
      rw [List.reduceOption_cons_of_none, hos, List.foldl_cons]

theorem exists_completes_tail {α : Type*} {a : α} {buf : List α} {bs : List (Block α)}
    (hbs : IsTail bs) (hfits : ∀ c ∈ bs, c.offset + c.data.length ≤ buf.length) :
    ∃ buf' os, Completes (accept a) buf bs buf' os := by
  induction hbs generalizing buf with
  | last b hf hl hd =>
      have hstep := accept_of_not_first (a := a) hf (hfits b (by simp))
      rw [if_pos hl] at hstep
      exact ⟨_, _, (completes_singleton_iff _ _ _ _ _).mpr ⟨_, hstep, rfl⟩⟩
  | cons b bs hf hl hd hbs ih =>
      obtain ⟨hb, hrest⟩ := List.forall_mem_cons.mp hfits
      have hstep := accept_of_not_first (a := a) hf hb
      rw [if_neg (by simp [hl])] at hstep
      rw [← splice_length buf b.offset b.data hb] at hrest
      obtain ⟨buf', os, hrun⟩ := ih hrest
      exact ⟨_, _, (completes_cons_iff _ _ _ _ _ _).mpr ⟨_, _, _, hstep, hrun, rfl⟩⟩

/-- The opening block of a message forgets what was in the buffer before: the
message runs like the rest of one that has an empty buffer of its size. -/
theorem completes_opening_iff {α : Type*} {a : α} {buf buf' : List α} {b : Block α}
    {bs : List (Block α)} {os : List (Option (List α))} (hf : b.first = true) :
    Completes (accept a) buf (b :: bs) buf' os ↔
      Completes (accept a) (List.replicate b.total a) ({ b with first := false } :: bs)
        buf' os := by
  have hstep : accept a buf b =
      accept a (List.replicate b.total a) { b with first := false } := by
    simp [accept, setUp, hf]
  rw [completes_cons_iff, completes_cons_iff, hstep]

theorem IsMessage.isTail {α : Type*} {b : Block α} {bs : List (Block α)}
    (h : IsMessage (b :: bs)) : IsTail ({ b with first := false } :: bs) := by
  cases h with
  | single _ _ hl hd => exact .last _ rfl hl hd
  | cons _ _ _ hl hd hbs => exact .cons _ _ rfl hl hd hbs

/-- A message that runs lies inside its announced size, and what is handed out is
its own. -/
theorem completes_message {α : Type*} {a : α} {buf buf' : List α} {m : List (Block α)}
    {os : List (Option (List α))} (hm : IsMessage m)
    (h : Completes (accept a) buf m buf' os) :
    FitsTotal m ∧ os.reduceOption = handouts a m := by
  cases m with
  | nil =>
      obtain ⟨-, rfl⟩ := (completes_nil_iff _ _ _ _).mp h
      exact ⟨trivial, rfl⟩
  | cons b bs =>
      rw [completes_opening_iff hm.of_cons.1] at h
      obtain ⟨hfits, hos⟩ := completes_tail hm.isTail h
      rw [List.length_replicate, List.forall_mem_cons] at hfits
      exact ⟨List.forall_mem_cons.mpr hfits, hos⟩

theorem exists_completes_message {α : Type*} {a : α} {m : List (Block α)}
    (hm : IsMessage m) (hfits : FitsTotal m) (buf : List α) :
    ∃ buf' os, Completes (accept a) buf m buf' os := by
  cases m with
  | nil => exact ⟨buf, [], (completes_nil_iff _ _ _ _).mpr ⟨rfl, rfl⟩⟩
  | cons b bs =>
      simp only [completes_opening_iff hm.of_cons.1]
      refine exists_completes_tail hm.isTail ?_
      rw [List.length_replicate, List.forall_mem_cons]
      exact List.forall_mem_cons.mp hfits

/-- Messages one after the other: each of them lies inside its size, and what is
handed out are the messages in their order. -/
theorem completes_messages {α : Type*} {a : α} {buf buf' : List α}
    {ms : List (List (Block α))} {os : List (Option (List α))}
    (hms : ∀ m ∈ ms, IsMessage m) (h : Completes (accept a) buf ms.flatten buf' os) :
    (∀ m ∈ ms, FitsTotal m) ∧ os.reduceOption = ms.flatMap (handouts a) := by
  induction ms generalizing buf os with
  | nil =>
      obtain ⟨-, rfl⟩ := (completes_nil_iff _ _ _ _).mp h
      exact ⟨by simp, rfl⟩
  | cons m ms ih =>
      obtain ⟨hm, hms⟩ := List.forall_mem_cons.mp hms
      obtain ⟨t, os₁, os₂, h₁, h₂, rfl⟩ := (completes_append_iff _ _ _ _ _ _).mp h
      obtain ⟨hfit, hos₁⟩ := completes_message hm h₁
      obtain ⟨hfits, hos₂⟩ := ih hms h₂
      refine ⟨List.forall_mem_cons.mpr ⟨hfit, hfits⟩, ?_⟩
      rw [List.reduceOption_append, hos₁, hos₂, List.flatMap_cons]

theorem exists_completes_messages {α : Type*} {a : α} {ms : List (List (Block α))}
    (hms : ∀ m ∈ ms, IsMessage m) (hfits : ∀ m ∈ ms, FitsTotal m) (buf : List α) :
    ∃ buf' os, Completes (accept a) buf ms.flatten buf' os := by
  induction ms generalizing buf with
  | nil => exact ⟨buf, [], (completes_nil_iff _ _ _ _).mpr ⟨rfl, rfl⟩⟩
  | cons m ms ih =>
      obtain ⟨hm, hms⟩ := List.forall_mem_cons.mp hms
      obtain ⟨hfit, hfits⟩ := List.forall_mem_cons.mp hfits
      obtain ⟨t, os₁, h₁⟩ := exists_completes_message (a := a) hm hfit buf
      obtain ⟨buf', os₂, h₂⟩ := ih hms hfits t
      exact ⟨buf', os₁ ++ os₂, (completes_append_iff _ _ _ _ _ _).mpr
        ⟨t, os₁, os₂, h₁, h₂, rfl⟩⟩

/-- Two senders share one receiver. Their interleaving hands out what the two
sequences hand out one after the other exactly when every message lies inside its
size and the interleaving cuts none. -/
theorem interleave_handouts_iff {α κ : Type*} {a : α} (c : κ → Block α) (buf : List α)
    {xs ys : List (List κ)} {w : List κ} (hxs : ∀ m ∈ xs, IsMessage (m.map c))
    (hys : ∀ m ∈ ys, IsMessage (m.map c)) (hw : Interleave xs.flatten ys.flatten w) :
    (∃ buf₁ os₁ buf₂ os₂, Completes (accept a) buf (w.map c) buf₁ os₁ ∧
        Completes (accept a) buf ((xs.flatten ++ ys.flatten).map c) buf₂ os₂ ∧
        os₁.reduceOption.Perm os₂.reduceOption) ↔
      (∀ m ∈ xs ++ ys, FitsTotal (m.map c)) ∧ ∃ g, Interleave xs ys g ∧ w = g.flatten := by
  have hboth : ∀ m ∈ xs ++ ys, IsMessage (m.map c) := by
    intro m hm
    exact (List.mem_append.mp hm).elim (hxs m) (hys m)
  rw [← List.flatten_append, List.map_flatten]
  constructor
  · rintro ⟨_, _, _, _, h₁, h₂, -⟩
    exact ⟨List.forall_mem_map.mp (completes_messages (List.forall_mem_map.mpr hboth) h₂).1,
      serial_of_completes hxs hys hw h₁⟩
  · rintro ⟨hfits, g, hg, rfl⟩
    have hmem : ∀ m ∈ g, m ∈ xs ++ ys := fun m hm => hg.perm.mem_iff.mp hm
    have hgm := List.forall_mem_map.mpr fun m hm => hboth m (hmem m hm)
    have hgf := List.forall_mem_map.mpr fun m hm => hfits m (hmem m hm)
    rw [List.map_flatten]
    obtain ⟨buf₁, os₁, h₁⟩ := exists_completes_messages (a := a) hgm hgf buf
    obtain ⟨buf₂, os₂, h₂⟩ := exists_completes_messages (a := a)
      (List.forall_mem_map.mpr hboth) (List.forall_mem_map.mpr hfits) buf
    refine ⟨buf₁, os₁, buf₂, os₂, h₁, h₂, ?_⟩
    rw [(completes_messages hgm h₁).2, (completes_messages (List.forall_mem_map.mpr hboth) h₂).2]
    exact (hg.perm.map _).flatMap_right _

end Reassembly

end Sequence
