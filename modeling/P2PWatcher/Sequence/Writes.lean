import P2PWatcher.Machine.Run
import P2PWatcher.Sequence.Split
import Mathlib.Data.List.Perm.Basic
import Mathlib.Data.List.Flatten

/-!
# Writes in parts

Several operations write to one stream, each a sequence of its own and in as many parts as
it takes. The parts of different operations may alternate, so all that can be said of
the stream is that it merges the sequences (`merges_of_completes`). If no operation sends
while another one is in the middle of its sequence, then the stream is one sequence after
the other (`serial_throughout`).
-/

namespace Sequence

open Machine

/-- What is a permutation of images is the image of a permutation. -/
theorem exists_perm_of_perm_map {α β : Type*} {f : α → β} {ys : List β} {xs : List α}
    (h : ys.Perm (xs.map f)) : ∃ xs' : List α, xs'.Perm xs ∧ ys = xs'.map f := by
  have hcomp : Relation.Comp (fun ys zs => ys = List.map f zs) List.Perm ys xs := by
    rw [List.eq_map_comp_perm]
    exact h
  obtain ⟨xs', heq, hperm⟩ := hcomp
  exact ⟨xs', hperm, heq⟩

/-- An operation with what it has sent and what is left. -/
structure Write (α : Type*) where
  sent : List α := []
  left : List α

structure Writes (α : Type*) where
  stream : List α := []
  ops : List (Write α) := []

inductive WriteEvent (α : Type*) where
  /-- an operation is started, which is to write `xs` -/
  | start (xs : List α)
  /-- the operation `i` sends the next `n` cells -/
  | send (i n : ℕ)

namespace Write

variable {α : Type*}

/-- What the operation writes in all. -/
def whole (op : Write α) : List α := op.sent ++ op.left

/-- The next `n` cells are sent. -/
def send (op : Write α) (n : ℕ) : Write α :=
  { sent := op.sent ++ op.left.take n, left := op.left.drop n }

@[simp] theorem whole_send (op : Write α) (n : ℕ) : (op.send n).whole = op.whole := by
  simp [whole, send]

@[simp] theorem send_sent (op : Write α) (n : ℕ) :
    (op.send n).sent = op.sent ++ op.left.take n := rfl

/-- Nothing has been sent, or everything. -/
def Idle (op : Write α) : Prop := op.sent = [] ∨ op.left = []

end Write

namespace Writes

variable {α : Type*}

/-- A step sends something, and not more than there is. -/
def step (w : Writes α) : WriteEvent α → Except Unit (Writes α × Unit)
  | .start xs => .ok ({ w with ops := w.ops ++ [{ left := xs }] }, ())
  | .send i n =>
      match w.ops[i]? with
      | none => .error ()
      | some op =>
          if 0 < n ∧ n ≤ op.left.length then
            .ok ({ stream := w.stream ++ op.left.take n, ops := w.ops.set i (op.send n) }, ())
          else .error ()

/-- The step of the operation at the end of `pre`. -/
structure Sends (w : Writes α) (pre : List (Write α)) (op : Write α) (post : List (Write α))
    (n : ℕ) (w' : Writes α) : Prop where
  ops : w.ops = pre ++ op :: post
  pos : 0 < n
  le : n ≤ op.left.length
  stream' : w'.stream = w.stream ++ op.left.take n
  ops' : w'.ops = pre ++ op.send n :: post

theorem step_cases {w w' : Writes α} {event : WriteEvent α} {o : Unit}
    (h : w.step event = .ok (w', o)) :
    (∃ xs, event = .start xs ∧ w' = { w with ops := w.ops ++ [{ left := xs }] }) ∨
    ∃ pre op post n, event = .send pre.length n ∧ Sends w pre op post n w' := by
  cases event with
  | start xs =>
      obtain ⟨rfl, -⟩ := Prod.mk.inj (Except.ok.inj h)
      exact .inl ⟨xs, rfl, rfl⟩
  | send i n =>
      rw [step] at h
      split at h
      · exact nomatch h
      · next op hfound =>
          split at h
          · next hn =>
              obtain ⟨rfl, -⟩ := Prod.mk.inj (Except.ok.inj h)
              obtain ⟨pre, post, hsplit, rfl⟩ := exists_split hfound
              refine .inr ⟨pre, op, post, n, rfl, hsplit, hn.1, hn.2, rfl, ?_⟩
              rw [hsplit, set_split]
          · exact nomatch h

/-! ## What is written in all -/

/-- The sequence that the event starts to write. -/
def started? : WriteEvent α → Option (List α)
  | .start xs => some xs
  | .send _ _ => none

/-- The operations write what they were started with. -/
theorem whole_of_completes {events : List (WriteEvent α)} {w : Writes α} {os : List Unit}
    (h : Completes step {} events w os) : w.ops.map Write.whole = events.filterMap started? := by
  refine history_of_completes (P := fun events (w : Writes α) _ =>
    w.ops.map Write.whole = events.filterMap started?) rfl ?_ h
  intro events w os event w' o _ ih hstep
  rw [List.filterMap_append, ← ih]
  rcases step_cases hstep with ⟨xs, rfl, rfl⟩ | ⟨pre, op, post, n, rfl, hsends⟩
  · simp [started?, Write.whole]
  · simp [started?, hsends.ops, hsends.ops']

/-! ## The stream merges the sequences -/

/-- `zs` merges the lists `xss`, each in its own order: its cells can be tagged with the
numbers of the lists that they come from. -/
def Merges (xss : List (List α)) (zs : List α) : Prop :=
  ∃ tagged : List (ℕ × α), tagged.map Prod.snd = zs ∧ (∀ t ∈ tagged, t.1 < xss.length) ∧
    ∀ i xs, xss[i]? = some xs → (tagged.filter fun t => t.1 = i).map Prod.snd = xs

theorem Merges.start {xss : List (List α)} {zs : List α} (h : Merges xss zs) :
    Merges (xss ++ [[]]) zs := by
  obtain ⟨tagged, hzs, hlt, htags⟩ := h
  refine ⟨tagged, hzs, fun t ht => ?_, fun i xs hxs => ?_⟩
  · rw [List.length_append]
    exact Nat.lt_add_right _ (hlt t ht)
  · rcases Nat.lt_trichotomy i xss.length with hi | rfl | hi
    · rw [List.getElem?_append_left hi] at hxs
      exact htags i xs hxs
    · rw [List.getElem?_concat_length, Option.some.injEq] at hxs
      rw [← hxs, List.map_eq_nil_iff, List.filter_eq_nil_iff]
      intro t ht heq
      exact absurd (of_decide_eq_true heq) (Nat.ne_of_lt (hlt t ht))
    · rw [List.getElem?_eq_none (by simp; omega)] at hxs
      cases hxs

theorem Merges.send {xss yss : List (List α)} {xs zs : List α}
    (h : Merges (xss ++ xs :: yss) zs) (ys : List α) :
    Merges (xss ++ (xs ++ ys) :: yss) (zs ++ ys) := by
  obtain ⟨tagged, hzs, hlt, htags⟩ := h
  have hlength : (xss ++ (xs ++ ys) :: yss).length = (xss ++ xs :: yss).length := by simp
  refine ⟨tagged ++ ys.map fun y => (xss.length, y), ?_, fun t ht => ?_, fun i vs hvs => ?_⟩
  · simp [hzs, Function.comp_def]
  · rw [hlength]
    rcases List.mem_append.mp ht with ht | ht
    · exact hlt t ht
    · obtain ⟨y, -, rfl⟩ := List.mem_map.mp ht
      simp
  · by_cases hi : i = xss.length
    · subst hi
      have hold := htags xss.length xs (by simp)
      have hvs : xs ++ ys = vs := by simpa using hvs
      simp [List.filter_append, hold, ← hvs, List.filter_map, Function.comp_def]
    · have hvs' : (xss ++ xs :: yss)[i]? = some vs := by
        rw [← hvs]
        rcases Nat.lt_or_gt_of_ne hi with hi | hi
        · rw [List.getElem?_append_left hi, List.getElem?_append_left hi]
        · obtain ⟨k, rfl⟩ : ∃ k, i = xss.length + (k + 1) := ⟨i - xss.length - 1, by omega⟩
          rw [List.getElem?_append_right (Nat.le_add_right ..),
            List.getElem?_append_right (Nat.le_add_right ..), Nat.add_sub_cancel_left,
            List.getElem?_cons_succ, List.getElem?_cons_succ]
      simp [List.filter_append, htags i vs hvs', List.filter_map, Function.comp_def, Ne.symm hi]

/-- In every run the stream merges what the operations have sent. -/
theorem merges_of_completes {events : List (WriteEvent α)} {w : Writes α} {os : List Unit}
    (h : Completes step {} events w os) : Merges (w.ops.map Write.sent) w.stream := by
  refine invariant_of_completes (P := fun w : Writes α => Merges (w.ops.map Write.sent) w.stream)
    ?_ h ⟨[], rfl, by simp, by simp⟩
  intro w event w' o hw hstep
  rcases step_cases hstep with ⟨xs, -, rfl⟩ | ⟨pre, op, post, n, -, hsends⟩
  · rw [List.map_append]
    exact hw.start
  · rw [hsends.ops, List.map_append, List.map_cons] at hw
    rw [hsends.ops', hsends.stream', List.map_append, List.map_cons]
    exact hw.send (op.left.take n)

/-! ## One sequence after the other -/

/-- An operation sends only while no other one is in the middle of its sequence. -/
def Alone (w : Writes α) : WriteEvent α → Prop
  | .start _ => True
  | .send i _ => ∀ j op, j ≠ i → w.ops[j]? = some op → op.Idle

theorem alone_of_singleton {w : Writes α} {op : Write α} (h : w.ops = [op]) (n : ℕ) :
    Alone w (.send 0 n) := by
  intro j op' hj hop'
  rw [h, List.getElem?_eq_none (Nat.one_le_iff_ne_zero.mpr hj)] at hop'
  cases hop'

/-- In some order of the operations, an operation that has sent something is behind
operations that have sent everything, and the stream is what they have sent. -/
def Serial (w : Writes α) : Prop :=
  ∃ order : List (Write α), order.Perm w.ops ∧
    order.Pairwise (fun op op' => op'.sent = [] ∨ op.left = []) ∧
    w.stream = order.flatMap Write.sent

/-- Of idle operations only those that have sent everything have sent something. -/
theorem flatMap_sent_filter {ops : List (Write α)} (h : ∀ op ∈ ops, op.Idle) :
    ops.flatMap Write.sent =
      (ops.filter fun op => op.left.isEmpty).flatMap Write.sent := by
  induction ops with
  | nil => rfl
  | cons op ops ih =>
      obtain ⟨hop, hops⟩ := List.forall_mem_cons.mp h
      rw [List.flatMap_cons, List.filter_cons, ih hops]
      split
      · rw [List.flatMap_cons]
      · next hleft =>
          have hsent : op.sent = [] := hop.resolve_right (by simpa using hleft)
          rw [hsent, List.nil_append]

theorem Serial.start {w : Writes α} (hw : Serial w) (xs : List α) :
    Serial { w with ops := w.ops ++ [{ left := xs }] } := by
  obtain ⟨order, hperm, hpairs, hstream⟩ := hw
  refine ⟨order ++ [{ left := xs }], hperm.append_right _, ?_, ?_⟩
  · rw [List.pairwise_append]
    refine ⟨hpairs, List.pairwise_singleton _ _, fun op _ op' hop' => ?_⟩
    rw [List.mem_singleton.mp hop']
    exact .inl rfl
  · simp [hstream]

/-- The operation that sends goes behind those that have sent everything. -/
theorem Serial.send {w w' : Writes α} (hw : Serial w) {pre post : List (Write α)}
    {op : Write α} {n : ℕ} (h : Sends w pre op post n w')
    (halone : ∀ op' ∈ pre ++ post, op'.Idle) : Serial w' := by
  obtain ⟨order, hperm, hpairs, hstream⟩ := hw
  rw [h.ops] at hperm
  have hmem : op ∈ order := hperm.mem_iff.mpr (by simp)
  obtain ⟨l, r, rfl⟩ := List.append_of_mem hmem
  have hothers : (l ++ r).Perm (pre ++ post) :=
    ((List.perm_middle.symm.trans hperm).trans List.perm_middle).cons_inv
  have hidle : ∀ op' ∈ l ++ r, op'.Idle := fun op' hop' =>
    halone op' (hothers.mem_iff.mp hop')
  have hleft : op.left ≠ [] := by
    intro hnil
    have hle := h.le
    rw [hnil] at hle
    exact absurd h.pos (Nat.not_lt.mpr hle)
  -- behind an operation in the middle of its sequence nothing has been sent
  have hsplit : w.stream = (l ++ r).flatMap Write.sent ++ op.sent := by
    rw [hstream, List.flatMap_append, List.flatMap_append, List.flatMap_cons]
    by_cases hsent : op.sent = []
    · rw [hsent, List.nil_append, List.append_nil]
    · have hnone : r.flatMap Write.sent = [] := by
        rw [List.flatMap_eq_nil_iff]
        intro op' hop'
        have hpair := (List.pairwise_cons.mp (List.pairwise_append.mp hpairs).2.1).1 op' hop'
        exact hpair.resolve_right hleft
      rw [hnone, List.append_nil, List.append_nil]
  have hrest : ∀ op' ∈ (l ++ r).filter (fun op => !op.left.isEmpty), op'.sent = [] := by
    intro op' hop'
    obtain ⟨hin, hnot⟩ := List.mem_filter.mp hop'
    exact (hidle op' hin).resolve_right (by simpa using hnot)
  refine ⟨(l ++ r).filter (fun op => op.left.isEmpty) ++
    op.send n :: (l ++ r).filter (fun op => !op.left.isEmpty), ?_, ?_, ?_⟩
  · rw [h.ops']
    refine List.perm_middle.trans (.trans ?_ List.perm_middle.symm)
    exact (List.filter_append_perm _ _ |>.trans hothers).cons _
  · have hfull : ∀ op' ∈ (l ++ r).filter (fun op => op.left.isEmpty), op'.left = [] :=
      fun op' hop' => List.isEmpty_iff.mp (List.mem_filter.mp hop').2
    rw [List.pairwise_append, List.pairwise_cons]
    refine ⟨?_, ⟨fun op' hop' => .inl (hrest op' hop'), ?_⟩,
      fun op' hop' _ _ => .inr (hfull op' hop')⟩
    · exact List.pairwise_of_forall_mem_list fun op' hop' _ _ => .inr (hfull op' hop')
    · exact List.pairwise_of_forall_mem_list fun _ _ op' hop' => .inl (hrest op' hop')
  · have hnone : ((l ++ r).filter fun op => !op.left.isEmpty).flatMap Write.sent = [] :=
      List.flatMap_eq_nil_iff.mpr hrest
    rw [h.stream', hsplit, flatMap_sent_filter hidle, List.flatMap_append, List.flatMap_cons, hnone,
      Write.send_sent, List.append_nil, List.append_assoc]

theorem Serial.step {w w' : Writes α} {event : WriteEvent α} {o : Unit} (hw : Serial w)
    (halone : Alone w event) (h : w.step event = .ok (w', o)) : Serial w' := by
  rcases step_cases h with ⟨xs, -, rfl⟩ | ⟨pre, op, post, n, rfl, hsends⟩
  · exact hw.start xs
  · refine hw.send hsends fun op' hop' => ?_
    rcases List.mem_append.mp hop' with hop' | hop'
    · obtain ⟨j, hj⟩ := List.mem_iff_getElem?.mp hop'
      have hlt := (List.getElem?_eq_some_iff.mp hj).1
      refine halone j op' (Nat.ne_of_lt hlt) ?_
      rw [hsends.ops, List.getElem?_append_left hlt, hj]
    · obtain ⟨j, hj⟩ := List.mem_iff_getElem?.mp hop'
      refine halone (pre.length + (j + 1)) op' (by omega) ?_
      rw [hsends.ops, List.getElem?_append_right (Nat.le_add_right ..), Nat.add_sub_cancel_left,
        List.getElem?_cons_succ, hj]

/-- In a run whose steps are all alone the stream is at any time one sequence after the
other. -/
theorem serial_throughout {events : List (WriteEvent α)}
    (h : EachStep step {} events Alone) : Throughout step {} events Serial :=
  throughout_of_eachStep (fun _ _ _ _ hw halone hstep => Serial.step hw halone hstep)
    ⟨[], .nil, .nil, rfl⟩ h

/-- The stream begins the sequences in some order, and is all of them when everything has
been sent. -/
theorem Serial.exists_perm {w : Writes α} (hw : Serial w) :
    ∃ xss : List (List α), xss.Perm (w.ops.map Write.whole) ∧ w.stream <+: xss.flatten ∧
      ((∀ op ∈ w.ops, op.left = []) → w.stream = xss.flatten) := by
  obtain ⟨order, hperm, hpairs, hstream⟩ := hw
  refine ⟨order.map Write.whole, hperm.map _, ?_, fun hall => ?_⟩
  · rw [hstream]
    clear hperm hstream
    induction order with
    | nil => exact List.nil_prefix
    | cons op order ih =>
        obtain ⟨hop, horder⟩ := List.pairwise_cons.mp hpairs
        rw [List.flatMap_cons, List.map_cons, List.flatten_cons, Write.whole]
        by_cases hleft : op.left = []
        · rw [hleft, List.append_nil, List.prefix_append_right_inj]
          exact ih horder
        · have hnone : order.flatMap Write.sent = [] :=
            List.flatMap_eq_nil_iff.mpr fun op' hop' => (hop op' hop').resolve_right hleft
          rw [hnone, List.append_nil, List.append_assoc]
          exact List.prefix_append ..
  · rw [hstream, ← List.flatMap_def]
    refine List.flatMap_congr fun op hop => ?_
    rw [Write.whole, hall op (hperm.mem_iff.mp hop), List.append_nil]

end Writes

end Sequence
