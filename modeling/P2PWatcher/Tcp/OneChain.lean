import P2PWatcher.Tcp.Client

/-!
# One read at a time

All connections of the client share `size` and `buffer`, so there should be one read at a
time. Closing the socket fails the reads that are pending, but the outer handler of
`asyncRead` goes on after any error except the end of the stream. If it runs when the
socket has been opened again, it starts a read of the new connection next to the one that
this connection has of its own. As long as no handler of an earlier opening goes on while
the socket is open, at most one read is pending (`oneRead_throughout`).
-/

namespace P2PWatcher

open Memory Machine Sequence

/-- A read that has not completed. -/
def Op.PendingRead (op : Op) : Prop := op.kind.reads.isSome ∧ op.result = none

instance (op : Op) : Decidable op.PendingRead := inferInstanceAs (Decidable (_ ∧ _))

/-- The handler of the operation starts a read: behind a connect that succeeded, a length
that did not end with the stream, or a body that was read. -/
def Op.GoesOn (op : Op) : Prop :=
  match op.kind with
  | .length => ∃ ec, op.result = some ec ∧ ec ≠ some .eof
  | .connect _ | .body _ => op.result = some none
  | .write => False

namespace Client

def OneRead (s : Client) : Prop := s.ops.countP (fun op => op.PendingRead) ≤ 1

/-- While the socket is open, a handler that goes on is one of its present opening. -/
def Current (s : Client) : ClientEvent → Prop
  | .handled i => s.isOpen = true →
      ∀ op, s.ops[i]? = some op → op.GoesOn → op.opening = s.opening
  | _ => True

/-! ## The chains -/

/-- How many operations of the opening `n` lead to a read. -/
def chainsOf (n : ℕ) (ops : List Op) : ℕ :=
  ops.countP fun op => op.kind ≠ .write ∧ op.opening = n

/-- Only operations of the present opening are pending, and while the socket is open one of
them at most leads to a read. -/
structure OneChain (s : Client) : Prop where
  old : ∀ op ∈ s.ops, op.opening ≤ s.opening
  pending : ∀ op ∈ s.ops, op.result = none → s.isOpen = true ∧ op.opening = s.opening
  one : s.isOpen = true → chainsOf s.opening s.ops ≤ 1

theorem chainsOf_append (n : ℕ) (ops ops' : List Op) :
    chainsOf n (ops ++ ops') = chainsOf n ops + chainsOf n ops' := List.countP_append

theorem chainsOf_cons (n : ℕ) (op : Op) (ops : List Op) :
    chainsOf n (op :: ops) =
      chainsOf n ops + if op.kind ≠ .write ∧ op.opening = n then 1 else 0 := by
  rw [chainsOf, List.countP_cons, chainsOf]
  simp

theorem chainsOf_nil (n : ℕ) : chainsOf n [] = 0 := rfl

/-- The rest of the state has no part in it. -/
theorem OneChain.congr {s t : Client} (hs : OneChain s) (hopen : t.isOpen = s.isOpen)
    (hopening : t.opening = s.opening) (hops : t.ops = s.ops) : OneChain t := by
  refine ⟨?_, ?_, ?_⟩
  · rw [hops, hopening]
    exact hs.old
  · rw [hops, hopen, hopening]
    exact hs.pending
  · rw [hops, hopen, hopening]
    exact hs.one

theorem oneChain_start : OneChain {} := ⟨by simp, by simp, by simp⟩

theorem OneChain.oneRead {s : Client} (hs : OneChain s) : OneRead s := by
  rw [OneRead]
  by_cases hopen : s.isOpen = true
  · refine le_trans (List.countP_mono_left fun op hop hread => ?_) (hs.one hopen)
    rw [decide_eq_true_eq] at hread ⊢
    obtain ⟨hkind, hnone⟩ := hread
    refine ⟨fun hwrite => ?_, (hs.pending op hop hnone).2⟩
    rw [hwrite] at hkind
    exact nomatch hkind
  · have hzero : s.ops.countP (fun op => op.PendingRead) = 0 := by
      rw [List.countP_eq_zero]
      intro op hop hread
      rw [decide_eq_true_eq] at hread
      exact hopen (hs.pending op hop hread.2).1
    omega

/-- Operations that are handled disappear. -/
theorem OneChain.sublist {s : Client} (hs : OneChain s) {ops : List Op}
    (h : List.Sublist ops s.ops) : OneChain { s with ops } := by
  refine ⟨fun op hop => hs.old op (h.subset hop), fun op hop => hs.pending op (h.subset hop), ?_⟩
  intro hopen
  exact h.countP_le.trans (hs.one hopen)

theorem OneChain.closeSocket {s : Client} (hs : OneChain s) : OneChain s.closeSocket := by
  refine ⟨?_, ?_, by simp⟩
  · intro op hop
    rw [closeSocket_opening]
    rw [Client.closeSocket] at hop
    split at hop
    · obtain ⟨op', hop', rfl⟩ := List.mem_map.mp hop
      exact hs.old op' hop'
    · exact hs.old op hop
  · intro op hop hnone
    rw [Client.closeSocket] at hop
    split at hop
    · obtain ⟨op', -, rfl⟩ := List.mem_map.mp hop
      rw [Op.abort] at hnone
      cases hresult : op'.result <;> simp [hresult] at hnone
    · next hclosed => exact absurd (hs.pending op hop hnone).1 hclosed

/-- A read may be started when no other operation of the opening leads to one. -/
theorem OneChain.start {s : Client} (hs : OneChain s) (kind : OpKind)
    (h : s.isOpen = true → kind ≠ .write → chainsOf s.opening s.ops = 0) :
    OneChain (s.start kind) := by
  refine ⟨?_, ?_, ?_⟩
  · intro op hop
    rcases List.mem_append.mp hop with hop | hop
    · exact hs.old op hop
    · rw [List.mem_singleton.mp hop]
      exact le_refl _
  · intro op hop hnone
    rcases List.mem_append.mp hop with hop | hop
    · exact hs.pending op hop hnone
    · rw [List.mem_singleton.mp hop] at hnone ⊢
      refine ⟨?_, rfl⟩
      simp only at hnone
      split at hnone
      · next hopen => exact hopen
      · cases hnone
  · intro hopen
    have hone := hs.one hopen
    simp only [Client.start, chainsOf_append, chainsOf_cons, chainsOf_nil]
    by_cases hwrite : kind = .write
    · simpa [hwrite] using hone
    · simp [hwrite, h hopen hwrite]

/-- Nothing is left of an opening to come. -/
theorem OneChain.chainsOf_succ {s : Client} (hs : OneChain s) :
    chainsOf (s.opening + 1) s.ops = 0 := by
  rw [chainsOf, List.countP_eq_zero]
  intro op hop hnew
  rw [decide_eq_true_eq] at hnew
  have hle := hs.old op hop
  omega

theorem OneChain.attempt {s : Client} (hs : OneChain s) (rest : ℕ) :
    OneChain (s.attempt rest) := by
  have ht := hs.closeSocket
  have hzero := ht.chainsOf_succ
  refine OneChain.start ⟨?_, ?_, fun _ => ?_⟩ (.connect rest) fun _ _ => hzero
  · exact fun op hop => Nat.le_succ_of_le (ht.old op hop)
  · intro op hop hnone
    have hopen := (ht.pending op hop hnone).1
    rw [closeSocket_isOpen] at hopen
    exact nomatch hopen
  · exact hzero.le.trans (Nat.zero_le 1)

theorem OneChain.doDisconnect {s : Client} (hs : OneChain s) : OneChain s.doDisconnect :=
  hs.closeSocket.congr rfl rfl rfl

/-! ## One step -/

theorem prcsPacket_eq {asio : Asio} {e : Endian} {s s' : Client} {effect : TcpEffect}
    (h : s.prcsPacket asio e = .ok (s', effect)) :
    s' = { s with udp := s'.udp, bound := s'.bound } := by
  rw [prcsPacket] at h
  split at h
  · exact nomatch h
  · split at h
    · exact nomatch h
    · rw [← (Prod.mk.inj (Except.ok.inj h)).1]
  · rw [← (Prod.mk.inj (Except.ok.inj h)).1]

/-- The handler of an operation that is gone, when nothing else leads to a read if it
goes on itself. -/
theorem OneChain.handler {asio : Asio} {e : Endian} {s s' : Client} {op : Op}
    {ec : Option ErrorCode} {o : Option TcpEffect} (hs : OneChain s) (hec : op.result = some ec)
    (hzero : s.isOpen = true → op.GoesOn → chainsOf s.opening s.ops = 0)
    (h : s.handler asio e ec op.kind = .ok (s', o)) : OneChain s' := by
  obtain ⟨kind, opening, result⟩ := op
  obtain rfl : result = some ec := hec
  cases kind with
  | connect rest =>
      obtain ⟨rfl, -⟩ := Prod.mk.inj (Except.ok.inj h)
      rw [connectHandler.eq_def]
      split
      · next hopen =>
          cases ec with
          | none => exact hs.start .length fun hopen _ => hzero hopen rfl
          | some ec =>
              cases rest with
              | zero => exact hs.doDisconnect
              | succ rest => exact hs.attempt rest
      · exact hs.doDisconnect
  | length =>
      obtain ⟨rfl, -⟩ := Prod.mk.inj (Except.ok.inj h)
      rw [lengthHandler]
      split
      · exact hs
      · next heof =>
          have ht : OneChain { s with buffer := resize 0 s.buffer s.size.toNat } :=
            hs.congr rfl rfl rfl
          exact ht.start _ fun hopen _ => hzero hopen ⟨ec, rfl, heof⟩
  | body n =>
      rw [Client.handler, bodyHandler] at h
      split at h
      · obtain ⟨rfl, -⟩ := Prod.mk.inj (Except.ok.inj h)
        exact hs
      · next hnone =>
          obtain ⟨⟨t, effect⟩, hframe, heq⟩ := (map_eq_ok_iff _ _ _).mp h
          obtain ⟨rfl, -⟩ := Prod.mk.inj heq
          have hnone : ec = none := by simpa using hnone
          subst hnone
          have ht : OneChain { s with udp := t.udp, bound := t.bound } := hs.congr rfl rfl rfl
          rw [prcsPacket_eq hframe]
          exact ht.start .length fun hopen _ => hzero hopen rfl
  | write =>
      obtain ⟨rfl, -⟩ := Prod.mk.inj (Except.ok.inj h)
      rw [writeHandler]
      split
      · exact hs.doDisconnect
      · exact hs

theorem OneChain.handle {asio : Asio} {e : Endian} {s s' : Client} {i : ℕ}
    {o : Option TcpEffect} (hs : OneChain s) (hcurrent : s.Current (.handled i))
    (h : s.handle asio e i = .ok (s', o)) : OneChain s' := by
  obtain ⟨pre, op, post, ec, hops, rfl, hec, hhandler⟩ := handle_cases h
  have hsub : List.Sublist (pre ++ post) s.ops := by
    rw [hops]
    exact (List.sublist_cons_self op post).append_left pre
  refine (hs.sublist hsub).handler hec (fun hopen hgoes => ?_) hhandler
  -- the handled operation was the one that led to a read
  have hfound : s.ops[pre.length]? = some op := by
    rw [hops, getElem?_split]
  have hopening := hcurrent hopen op hfound hgoes
  have hkind : op.kind ≠ .write := by
    intro hwrite
    rw [Op.GoesOn, hwrite] at hgoes
    exact hgoes
  have hone := hs.one hopen
  rw [hops, chainsOf_append, chainsOf_cons, if_pos ⟨hkind, hopening⟩] at hone
  have hzero : chainsOf s.opening pre + chainsOf s.opening post = 0 := by omega
  rw [← chainsOf_append] at hzero
  exact hzero

theorem OneChain.complete {e : Endian} {s s' : Client} {i : ℕ} {c : Completion}
    (hs : OneChain s) (h : s.complete e i c = .ok s') : OneChain s' := by
  obtain ⟨pre, op, post, hops, -, -, hsame⟩ := complete_cases h
  have hmem : ∀ op' ∈ pre ++ post, op' ∈ s.ops := by
    intro op' hop'
    rw [hops]
    rcases List.mem_append.mp hop' with hop' | hop' <;> simp [hop']
  rw [hsame]
  refine ⟨?_, ?_, fun hopen => ?_⟩
  · intro op' hop'
    rcases List.mem_append.mp hop' with hop' | hop'
    · exact hs.old op' (hmem op' (List.mem_append_left _ hop'))
    · rcases List.mem_cons.mp hop' with rfl | hop'
      · exact hs.old op (by rw [hops]; simp)
      · exact hs.old op' (hmem op' (List.mem_append_right _ hop'))
  · intro op' hop' hnone
    rcases List.mem_append.mp hop' with hop' | hop'
    · exact hs.pending op' (hmem op' (List.mem_append_left _ hop')) hnone
    · rcases List.mem_cons.mp hop' with rfl | hop'
      · exact nomatch hnone
      · exact hs.pending op' (hmem op' (List.mem_append_right _ hop')) hnone
  · have hone := hs.one hopen
    rw [hops, chainsOf_append, chainsOf_cons] at hone
    rw [chainsOf_append, chainsOf_cons]
    exact hone

/-- A step of the client keeps its chains apart. -/
theorem OneChain.step {asio : Asio} {e : Endian} {s s' : Client} {event : ClientEvent}
    {o : Option TcpEffect} (hs : OneChain s) (hcurrent : s.Current event)
    (h : s.step asio e event = .ok (s', o)) : OneChain s' := by
  cases event with
  | doConnect addr port =>
      obtain ⟨rfl, -⟩ := Prod.mk.inj (Except.ok.inj h)
      exact hs.congr rfl rfl rfl
  | doDisconnect =>
      obtain ⟨rfl, -⟩ := Prod.mk.inj (Except.ok.inj h)
      exact hs.doDisconnect
  | asyncWrite dataType buffer =>
      obtain ⟨rfl, -⟩ := Prod.mk.inj (Except.ok.inj h)
      rw [asyncWrite]
      split
      · exact hs
      · exact hs.start .write fun _ hwrite => absurd rfl hwrite
  | resolved i result =>
      obtain ⟨ht, -⟩ := (map_pair_eq_ok_iff _ _ _ _).mp h
      obtain ⟨resolves, hcase⟩ := resolved_cases ht
      have hresolves : OneChain { s with resolves } := hs.congr rfl rfl rfl
      rcases hcase with ⟨ec, rfl, rfl⟩ | ⟨rest, rfl, rfl⟩
      · exact hresolves.doDisconnect
      · exact hresolves.attempt rest
  | arrived i data =>
      obtain ⟨ht, -⟩ := (map_pair_eq_ok_iff _ _ _ _).mp h
      rw [arrive_eq ht]
      exact hs.congr rfl rfl rfl
  | completed i c =>
      obtain ⟨ht, -⟩ := (map_pair_eq_ok_iff _ _ _ _).mp h
      exact hs.complete ht
  | handled i => exact hs.handle hcurrent h
  | datagram i result | datagramHandled i =>
      obtain ⟨ht, -⟩ := (map_pair_eq_ok_iff _ _ _ _).mp h
      rw [udpStep] at ht
      split at ht
      · cases ht
      · rw [← Except.ok.inj ht]
        exact hs.congr rfl rfl rfl

/-! ## Whole runs -/

/-- In every run of the client in which no handler of an earlier opening goes on while the
socket is open, at most one read is pending at any time. -/
theorem oneRead_throughout (asio : Asio) (e : Endian) (events : List ClientEvent)
    (h : EachStep (step asio e) {} events Current) :
    Throughout (step asio e) {} events OneRead := by
  intro pre post heq s os hrun
  have hchain := throughout_of_eachStep (fun _ _ _ _ hs hcurrent hstep =>
    OneChain.step hs hcurrent hstep) oneChain_start h
  exact (hchain pre post heq s os hrun).oneRead

/-- The user disconnects behind the first frame and connects again, and only then does the
handler of the aborted read run. -/
def abortHandledLate : List ClientEvent :=
  firstFrame (List.replicate 17 0) ++ [.handled 0, .doDisconnect,
    .doConnect localhost Constants.serverPort, .resolved 0 (.ok 0),
    .completed 1 { data := [], ec := none }, .handled 1, .handled 0]

/-- A length read and a body read of the same connection. -/
theorem oneRead_fails : ∃ s os, Completes (step .loopback .little) {} abortHandledLate s os ∧
    s.ops = [{ kind := .length, opening := 2 }, { kind := .body 17, opening := 2 }] ∧
    ¬ Throughout (step .loopback .little) {} abortHandledLate OneRead := by
  obtain ⟨s, os, hrun, hops⟩ : ∃ s os, Completes (step .loopback .little) {} abortHandledLate s os ∧
      s.ops = [{ kind := .length, opening := 2 }, { kind := .body 17, opening := 2 }] :=
    ⟨_, _, rfl, rfl⟩
  refine ⟨s, os, hrun, hops, fun hone => ?_⟩
  have hread := hone abortHandledLate [] rfl s os hrun
  rw [OneRead, hops] at hread
  exact absurd hread (by decide)

/-- The handler of the aborted read runs while the socket is closed. -/
def abortHandled : List ClientEvent :=
  [.doConnect localhost Constants.serverPort, .resolved 0 (.ok 0),
    .completed 0 { data := [], ec := none }, .handled 0, .doDisconnect, .handled 0]

theorem oneRead_abortHandled : Throughout (step .loopback .little) {} abortHandled OneRead := by
  refine oneRead_throughout .loopback .little abortHandled ?_
  refine (eachStep_cons_iff rfl _ _).mpr ⟨trivial, ?_⟩
  refine (eachStep_cons_iff rfl _ _).mpr ⟨trivial, ?_⟩
  refine (eachStep_cons_iff rfl _ _).mpr ⟨trivial, ?_⟩
  refine (eachStep_cons_iff rfl _ _).mpr ⟨?_, ?_⟩
  · rintro - op hop -
    rw [← Option.some.inj hop]
    rfl
  refine (eachStep_cons_iff rfl _ _).mpr ⟨trivial, ?_⟩
  refine (eachStep_cons_iff rfl _ _).mpr ⟨?_, eachStep_nil _ _ _⟩
  intro hopen
  exact nomatch hopen

end Client

end P2PWatcher
