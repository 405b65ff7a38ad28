import P2PWatcher.Manager.Relay
import P2PWatcher.Udp.Message
import Mathlib.Algebra.Order.BigOperators.Group.List

/-!
# What goes on and what ends

`close` is called when the manager is destroyed. Until then there is one accept and one wait
of the timer, whatever the operations complete with, and no handler of the timer sees an
error. So at any time another client can be accepted, and the timer can send another message
to everybody (`goes_on`).

For the UDP socket there is one receive as long as none has failed. The first error that a
handler of a receive logs is the last thing that the process does with what it receives:
no image is relayed from then on (`relays_until_failed`), while clients are accepted and
get their messages as before.
-/

namespace P2PWatcher

open Memory Machine Sequence PubSub

namespace Manager

/-! ## Accepts and waits -/

/-- One accept, and one wait that has not been cancelled. -/
structure Alive (s : Manager) : Prop where
  isOpen : s.acceptor.isOpen = true
  accepts : ∃ w, s.acceptor.accepts = [w]
  timer : s.timer = [none] ∨ s.timer = [some none]
  udp : s.udp.isOpen = true

theorem alive_start : start.Alive := ⟨rfl, ⟨none, rfl⟩, .inl rfl, rfl⟩

theorem Alive.split_accepts {s : Manager} (hs : s.Alive) {pre post : List Waiting} {w : Waiting}
    (h : s.acceptor.accepts = pre ++ w :: post) : pre = [] ∧ post = [] := by
  obtain ⟨w', hw⟩ := hs.accepts
  rw [hw] at h
  obtain ⟨hpre, hpost, -⟩ := split_singleton h
  exact ⟨hpre, hpost⟩

theorem Alive.split_timer {s : Manager} (hs : s.Alive) {pre post : List Waiting} {w : Waiting}
    (h : s.timer = pre ++ w :: post) : pre = [] ∧ post = [] ∧ ∀ ec, w ≠ some (some ec) := by
  rcases hs.timer with htimer | htimer
  · rw [htimer] at h
    obtain ⟨hpre, hpost, rfl⟩ := split_singleton h
    exact ⟨hpre, hpost, nofun⟩
  · rw [htimer] at h
    obtain ⟨hpre, hpost, rfl⟩ := split_singleton h
    exact ⟨hpre, hpost, nofun⟩

theorem isOpen_of_loop {asio : Asio} {e : Endian} {s s' : ReceiveLoop} {event : LoopEvent}
    {o : LoopOutput (UInt16 × List UInt8)} (hs : s.isOpen = true)
    (h : AsioUdpManager.loop asio e s event = .ok (s', o)) (hevent : event ≠ .closed) :
    s'.isOpen = true := by
  rcases ReceiveLoop.step_cases h with ⟨addr, port, -, hopen, -⟩ | ⟨i, result, -, hreceived, -⟩ |
    ⟨i, -, hfailed⟩ | ⟨i, -, hturn⟩ | ⟨rfl, -, -⟩
  · exact (AsioTcpManager.starts_openUdp hopen).isOpen
  · rw [hreceived.isOpen, hs]
  · rw [hfailed.isOpen, hs]
  · rw [hturn.isOpen, hs]
  · exact absurd rfl hevent

/-- The handlers put back what they take, and nobody cancels the wait. -/
theorem Alive.of_step {asio : Asio} {e : Endian} {s s' : Manager} {event : ManagerEvent}
    {o : ManagerOutput} (hs : s.Alive) (hevent : event ≠ .close)
    (h : s.step asio e event = .ok (s', o)) :
    s'.Alive ∧ ∀ ec, o ≠ .timerError ec := by
  cases steps_of_step h with
  | acceptCompleted ec hsplit =>
      obtain ⟨rfl, rfl⟩ := hs.split_accepts hsplit
      exact ⟨⟨hs.isOpen, ⟨_, rfl⟩, hs.timer, hs.udp⟩, by simp⟩
  | acceptHandled remote hsplit =>
      obtain ⟨rfl, rfl⟩ := hs.split_accepts hsplit
      have hlisten : Acceptor.listen { s.acceptor with accepts := [] } =
          { s.acceptor with accepts := [none] } := if_pos hs.isOpen
      refine ⟨⟨?_, ⟨none, ?_⟩, hs.timer, hs.udp⟩, by simp⟩
      · rw [listen, List.append_nil, hlisten]
        exact hs.isOpen
      · rw [listen, List.append_nil, hlisten]
  | read _ => exact ⟨⟨hs.isOpen, hs.accepts, hs.timer, hs.udp⟩, by simp⟩
  | received hloop =>
      exact ⟨⟨hs.isOpen, hs.accepts, hs.timer, isOpen_of_loop hs.udp hloop (by simp)⟩, by simp⟩
  | datagram walk hloop _ =>
      exact ⟨⟨hs.isOpen, hs.accepts, hs.timer, isOpen_of_loop hs.udp hloop (by simp)⟩, by simp⟩
  | relayed hloop _ =>
      exact ⟨⟨hs.isOpen, hs.accepts, hs.timer, isOpen_of_loop hs.udp hloop (by simp)⟩, by simp⟩
  | expired hsplit =>
      obtain ⟨rfl, rfl, -⟩ := hs.split_timer hsplit
      exact ⟨⟨hs.isOpen, hs.accepts, .inr rfl, hs.udp⟩, by simp⟩
  | ticked time hsplit _ _ _ =>
      obtain ⟨rfl, rfl, -⟩ := hs.split_timer hsplit
      exact ⟨⟨hs.isOpen, hs.accepts, .inl rfl, hs.udp⟩, by simp⟩
  | timerError time walk hsplit =>
      obtain ⟨-, -, hnot⟩ := hs.split_timer hsplit
      exact absurd rfl (hnot _)
  | close => exact absurd rfl hevent

theorem alive_of_completes {asio : Asio} {e : Endian} {events : List ManagerEvent}
    {s : Manager} {os : List ManagerOutput} (h : Completes (step asio e) start events s os)
    (hclose : .close ∉ events) : s.Alive ∧ ∀ ec, .timerError ec ∉ os := by
  refine history_of_completes (P := fun events (s : Manager) os => .close ∉ events →
    s.Alive ∧ ∀ ec, .timerError ec ∉ os) (fun _ => ⟨alive_start, nofun⟩) ?_ h hclose
  intro events s os event s' o _ ih hstep hnot
  rw [List.mem_append, List.mem_singleton, not_or] at hnot
  obtain ⟨hs, hos⟩ := ih hnot.1
  obtain ⟨hs', ho⟩ := hs.of_step (Ne.symm hnot.2) hstep
  refine ⟨hs', fun ec => ?_⟩
  rw [List.mem_append, List.mem_singleton, not_or]
  exact ⟨hos ec, (ho ec).symm⟩

/-! ## Serving again -/

/-- `make_address` takes the addresses of the accepted sockets, which `to_string` has made. -/
def RemotesParse (asio : Asio) (events : List ManagerEvent) : Prop :=
  ∀ n i, .acceptHandled n (.ok i) ∈ events → asio.makeAddress i.addr = true

theorem RemotesParse.of_mem_walk {asio : Asio} {e : Endian} {events : List ManagerEvent}
    {s : Manager} {os : List ManagerOutput} {walk : Walk} (hremotes : RemotesParse asio events)
    (h : Completes (step asio e) start events s os) (hwalk : walk.Perm s.server.udpCl.entries) :
    ∀ x ∈ walk, asio.makeAddress x.2.addr = true := by
  rintro ⟨k, i⟩ hx
  obtain ⟨n, hn⟩ := exists_acceptHandled_of_joined ((mem_walk_iff hwalk h k i).mp hx)
  exact hremotes n i hn

/-- The message of the timer. -/
def timeMessage (time : Int64) : UdpData.TestMessage := { message := timeText time }

theorem timeText_length_le (time : Int64) : (timeText time).length ≤ 54 := by
  have htext : (Text.bytesOf "Hello from Boost.Asio! Timestamp: ").length = 34 := by decide
  have hle := time.le_toInt
  have hlt := time.toInt_lt
  have hlen := Text.toString_length_le (v := time.toInt) (by omega)
  rw [timeText, List.length_append, htext]
  omega

/-- What `broadCast` does with an open socket. -/
def toAll (e : Endian) (walk : Walk) (dataType : UInt16) (buf : List UInt8) : BroadCast where
  isOpen := true
  walk := walk
  dataType := dataType
  buf := buf
  sent := walk.map fun x => (x.2, fragments e dataType buf)

theorem broadCast_of_lt {asio : Asio} {e : Endian} {s : Manager} {walk : Walk}
    (hwalk : walk.Perm s.server.udpCl.entries)
    (haddr : ∀ x ∈ walk, asio.makeAddress x.2.addr = true) (hudp : s.udp.isOpen = true)
    (dataType : UInt16) {buf : List UInt8} (h : buf.length < 2 ^ 31) :
    s.broadCast asio e walk dataType buf = .ok (toAll e walk dataType buf) := by
  have hcl : ∀ client ∈ walk.map (fun x => (x.1, x.2)),
      asio.makeAddress client.2.addr = true := List.forall_mem_map.mpr haddr
  rw [broadCast, if_pos hwalk, hudp, AsioUdpManager.broadCast_of_lt e hcl _ _ h, List.map_map]
  rfl

theorem timeMessage_length_le (time : Int64) : (timeMessage time).message.length ≤ 1451 :=
  (timeText_length_le time).trans (by decide)

theorem step_acceptCompleted {asio : Asio} {e : Endian} {s : Manager} (ec : Option ErrorCode)
    (h : s.acceptor.accepts = [none]) :
    s.step asio e (.acceptCompleted 0 ec) =
      .ok ({ s with acceptor := { s.acceptor with accepts := [some ec] } }, .quiet) := by
  rw [step, h]
  rfl

theorem step_acceptHandled {asio : Asio} {e : Endian} {s : Manager} {ec : Option ErrorCode}
    (remote : Except ErrorCode ClientInfo) (h : s.acceptor.accepts = [some ec])
    (hopen : s.acceptor.isOpen = true) :
    s.step asio e (.acceptHandled 0 remote) =
      .ok ({ s with
        acceptor := { s.acceptor with accepts := [none] }
        server := (s.server.accept e ec remote).1 },
        .server (s.server.accept e ec remote).2 none) := by
  have hlisten : Acceptor.listen { s.acceptor with accepts := [] } =
      { s.acceptor with accepts := [none] } := if_pos hopen
  rw [step, acceptHandler, h]
  simp only [List.getElem?_cons_zero, List.eraseIdx_cons_zero, listen, hlisten]

/-- A client whose accept has completed gets into the map. -/
theorem accepts_of_completed {asio : Asio} {e : Endian} {s : Manager}
    (hopen : s.acceptor.isOpen = true) (h : s.acceptor.accepts = [some none]) (i : ClientInfo) :
    ∃ s', s.step asio e (.acceptHandled 0 (.ok i)) =
        .ok (s', .server (.accepted s.server.nextId) none) ∧
      s'.members = s.members.insert s.server.nextId i :=
  ⟨_, step_acceptHandled (.ok i) h hopen, Finmap.insert_toFinmap ..⟩

theorem accepts_of_pending {asio : Asio} {e : Endian} {s : Manager}
    (hopen : s.acceptor.isOpen = true) (h : s.acceptor.accepts = [none]) (i : ClientInfo) :
    ∃ s', Completes (step asio e) s [.acceptCompleted 0 none, .acceptHandled 0 (.ok i)] s'
        [.quiet, .server (.accepted s.server.nextId) none] ∧
      s'.members = s.members.insert s.server.nextId i := by
  obtain ⟨s', hstep, hmembers⟩ := accepts_of_completed (e := e) (s := { s with
    acceptor := { s.acceptor with accepts := [some none] } }) hopen rfl i
  exact ⟨s', (completes_cons_iff _ _ _ _ _ _).mpr ⟨_, _, _, step_acceptCompleted none h,
    (completes_singleton_iff _ _ _ _ _).mpr ⟨_, hstep, rfl⟩, rfl⟩, hmembers⟩

/-- Another client is accepted, at once or behind an accept that has failed. -/
theorem Alive.accepts_again {s : Manager} (hs : s.Alive) (asio : Asio) (e : Endian)
    (i : ClientInfo) :
    ∃ more s' os', more.length ≤ 3 ∧ .close ∉ more ∧
      Completes (Manager.step asio e) s more s' os' ∧
      s'.members = s.members.insert s.server.nextId i := by
  obtain ⟨w, hw⟩ := hs.accepts
  rcases w with _ | _ | ec
  · obtain ⟨s', hrun, hmembers⟩ := accepts_of_pending (e := e) hs.isOpen hw i
    exact ⟨_, s', _, by simp, by simp, hrun, hmembers⟩
  · obtain ⟨s', hstep, hmembers⟩ := accepts_of_completed (e := e) hs.isOpen hw i
    exact ⟨_, s', _, by simp, by simp,
      (completes_singleton_iff _ _ _ _ _).mpr ⟨_, hstep, rfl⟩, hmembers⟩
  · obtain ⟨s', hrun, hmembers⟩ := accepts_of_pending (e := e) (s := { s with
      acceptor := { s.acceptor with accepts := [none] } }) hs.isOpen rfl i
    have hall := (completes_cons_iff (Manager.step asio e) _ _ _ _ _).mpr
      ⟨_, _, _, step_acceptHandled (.error ec) hw hs.isOpen, hrun, rfl⟩
    exact ⟨_, s', _, by simp, by simp, hall, hmembers⟩

/-- A wait that is over. -/
theorem ticks_of_expired {asio : Asio} {e : Endian} {s : Manager} (hudp : s.udp.isOpen = true)
    (h : s.timer = [some none]) (time : Int64) {walk : Walk}
    (hwalk : walk.Perm s.server.udpCl.entries)
    (haddr : ∀ x ∈ walk, asio.makeAddress x.2.addr = true) :
    s.step asio e (.timerHandled 0 time walk) =
      .ok ({ s with timer := [none] }, .ticked
        (toAll e walk UdpData.DataTypes.testMessage ((timeMessage time).serialize e))) := by
  have hlen := timeMessage_length_le time
  have hshort : ((timeMessage time).serialize e).length < 2 ^ 31 := by
    rw [UdpData.TestMessage.serialize_length]
    omega
  have hsend := broadCast_of_lt (e := e) hwalk haddr hudp UdpData.DataTypes.testMessage hshort
  rw [timeMessage] at hsend
  rw [step, timerHandler, h]
  simp only [List.getElem?_cons_zero, hsend]
  rfl

/-- The timer sends its next message. -/
theorem Alive.ticks_again {asio : Asio} {s : Manager} (hs : s.Alive) (e : Endian) (time : Int64)
    {walk : Walk} (hwalk : walk.Perm s.server.udpCl.entries)
    (haddr : ∀ x ∈ walk, asio.makeAddress x.2.addr = true) :
    ∃ more s' os', more.length ≤ 2 ∧ .close ∉ more ∧ Completes (Manager.step asio e) s more s'
        (os' ++ [.ticked (toAll e walk UdpData.DataTypes.testMessage
          ((timeMessage time).serialize e))]) ∧ s'.members = s.members := by
  rcases hs.timer with htimer | htimer
  · have hexpired : Manager.step asio e s (.expired 0) =
        .ok ({ s with timer := [some none] }, .quiet) := by
      rw [Manager.step, htimer]
      rfl
    have hstep := ticks_of_expired (e := e) (s := { s with timer := [some none] }) hs.udp rfl
      time hwalk haddr
    exact ⟨[.expired 0, .timerHandled 0 time walk], _, [.quiet], by simp, by simp,
      (completes_cons_iff _ _ _ _ _ _).mpr ⟨_, _, _, hexpired,
        (completes_singleton_iff _ _ _ _ _).mpr ⟨_, hstep, rfl⟩, rfl⟩, rfl⟩
  · have hstep := ticks_of_expired (e := e) hs.udp htimer time hwalk haddr
    exact ⟨[.timerHandled 0 time walk], _, [], by simp, by simp,
      (completes_singleton_iff _ _ _ _ _).mpr ⟨_, hstep, rfl⟩, rfl⟩

/-- At any time before `close`: one accept and one wait are there, no wait has failed, another
client can be accepted in three steps, and in two steps everybody in the map can be sent a
datagram with the time, from which a receiver of the client reads the text. -/
theorem goes_on (asio : Asio) (e : Endian) (events : List ManagerEvent) (s : Manager)
    (os : List ManagerOutput) (h : Completes (step asio e) start events s os)
    (hclose : .close ∉ events) :
    s.Alive ∧ (∀ ec, .timerError ec ∉ os) ∧
    (∀ i : ClientInfo, ∃ more s' os', more.length ≤ 3 ∧ .close ∉ more ∧
      Completes (step asio e) s more s' os' ∧
        s'.members = s.members.insert s.server.nextId i) ∧
    (RemotesParse asio events → ∀ (time : Int64) (walk : Walk), walk.Perm s.server.udpCl.entries →
      ∃ more s' os' b, more.length ≤ 2 ∧ .close ∉ more ∧
        Completes (step asio e) s more s' (os' ++ [.ticked b]) ∧ s'.members = s.members ∧
        ∃ d, b.sent = walk.map (fun x => (x.2, [d])) ∧ ∀ r, ∃ r',
          BoostUdpConnection.listen e r d = .ok (r', .message (timeText time)) ∧
            r'.assembly = r.assembly) := by
  obtain ⟨hs, hos⟩ := alive_of_completes h hclose
  refine ⟨hs, hos, hs.accepts_again asio e, fun hremotes time walk hwalk => ?_⟩
  have haddr := hremotes.of_mem_walk h hwalk
  obtain ⟨more, s', os', hlen, hnot, hrun, hmembers⟩ := hs.ticks_again e time hwalk haddr
  refine ⟨more, s', os', _, hlen, hnot, hrun, hmembers, (timeMessage time).datagram e, ?_,
    fun r => r.receive_datagram _ e (timeMessage_length_le time)⟩
  rw [toAll, UdpData.TestMessage.fragments_eq e (timeMessage_length_le time)]

/-- An accept fails, and so does the receive. -/
def mishaps : List ManagerEvent :=
  [.acceptCompleted 0 (some (.other 24)), .acceptHandled 0 (.error (.other 24)),
    .received 0 (.error (.other 12)), .datagramHandled 0 []]

/-- A client that comes afterwards. -/
def mishapsThenAccept : List ManagerEvent :=
  mishaps ++ [.acceptCompleted 0 none, .acceptHandled 0 (.ok localClient)]

theorem remotesParse_mishapsThenAccept : RemotesParse .loopback mishapsThenAccept := by
  intro n i hmem
  simp only [mishapsThenAccept, mishaps, List.cons_append, List.nil_append, List.mem_cons,
    ManagerEvent.acceptHandled.injEq, reduceCtorEq, and_false, Except.ok.injEq, false_or,
    List.not_mem_nil, or_false] at hmem
  rw [hmem.2]
  exact Asio.makeAddress_loopback

theorem goes_on_mishaps : ∃ s os,
    Completes (step .loopback .little) start mishapsThenAccept s os ∧ s.Alive ∧
    (∀ i : ClientInfo, ∃ more s' os', more.length ≤ 3 ∧
      Completes (step .loopback .little) s more s' os' ∧ s'.members = s.members.insert 1 i) ∧
    ∃ more s' os' b d, more.length ≤ 2 ∧ b.sent = [(localClient, [d])] ∧
      Completes (step .loopback .little) s more s' (os' ++ [.ticked b]) := by
  obtain ⟨s, os, h, hid, hentries⟩ : ∃ s os,
      Completes (step .loopback .little) start mishapsThenAccept s os ∧
        s.server.nextId = 1 ∧ s.server.udpCl.entries = [⟨0, localClient⟩] :=
    ⟨_, _, rfl, rfl, rfl⟩
  obtain ⟨hs, -, haccept, htick⟩ := goes_on .loopback .little mishapsThenAccept s os h
    (by simp [mishapsThenAccept, mishaps])
  refine ⟨s, os, h, hs, fun i => ?_, ?_⟩
  · obtain ⟨more, s', os', hlen, -, hrun, hmore⟩ := haccept i
    rw [hid] at hmore
    exact ⟨more, s', os', hlen, hrun, hmore⟩
  · obtain ⟨more, s', os', b, hlen, -, hrun, -, d, hsent, -⟩ :=
      htick remotesParse_mishapsThenAccept 5 [⟨0, localClient⟩] (by rw [hentries])
    exact ⟨more, s', os', b, d, hlen, hsent, hrun⟩

/-! ## The UDP socket -/

end Manager

/-- How many receives have failed at this output. -/
def LoopOutput.errors {α : Type} : LoopOutput α → ℕ
  | .failed _ => 1
  | _ => 0

theorem receives_of_loop {asio : Asio} {e : Endian} {s s' : ReceiveLoop} {event : LoopEvent}
    {o : LoopOutput (UInt16 × List UInt8)} (hs : s.isOpen = true)
    (h : AsioUdpManager.loop asio e s event = .ok (s', o))
    (hopened : ∀ addr port, event ≠ .opened addr port) (hclosed : event ≠ .closed) :
    s'.receives.length + o.errors = s.receives.length := by
  rcases ReceiveLoop.step_cases h with ⟨addr, port, rfl, -, -⟩ | ⟨i, result, -, hreceived, rfl⟩ |
    ⟨i, -, hfailed⟩ | ⟨i, -, hturn⟩ | ⟨rfl, -, -⟩
  · exact absurd rfl (hopened addr port)
  · obtain ⟨pre, r, post, hsplit, -, -, hreceives⟩ := hreceived.receives
    rw [hreceives, hsplit, List.length_append, List.length_append]
    rfl
  · obtain ⟨pre, r, post, ec, hsplit, -, -, hreceives, rfl⟩ := hfailed.receives
    rw [hreceives, hsplit, List.length_append, List.length_append, List.length_cons]
    rfl
  · obtain ⟨pre, r, post, n, hsplit, -, -, hreceives, effect, rfl, -⟩ := hturn.receives
    have hzero : (LoopOutput.turn effect).errors = 0 := rfl
    rw [hreceives, if_pos hs, hsplit, hzero]
    simp only [List.length_append, List.length_cons, List.length_nil]
    omega
  · exact absurd rfl hclosed

namespace Manager

/-- How many receives have failed at this output. -/
def receiveErrors : ManagerOutput → ℕ
  | .udp o => o.errors
  | _ => 0

theorem receives_of_step {asio : Asio} {e : Endian} {s s' : Manager} {event : ManagerEvent}
    {o : ManagerOutput} (hs : s.udp.isOpen = true) (hevent : event ≠ .close)
    (h : s.step asio e event = .ok (s', o)) :
    s'.udp.receives.length + receiveErrors o = s.udp.receives.length := by
  cases steps_of_step h with
  | received hloop =>
      obtain ⟨-, rfl⟩ := (map_pair_eq_ok_iff _ _ _ _).mp hloop
      exact receives_of_loop hs hloop nofun nofun
  | datagram walk hloop _ => exact receives_of_loop hs hloop nofun nofun
  | relayed hloop _ => exact receives_of_loop hs hloop nofun nofun
  | close => exact absurd rfl hevent
  | _ => rfl

/-- Before `close`, either the one receive is still there or its error has been logged. -/
theorem receives_of_completes {asio : Asio} {e : Endian} {events : List ManagerEvent}
    {s : Manager} {os : List ManagerOutput} (h : Completes (step asio e) start events s os)
    (hclose : .close ∉ events) : s.udp.receives.length + (os.map receiveErrors).sum = 1 := by
  refine history_of_completes (P := fun events (s : Manager) os => .close ∉ events →
    s.udp.receives.length + (os.map receiveErrors).sum = 1) (fun _ => rfl) ?_ h hclose
  intro events s os event s' o hrun ih hstep hnot
  rw [List.mem_append, List.mem_singleton, not_or] at hnot
  have hopen := (alive_of_completes hrun hnot.1).1.udp
  have hreceives := receives_of_step hopen (Ne.symm hnot.2) hstep
  have hsum := ih hnot.1
  rw [List.map_append, List.sum_append, List.map_singleton, List.sum_singleton]
  omega

/-- Without a receive no handler of a receive runs. -/
theorem not_relayed_of_receives {asio : Asio} {e : Endian} {s s' : Manager}
    {event : ManagerEvent} {o : ManagerOutput} (hs : s.udp.receives = [])
    (h : s.step asio e event = .ok (s', o)) :
    (∀ b, o ≠ .relayed b) ∧ ∀ o', o ≠ .udp o' := by
  have hloop : ∀ i, AsioUdpManager.loop asio e s.udp (.handled i) = .error .noReceive := by
    intro i
    rw [AsioUdpManager.loop, ReceiveLoop.step, ReceiveLoop.handle, hs, List.getElem?_nil]
  cases steps_of_step h with
  | datagram walk hhandled _ =>
      rw [hloop] at hhandled
      cases hhandled
  | relayed hhandled _ =>
      rw [hloop] at hhandled
      cases hhandled
  | _ => simp

theorem receives_eq_nil_of_failed {asio : Asio} {e : Endian} {events : List ManagerEvent}
    {s : Manager} {os : List ManagerOutput} (h : Completes (step asio e) start events s os)
    (hclose : .close ∉ events) {ec : ErrorCode} (hmem : .udp (.failed ec) ∈ os) :
    s.udp.receives = [] := by
  have hone := receives_of_completes h hclose
  have hle : 1 ≤ (os.map receiveErrors).sum :=
    List.le_sum_of_mem (List.mem_map.mpr ⟨_, hmem, rfl⟩)
  exact List.eq_nil_of_length_eq_zero (by omega)

theorem receives_of_not_failed {asio : Asio} {e : Endian} {events : List ManagerEvent}
    {s : Manager} {os : List ManagerOutput} (h : Completes (step asio e) start events s os)
    (hclose : .close ∉ events) (hnot : ∀ ec, .udp (.failed ec) ∉ os) :
    s.udp.receives.length = 1 := by
  have hzero : (os.map receiveErrors).sum = 0 := by
    refine List.sum_eq_zero_iff_forall_eq_nat.mpr fun n hn => ?_
    obtain ⟨o, ho, rfl⟩ := List.mem_map.mp hn
    cases o with
    | udp o =>
        cases o with
        | failed ec => exact absurd ho (hnot ec)
        | _ => rfl
    | _ => rfl
  have hone := receives_of_completes h hclose
  rwa [hzero] at hone

/-- In every run without `close`: as long as no receive has failed there is one, and behind
the first that fails no handler of a receive runs and no image is relayed. -/
theorem relays_until_failed (asio : Asio) (e : Endian) (events : List ManagerEvent)
    (s : Manager) (os : List ManagerOutput) (h : Completes (step asio e) start events s os)
    (hclose : .close ∉ events) :
    ((∀ ec, .udp (.failed ec) ∉ os) → s.udp.receives.length = 1) ∧
      ∀ pre ec post, os = pre ++ .udp (.failed ec) :: post →
        ∀ o ∈ post, (∀ b, o ≠ .relayed b) ∧ ∀ o', o ≠ .udp o' := by
  refine ⟨receives_of_not_failed h hclose, ?_⟩
  refine history_of_completes (P := fun events (_ : Manager) os => .close ∉ events →
    ∀ pre ec post, os = pre ++ .udp (.failed ec) :: post →
      ∀ o ∈ post, (∀ b, o ≠ .relayed b) ∧ ∀ o', o ≠ .udp o') ?_ ?_ h hclose
  · intro _ pre ec post heq
    simp at heq
  · intro events s os event s' o hrun ih hstep hnot pre ec post heq
    rw [List.mem_append, not_or] at hnot
    rcases List.eq_nil_or_concat' post with rfl | ⟨post, o', rfl⟩
    · exact nofun
    · rw [← List.cons_append, ← List.append_assoc] at heq
      obtain ⟨rfl, hlast⟩ := List.append_inj' heq rfl
      obtain rfl := (List.cons.inj hlast).1
      have hnone := receives_eq_nil_of_failed hrun hnot.1
        (List.mem_append_right pre List.mem_cons_self)
      intro o₁ ho₁
      rw [List.mem_append, List.mem_singleton] at ho₁
      rcases ho₁ with ho₁ | rfl
      · exact ih hnot.1 pre ec post rfl o₁ ho₁
      · exact not_relayed_of_receives hnone hstep

/-- What has failed, and then the timer. -/
def mishapsThenTick : List ManagerEvent := mishaps ++ [.expired 0, .timerHandled 0 5 []]

/-- What the handlers of `mishaps` put out. -/
def mishapsOutput : List ManagerOutput :=
  [.quiet, .server .notAccepted none, .quiet, .udp (.failed (.other 12))]

theorem relays_until_failed_mishaps : ∃ (s : Manager) (b : BroadCast),
    Completes (step .loopback .little) start mishapsThenTick s
        (mishapsOutput ++ [ManagerOutput.quiet, .ticked b]) ∧
      ∀ o ∈ [ManagerOutput.quiet, .ticked b], ∀ b', o ≠ .relayed b' := by
  obtain ⟨s, b, h⟩ : ∃ (s : Manager) (b : BroadCast), Completes (step .loopback .little) start
      mishapsThenTick s (mishapsOutput ++ [ManagerOutput.quiet, .ticked b]) := ⟨_, _, rfl⟩
  obtain ⟨-, hbehind⟩ :=
    relays_until_failed .loopback .little _ s _ h (by simp [mishapsThenTick, mishaps])
  exact ⟨s, b, h, fun o ho => (hbehind (mishapsOutput.take 3) _ _ rfl o ho).1⟩

end Manager

end P2PWatcher
