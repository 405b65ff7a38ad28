import P2PWatcher.Udp.Receiver
import P2PWatcher.Tcp.Session

/-!
# The receive loops

`listen` starts a receive, and the handler of the receive starts the next one. What
happens in between is up to the network: the receive completes with a
datagram or with an error, and its handler runs at some time after that. `close`
aborts a receive that is pending; one that has completed keeps its result. The
handler returns at once on an error. So in a run there is one receive for the open
socket exactly as long as no handler runs with an error for a receive of the
open socket and none with a datagram for a receive of an earlier opening
(`oneReceive_iff`).

In `Udp.Receiver` a turn of the loop is one step on a datagram. That is what a loop that is
started once comes to (`exists_turns_of_completes`).
-/

namespace P2PWatcher

open Memory Machine Sequence

/-- What a receive that is closed away completes with. -/
def ErrorCode.operationAborted : ErrorCode := .other 125

/-- A receive whose handler has not run yet. -/
structure Receive where
  /-- the opening of the socket that it was started on -/
  opening : ℕ
  /-- the error or the number of bytes, if it has completed -/
  result : Option (Except ErrorCode ℕ) := none

structure ReceiveLoop where
  isOpen : Bool := false
  /-- how often the socket has been opened -/
  opening : ℕ := 0
  receives : List Receive := []
  receiver : UdpReceiver := UdpReceiver.start

inductive LoopEvent where
  /-- the socket is opened on an endpoint, and `listen` is called -/
  | opened (addr : List UInt8) (port : UInt16)
  /-- a receive completes, with a datagram or with an error -/
  | received (i : ℕ) (result : Except ErrorCode (List UInt8))
  /-- the handler of a receive runs -/
  | handled (i : ℕ)
  | closed

inductive LoopOutput (α : Type) where
  | quiet
  /-- a handler logged an error -/
  | failed (ec : ErrorCode)
  /-- a handler got through its datagram -/
  | turn (effect : UdpEffect α)

/-- Why there is no step: no such receive can complete or be handled, opening the socket
throws, or a handler leaves its buffers. -/
inductive LoopStop where
  | noReceive
  | badAddress
  | alreadyOpen
  | notBound
  | fault (f : Fault)

namespace ReceiveLoop

/-- Behind `socket.open`, `set_option` and `bind`. -/
def openSocket (s : ReceiveLoop) : ReceiveLoop :=
  { s with isOpen := true, opening := s.opening + 1 }

def listen (s : ReceiveLoop) : ReceiveLoop :=
  if s.isOpen then { s with receives := s.receives ++ [{ opening := s.opening }] } else s

/-- The end of the handler of a receive without an error. -/
def rearm (s : ReceiveLoop) : ReceiveLoop := if s.isOpen then s.listen else s

def close (s : ReceiveLoop) : ReceiveLoop :=
  if s.isOpen then
    { s with
      isOpen := false
      receives := s.receives.map fun r =>
        { r with result := r.result.or (some (.error .operationAborted)) } }
  else s

/-- The receive `i`, which is pending, completes. -/
def complete (s : ReceiveLoop) (i : ℕ) (result : Except ErrorCode (List UInt8)) :
    Except LoopStop ReceiveLoop :=
  match s.receives[i]? with
  | some { opening, result := none } =>
      match result with
      | .ok d => .ok { s with
          receives := s.receives.set i
            { opening, result := some (.ok (min d.length Constants.bufferSize)) }
          receiver := { s.receiver with buffer := s.receiver.buffer.receive d } }
      | .error ec => .ok { s with
          receives := s.receives.set i { opening, result := some (.error ec) } }
  | _ => .error .noReceive

/-- The handler of the receive `i`, which has completed. -/
def handle {α : Type} (process : Assembly → List UInt8 → Except Fault (Assembly × UdpEffect α))
    (s : ReceiveLoop) (i : ℕ) : Except LoopStop (ReceiveLoop × LoopOutput α) :=
  match s.receives[i]? with
  | some { opening := _, result := some result } =>
      let s := { s with receives := s.receives.eraseIdx i }
      match result with
      | .error ec => .ok (s, .failed ec)
      | .ok bytesTransferred =>
          if 0 < bytesTransferred then
            match process s.receiver.assembly s.receiver.buffer.cells with
            | .error f => .error (.fault f)
            | .ok (assembly, effect) =>
                let s := { s with receiver := { s.receiver with assembly } }
                .ok (s.rearm, .turn effect)
          else .ok (s.rearm, .turn .idle)
  | _ => .error .noReceive

def step {α : Type}
    (start : ReceiveLoop → List UInt8 → UInt16 → Except LoopStop ReceiveLoop)
    (process : Assembly → List UInt8 → Except Fault (Assembly × UdpEffect α))
    (s : ReceiveLoop) : LoopEvent → Except LoopStop (ReceiveLoop × LoopOutput α)
  | .opened addr port => (start s addr port).map fun s' => (s', .quiet)
  | .received i result => (s.complete i result).map fun s' => (s', .quiet)
  | .handled i => s.handle process i
  | .closed => .ok (s.close, .quiet)

end ReceiveLoop

def AsioUdpManager.open (asio : Asio) (s : ReceiveLoop) (addr : List UInt8) (port : UInt16) :
    Except LoopStop ReceiveLoop :=
  if s.isOpen then .ok s
  else if asio.makeAddress addr then
    if asio.bindUdp addr port then .ok s.openSocket else .error .notBound
  else .error .badAddress

/-- What the server does with the UDP socket when it is opened. -/
def AsioTcpManager.openUdp (asio : Asio) (s : ReceiveLoop) (addr : List UInt8) (port : UInt16) :
    Except LoopStop ReceiveLoop :=
  (AsioUdpManager.open asio s addr port).map ReceiveLoop.listen

/-- Opening an open socket throws. -/
def BoostUdpConnection.open (asio : Asio) (s : ReceiveLoop) (addr : List UInt8)
    (port : UInt16) : Except LoopStop ReceiveLoop :=
  if asio.makeAddress addr then
    if s.isOpen then .error .alreadyOpen
    else if asio.bindUdp addr port then .ok s.openSocket
    else .error .notBound
  else .error .badAddress

/-- What the client does with the UDP socket behind a `FirstData`. -/
def BoostTcpConnection.firstData (asio : Asio) (s : ReceiveLoop) (addr : List UInt8)
    (port : UInt16) : Except LoopStop ReceiveLoop :=
  (BoostUdpConnection.open asio s addr port).map ReceiveLoop.listen

def AsioUdpManager.loop (asio : Asio) (e : Endian) : ReceiveLoop → LoopEvent →
    Except LoopStop (ReceiveLoop × LoopOutput (UInt16 × List UInt8)) :=
  ReceiveLoop.step (AsioTcpManager.openUdp asio) (AsioUdpManager.processPacket e)

def BoostUdpConnection.loop (asio : Asio) (e : Endian) : ReceiveLoop → LoopEvent →
    Except LoopStop (ReceiveLoop × LoopOutput (List UInt8)) :=
  ReceiveLoop.step (BoostTcpConnection.firstData asio) (BoostUdpConnection.prcsPacket e)

namespace ReceiveLoop

/-! ## What a step can do -/

/-- `listen` is called on a socket that is open by then. -/
structure Starts (s s' : ReceiveLoop) : Prop where
  isOpen : s'.isOpen = true
  opening : s'.opening = if s.isOpen then s.opening else s.opening + 1
  receives : s'.receives = s.receives ++ [{ opening := s'.opening }]
  receiver : s'.receiver = s.receiver

/-- A receive completes. -/
structure Received (s : ReceiveLoop) (i : ℕ) (result : Except ErrorCode (List UInt8))
    (s' : ReceiveLoop) : Prop where
  receives : ∃ pre r post, s.receives = pre ++ r :: post ∧ pre.length = i ∧ r.result = none ∧
    s'.receives = pre ++ { r with
      result := some (result.map fun d => min d.length Constants.bufferSize) } :: post
  isOpen : s'.isOpen = s.isOpen
  opening : s'.opening = s.opening
  receiver : s'.receiver = match result with
    | .ok d => { s.receiver with buffer := s.receiver.buffer.receive d }
    | .error _ => s.receiver

/-- The handler of a receive that has failed. -/
structure Failed {α : Type} (s : ReceiveLoop) (i : ℕ) (s' : ReceiveLoop)
    (o : LoopOutput α) : Prop where
  receives : ∃ pre r post ec, s.receives = pre ++ r :: post ∧ pre.length = i ∧
    r.result = some (.error ec) ∧ s'.receives = pre ++ post ∧ o = .failed ec
  isOpen : s'.isOpen = s.isOpen
  opening : s'.opening = s.opening
  receiver : s'.receiver = s.receiver

/-- The handler of a receive with a datagram. -/
structure Turn {α : Type}
    (process : Assembly → List UInt8 → Except Fault (Assembly × UdpEffect α))
    (s : ReceiveLoop) (i : ℕ) (s' : ReceiveLoop) (o : LoopOutput α) : Prop where
  receives : ∃ pre r post n, s.receives = pre ++ r :: post ∧ pre.length = i ∧
    r.result = some (.ok n) ∧
    s'.receives = pre ++ post ++ (if s.isOpen then [{ opening := s.opening }] else []) ∧
    ∃ effect, o = .turn effect ∧
      if 0 < n then process s.receiver.assembly s.receiver.buffer.cells =
        .ok (s'.receiver.assembly, effect)
      else s'.receiver.assembly = s.receiver.assembly ∧ effect = .idle
  isOpen : s'.isOpen = s.isOpen
  opening : s'.opening = s.opening
  buffer : s'.receiver.buffer = s.receiver.buffer

theorem starts_listen {s : ReceiveLoop} (h : s.isOpen = true) : Starts s s.listen := by
  rw [listen, if_pos h]
  exact ⟨h, (if_pos h).symm, rfl, rfl⟩

theorem starts_openSocket_listen {s : ReceiveLoop} (h : s.isOpen = false) :
    Starts s s.openSocket.listen := by
  rw [listen, if_pos (show s.openSocket.isOpen = true from rfl)]
  exact ⟨rfl, by rw [h]; rfl, rfl, rfl⟩

theorem received_of_complete {s s' : ReceiveLoop} {i : ℕ}
    {result : Except ErrorCode (List UInt8)} (h : s.complete i result = .ok s') :
    Received s i result s' := by
  rw [complete] at h
  split at h
  · next opening hfound =>
      obtain ⟨pre, post, hsplit, rfl⟩ := exists_split hfound
      have hset : ∀ r, s.receives.set pre.length r = pre ++ r :: post := fun r => by
        rw [hsplit, set_split]
      cases result with
      | ok d =>
          obtain rfl := Except.ok.inj h
          exact ⟨⟨_, _, _, hsplit, rfl, rfl, hset _⟩, rfl, rfl, rfl⟩
      | error ec =>
          obtain rfl := Except.ok.inj h
          exact ⟨⟨_, _, _, hsplit, rfl, rfl, hset _⟩, rfl, rfl, rfl⟩
  · exact nomatch h

theorem rearm_eq (s : ReceiveLoop) : s.rearm = { s with
    receives := s.receives ++ if s.isOpen then [{ opening := s.opening }] else [] } := by
  rw [rearm]
  split
  · next h => rw [listen, if_pos h]
  · rw [List.append_nil]

theorem handle_cases {α : Type}
    {process : Assembly → List UInt8 → Except Fault (Assembly × UdpEffect α)}
    {s s' : ReceiveLoop} {i : ℕ} {o : LoopOutput α} (h : s.handle process i = .ok (s', o)) :
    Failed s i s' o ∨ Turn process s i s' o := by
  rw [handle] at h
  split at h
  · next opening result hfound =>
      obtain ⟨pre, post, hsplit, rfl⟩ := exists_split hfound
      have herase : s.receives.eraseIdx pre.length = pre ++ post := by
        rw [hsplit, eraseIdx_split]
      cases result with
      | error ec =>
          obtain ⟨rfl, rfl⟩ := Prod.mk.inj (Except.ok.inj h)
          exact .inl ⟨⟨_, _, _, ec, hsplit, rfl, rfl, herase, rfl⟩, rfl, rfl, rfl⟩
      | ok n =>
          simp only [rearm_eq] at h
          split at h
          · next hpos =>
              split at h
              · exact nomatch h
              · next assembly effect hprocess =>
                  obtain ⟨rfl, rfl⟩ := Prod.mk.inj (Except.ok.inj h)
                  refine .inr ⟨⟨_, _, _, n, hsplit, rfl, rfl, ?_, effect, rfl, ?_⟩,
                    rfl, rfl, rfl⟩
                  · rw [herase]
                  · rw [if_pos hpos]
                    exact hprocess
          · next hzero =>
              obtain ⟨rfl, rfl⟩ := Prod.mk.inj (Except.ok.inj h)
              refine .inr ⟨⟨_, _, _, n, hsplit, rfl, rfl, ?_, .idle, rfl, ?_⟩, rfl, rfl, rfl⟩
              · rw [herase]
              · rw [if_neg hzero]
                exact ⟨rfl, rfl⟩
  · exact nomatch h

theorem step_cases {α : Type}
    {start : ReceiveLoop → List UInt8 → UInt16 → Except LoopStop ReceiveLoop}
    {process : Assembly → List UInt8 → Except Fault (Assembly × UdpEffect α)}
    {s s' : ReceiveLoop} {event : LoopEvent} {o : LoopOutput α}
    (h : step start process s event = .ok (s', o)) :
    (∃ addr port, event = .opened addr port ∧ start s addr port = .ok s' ∧ o = .quiet) ∨
    (∃ i result, event = .received i result ∧ Received s i result s' ∧ o = .quiet) ∨
    (∃ i, event = .handled i ∧ Failed s i s' o) ∨
    (∃ i, event = .handled i ∧ Turn process s i s' o) ∨
    (event = .closed ∧ s' = s.close ∧ o = .quiet) := by
  cases event with
  | opened addr port =>
      obtain ⟨ht, rfl⟩ := (map_pair_eq_ok_iff _ _ _ _).mp h
      exact .inl ⟨addr, port, rfl, ht, rfl⟩
  | received i result =>
      obtain ⟨ht, rfl⟩ := (map_pair_eq_ok_iff _ _ _ _).mp h
      exact .inr (.inl ⟨i, result, rfl, received_of_complete ht, rfl⟩)
  | handled i =>
      rcases handle_cases h with hfailed | hturn
      · exact .inr (.inr (.inl ⟨i, rfl, hfailed⟩))
      · exact .inr (.inr (.inr (.inl ⟨i, rfl, hturn⟩)))
  | closed =>
      obtain ⟨rfl, rfl⟩ := Prod.mk.inj (Except.ok.inj h)
      exact .inr (.inr (.inr (.inr ⟨rfl, rfl, rfl⟩)))

/-! ## One receive -/

/-- The number of receives of the opening `n`. -/
def countOf (n : ℕ) (rs : List Receive) : ℕ := rs.countP fun r => r.opening = n

/-- While the socket is open there is one receive of this opening, which is pending or waits
for its handler. -/
def OneReceive (s : ReceiveLoop) : Prop :=
  s.isOpen = true → countOf s.opening s.receives = 1

/-- The socket is not opened twice, and while it is open the handlers that run without an error
are those of its own receives. -/
def Rearms (s : ReceiveLoop) : LoopEvent → Prop
  | .opened _ _ => s.isOpen = false
  | .handled i => s.isOpen = true → ∀ r, s.receives[i]? = some r →
      ((∃ n, r.result = some (.ok n)) ↔ r.opening = s.opening)
  | _ => True

/-- No receive is of an opening to come. -/
def Numbered (s : ReceiveLoop) : Prop := ∀ r ∈ s.receives, r.opening ≤ s.opening

theorem countOf_append (n : ℕ) (rs rs' : List Receive) :
    countOf n (rs ++ rs') = countOf n rs + countOf n rs' := List.countP_append

theorem countOf_cons (n : ℕ) (r : Receive) (rs : List Receive) :
    countOf n (r :: rs) = countOf n rs + if r.opening = n then 1 else 0 := by
  rw [countOf, List.countP_cons, countOf]
  simp

theorem countOf_nil (n : ℕ) : countOf n [] = 0 := rfl

theorem rearms_handled_iff {s : ReceiveLoop} {pre post : List Receive} {r : Receive}
    (h : s.receives = pre ++ r :: post) : Rearms s (.handled pre.length) ↔
      (s.isOpen = true → ((∃ n, r.result = some (.ok n)) ↔ r.opening = s.opening)) := by
  simp [Rearms, h]

theorem Numbered.countOf_succ {s : ReceiveLoop} (h : Numbered s) :
    countOf (s.opening + 1) s.receives = 0 := by
  rw [countOf, List.countP_eq_zero]
  intro r hr heq
  have hle := h r hr
  have := of_decide_eq_true heq
  omega

theorem numbered_close {s : ReceiveLoop} (h : Numbered s) : Numbered s.close := by
  rw [close]
  split
  · intro r hr
    obtain ⟨r', hr', rfl⟩ := List.mem_map.mp hr
    exact h r' hr'
  · exact h

theorem isOpen_close (s : ReceiveLoop) : s.close.isOpen = false := by
  rw [close]
  split
  · rfl
  · next h => exact Bool.eq_false_iff.mpr h

section

variable {α : Type}
  {start : ReceiveLoop → List UInt8 → UInt16 → Except LoopStop ReceiveLoop}
  {process : Assembly → List UInt8 → Except Fault (Assembly × UdpEffect α)}
  (hstart : ∀ s addr port s', start s addr port = .ok s' → Starts s s')

include hstart

theorem numbered_of_step {s s' : ReceiveLoop} {event : LoopEvent} {o : LoopOutput α}
    (hs : Numbered s) (h : step start process s event = .ok (s', o)) : Numbered s' := by
  rcases step_cases h with ⟨addr, port, -, hopen, -⟩ | ⟨i, result, -, hreceived, -⟩ |
    ⟨i, -, hfailed⟩ | ⟨i, -, hturn⟩ | ⟨-, rfl, -⟩
  · have hstarts := hstart s addr port s' hopen
    have hle : s.opening ≤ s'.opening := by
      rw [hstarts.opening]
      split <;> omega
    intro r hr
    rw [hstarts.receives, List.mem_append, List.mem_singleton] at hr
    rcases hr with hr | rfl
    · exact (hs r hr).trans hle
    · exact le_refl _
  · obtain ⟨pre, r, post, hsplit, -, -, hreceives⟩ := hreceived.receives
    intro t ht
    rw [hreceives, List.mem_append, List.mem_cons] at ht
    rw [hreceived.opening]
    rw [Numbered, hsplit] at hs
    rcases ht with ht | rfl | ht
    · exact hs t (by simp [ht])
    · exact hs r (by simp)
    · exact hs t (by simp [ht])
  · obtain ⟨pre, r, post, ec, hsplit, -, -, hreceives, -⟩ := hfailed.receives
    intro t ht
    rw [hreceives, List.mem_append] at ht
    rw [hfailed.opening]
    exact hs t (by rw [hsplit]; rcases ht with ht | ht <;> simp [ht])
  · obtain ⟨pre, r, post, n, hsplit, -, -, hreceives, -⟩ := hturn.receives
    intro t ht
    rw [hreceives, List.mem_append, List.mem_append] at ht
    rw [hturn.opening]
    rcases ht with ht | ht
    · exact hs t (by rw [hsplit]; rcases ht with ht | ht <;> simp [ht])
    · split at ht
      · rw [List.mem_singleton] at ht
        rw [ht]
      · exact nomatch ht
  · exact numbered_close hs

/-- One step keeps the one receive exactly when it meets the condition. -/
theorem oneReceive_step_iff {s s' : ReceiveLoop} {event : LoopEvent} {o : LoopOutput α}
    (hs : Numbered s) (hone : OneReceive s) (h : step start process s event = .ok (s', o)) :
    OneReceive s' ↔ Rearms s event := by
  rcases step_cases h with ⟨addr, port, rfl, hopen, -⟩ | ⟨i, result, rfl, hreceived, -⟩ |
    ⟨i, rfl, hfailed⟩ | ⟨i, rfl, hturn⟩ | ⟨rfl, rfl, -⟩
  · have hstarts := hstart s addr port s' hopen
    rw [OneReceive, hstarts.receives, countOf_append, Rearms, hstarts.isOpen]
    rcases hsocket : s.isOpen with _ | _
    · have hzero := hs.countOf_succ
      have hnumber : s'.opening = s.opening + 1 := by
        rw [hstarts.opening, hsocket]
        rfl
      simp [hnumber, hzero, countOf_cons, countOf_nil]
    · have hnumber : s'.opening = s.opening := by
        rw [hstarts.opening, hsocket]
        rfl
      rw [OneReceive, hsocket] at hone
      simp [hnumber, hone, countOf_cons, countOf_nil]
  · obtain ⟨pre, r, post, hsplit, -, -, hreceives⟩ := hreceived.receives
    refine iff_of_true ?_ trivial
    rw [OneReceive, hsplit, countOf_append, countOf_cons] at hone
    rw [OneReceive, hreceived.isOpen, hreceived.opening, hreceives, countOf_append, countOf_cons]
    exact hone
  · obtain ⟨pre, r, post, ec, hsplit, rfl, hec, hreceives, -⟩ := hfailed.receives
    rw [rearms_handled_iff hsplit, OneReceive, hfailed.isOpen, hfailed.opening, hreceives]
    refine forall_congr' fun hsocket => ?_
    have hcount := hone hsocket
    rw [hsplit, countOf_append, countOf_cons] at hcount
    rw [countOf_append, hec]
    -- the count stays one only if the receive was not counted
    by_cases hcurrent : r.opening = s.opening
    · rw [if_pos hcurrent] at hcount
      simp only [hcurrent, iff_true]
      exact iff_of_false (by omega) (by simp)
    · rw [if_neg hcurrent] at hcount
      exact iff_of_true (by omega) (by simp [hcurrent])
  · obtain ⟨pre, r, post, n, hsplit, rfl, hn, hreceives, -⟩ := hturn.receives
    rw [rearms_handled_iff hsplit, OneReceive, hturn.isOpen, hturn.opening, hreceives]
    refine forall_congr' fun hsocket => ?_
    have hcount := hone hsocket
    rw [hsplit, countOf_append, countOf_cons] at hcount
    rw [countOf_append, countOf_append, if_pos hsocket, countOf_cons, countOf_nil, if_pos rfl, hn]
    -- a new receive takes the place of the handled one if that one was counted
    by_cases hcurrent : r.opening = s.opening
    · rw [if_pos hcurrent] at hcount
      exact iff_of_true (by omega) (by simp [hcurrent])
    · rw [if_neg hcurrent] at hcount
      exact iff_of_false (by omega) (by simp [hcurrent])
  · exact iff_of_true (fun hopen => by rw [isOpen_close] at hopen; exact nomatch hopen) trivial

theorem oneReceive_throughout_iff {events : List LoopEvent} {s : ReceiveLoop}
    {os : List (LoopOutput α)} (h : Completes (step start process) {} events s os) :
    Throughout (step start process) {} events OneReceive ↔
      EachStep (step start process) {} events Rearms :=
  throughout_iff_eachStep (fun _ _ _ _ hs hstep => numbered_of_step hstart hs hstep)
    (fun _ _ _ _ hs hone hstep => oneReceive_step_iff hstart hs hone hstep) h nofun nofun

end

end ReceiveLoop

/-! ## The turns of a loop -/

/-- The effect of a handler that got through its datagram. -/
def LoopOutput.effect? {α : Type} : LoopOutput α → Option (UdpEffect α)
  | .quiet => none
  | .failed _ => none
  | .turn effect => some effect

def effectsOf {α : Type} (os : List (LoopOutput α)) : List (UdpEffect α) :=
  os.filterMap LoopOutput.effect?

theorem effectsOf_concat {α : Type} (os : List (LoopOutput α)) (o : LoopOutput α) :
    effectsOf (os ++ [o]) = effectsOf os ++ o.effect?.toList := by
  rw [effectsOf, List.filterMap_append, effectsOf]
  cases o <;> rfl

/-- The datagram that is received, if any. -/
def LoopEvent.datagram? : LoopEvent → Option (List UInt8)
  | .received _ (.ok d) => some d
  | _ => none

/-- The datagrams that have been received. -/
def datagramsOf (events : List LoopEvent) : List (List UInt8) :=
  events.filterMap LoopEvent.datagram?

theorem datagramsOf_concat (events : List LoopEvent) (event : LoopEvent) :
    datagramsOf (events ++ [event]) = datagramsOf events ++ event.datagram?.toList := by
  rw [datagramsOf, List.filterMap_append, datagramsOf]
  cases h : event.datagram? <;> simp [h]

namespace ReceiveLoop

/-- No datagram waits for its handler. -/
def Idle (s : ReceiveLoop) : Prop := ∀ t ∈ s.receives, ∀ n, t.result ≠ some (.ok n)

/-- A loop that has been started once and has received the datagrams `came`, and the turns that
it has made: `r` is the receiver behind the turns, on the datagrams `ds`. A datagram whose
handler has not run is in the buffer. -/
structure Turns {α : Type}
    (process : Assembly → List UInt8 → Except Fault (Assembly × UdpEffect α))
    (s : ReceiveLoop) (came : List (List UInt8)) (os : List (LoopOutput α))
    (ds : List (List UInt8)) (r : UdpReceiver) : Prop where
  length : s.receives.length ≤ 1
  run : Completes (UdpReceiver.receive process) UdpReceiver.start ds r (effectsOf os)
  assembly : s.receiver.assembly = r.assembly
  waiting : ∀ t ∈ s.receives, ∀ n, t.result = some (.ok n) →
    ∃ d : List UInt8, n = min d.length Constants.bufferSize ∧
      s.receiver.buffer = r.buffer.receive d ∧ came = ds ++ [d]
  idle : s.Idle → s.receiver.buffer = r.buffer ∧ came = ds

section

variable {α : Type}
  {process : Assembly → List UInt8 → Except Fault (Assembly × UdpEffect α)}

theorem Turns.only {s : ReceiveLoop} {came ds : List (List UInt8)} {os : List (LoopOutput α)}
    {r : UdpReceiver} (hs : Turns process s came os ds r) {pre post : List Receive} {t : Receive}
    (h : s.receives = pre ++ t :: post) : pre = [] ∧ post = [] := by
  have hlen := hs.length
  rw [h, List.length_append, List.length_cons] at hlen
  exact ⟨List.eq_nil_of_length_eq_zero (by omega), List.eq_nil_of_length_eq_zero (by omega)⟩

theorem Turns.quiet {s : ReceiveLoop} {came ds : List (List UInt8)} {os : List (LoopOutput α)}
    {r : UdpReceiver} (h : Turns process s came os ds r) :
    Turns process s came (os ++ [.quiet]) ds r := by
  refine ⟨h.length, ?_, h.assembly, h.waiting, h.idle⟩
  rw [effectsOf_concat, LoopOutput.effect?, Option.toList_none, List.append_nil]
  exact h.run

theorem Turns.received {s s' : ReceiveLoop} {came ds : List (List UInt8)}
    {os : List (LoopOutput α)} {r : UdpReceiver} {i : ℕ}
    {result : Except ErrorCode (List UInt8)} (hs : Turns process s came os ds r)
    (h : Received s i result s') :
    Turns process s' (came ++ (LoopEvent.received i result).datagram?.toList) os ds r := by
  obtain ⟨pre, t, post, hsplit, -, hnone, hreceives⟩ := h.receives
  obtain ⟨rfl, rfl⟩ := hs.only hsplit
  obtain ⟨hbuffer, rfl⟩ := hs.idle (by simp [Idle, hsplit, hnone])
  constructor
  · rw [hreceives]
    exact le_refl _
  · exact hs.run
  · rw [h.receiver, ← hs.assembly]
    cases result <;> rfl
  · intro t' ht' n hn
    rw [hreceives] at ht'
    obtain rfl := List.mem_singleton.mp ht'
    cases result with
    | error ec => exact absurd hn (by simp [Except.map])
    | ok d =>
        refine ⟨d, ?_, ?_, rfl⟩
        · simpa [Except.map, eq_comm] using hn
        · rw [h.receiver, ← hbuffer]
  · intro hnot
    cases result with
    | error ec => exact ⟨by rw [h.receiver, hbuffer], List.append_nil _⟩
    | ok d => exact absurd rfl (hnot _ (by rw [hreceives]; exact List.mem_singleton_self _) _)

theorem Turns.failed {s s' : ReceiveLoop} {came ds : List (List UInt8)}
    {os : List (LoopOutput α)} {r : UdpReceiver} {i : ℕ} {o : LoopOutput α}
    (hs : Turns process s came os ds r) (h : Failed s i s' o) :
    Turns process s' came (os ++ [o]) ds r := by
  obtain ⟨pre, t, post, ec, hsplit, -, hec, hreceives, rfl⟩ := h.receives
  obtain ⟨rfl, rfl⟩ := hs.only hsplit
  obtain ⟨hbuffer, hcame⟩ := hs.idle (by simp [Idle, hsplit, hec])
  refine ⟨by simp [hreceives], ?_, by rw [h.receiver, hs.assembly], by simp [hreceives],
    fun _ => ⟨by rw [h.receiver, hbuffer], hcame⟩⟩
  rw [effectsOf_concat, LoopOutput.effect?, Option.toList_none, List.append_nil]
  exact hs.run

theorem Turns.turn {s s' : ReceiveLoop} {came ds : List (List UInt8)}
    {os : List (LoopOutput α)} {r : UdpReceiver} {i : ℕ} {o : LoopOutput α}
    (hs : Turns process s came os ds r) (h : Turn process s i s' o) :
    ∃ r', Turns process s' came (os ++ [o]) came r' := by
  obtain ⟨pre, t, post, n, hsplit, -, hn, hreceives, effect, rfl, hprocess⟩ := h.receives
  obtain ⟨rfl, rfl⟩ := hs.only hsplit
  obtain ⟨d, rfl, hbuffer, rfl⟩ := hs.waiting t (by simp [hsplit]) n hn
  have hstep : UdpReceiver.receive process r d =
      .ok ({ buffer := r.buffer.receive d, assembly := s'.receiver.assembly }, effect) := by
    rw [hs.assembly, hbuffer] at hprocess
    rw [UdpReceiver.receive]
    split at hprocess
    · next hpos =>
        rw [if_pos hpos, hprocess]
        rfl
    · next hzero =>
        rw [if_neg hzero, hprocess.1, hprocess.2]
  have hpending : ∀ t ∈ s'.receives, t.result = none := by
    intro t ht
    rw [hreceives, List.nil_append, List.nil_append] at ht
    split at ht
    · rw [List.mem_singleton.mp ht]
    · exact nomatch ht
  refine ⟨{ buffer := r.buffer.receive d, assembly := s'.receiver.assembly }, ?_, ?_, rfl, ?_, ?_⟩
  · rw [hreceives]
    split <;> simp
  · rw [effectsOf_concat]
    exact (completes_concat_iff _ _ _ _ _ _).mpr ⟨r, _, _, hs.run, hstep, rfl⟩
  · intro t ht n hn
    exact absurd ((hpending t ht).symm.trans hn) (by simp)
  · intro _
    rw [h.buffer, hbuffer]
    exact ⟨rfl, rfl⟩

theorem Turns.closed {s : ReceiveLoop} {came ds : List (List UInt8)} {os : List (LoopOutput α)}
    {r : UdpReceiver} (hs : Turns process s came os ds r) :
    Turns process s.close came os ds r := by
  rw [close]
  split
  · -- closing keeps the results of the receives that have completed
    have hsame : ∀ (t : Receive) (n : ℕ),
        t.result.or (some (.error .operationAborted)) = some (.ok n) ↔
          t.result = some (.ok n) := by
      intro t n
      cases t.result <;> simp
    refine ⟨by simpa using hs.length, hs.run, hs.assembly, ?_, fun hnot => hs.idle ?_⟩
    · intro t ht n hn
      obtain ⟨t', ht', rfl⟩ := List.mem_map.mp ht
      exact hs.waiting t' ht' n ((hsame t' n).mp hn)
    · intro t ht n hn
      exact hnot _ (List.mem_map_of_mem ht) n ((hsame t n).mpr hn)
  · exact hs

end

end ReceiveLoop

theorem AsioTcpManager.starts_openUdp {asio : Asio} {s s' : ReceiveLoop} {addr : List UInt8}
    {port : UInt16} (h : AsioTcpManager.openUdp asio s addr port = .ok s') :
    ReceiveLoop.Starts s s' := by
  obtain ⟨t, ht, rfl⟩ := (map_eq_ok_iff _ _ _).mp h
  rw [AsioUdpManager.open] at ht
  split at ht
  · next hopen =>
      obtain rfl := Except.ok.inj ht
      exact ReceiveLoop.starts_listen hopen
  · next hclosed =>
      split at ht
      · split at ht
        · obtain rfl := Except.ok.inj ht
          exact ReceiveLoop.starts_openSocket_listen (Bool.eq_false_iff.mpr hclosed)
        · cases ht
      · cases ht

/-- The client opens its socket if it is closed and can be bound to the endpoint. -/
theorem BoostTcpConnection.firstData_eq_ok_iff (asio : Asio) (s : ReceiveLoop)
    (addr : List UInt8) (port : UInt16) (s' : ReceiveLoop) :
    BoostTcpConnection.firstData asio s addr port = .ok s' ↔
      (s.isOpen = false ∧ asio.Opens addr port) ∧ s.openSocket.listen = s' := by
  rw [BoostTcpConnection.firstData, BoostUdpConnection.open, Asio.Opens]
  cases asio.makeAddress addr <;> cases s.isOpen <;> cases asio.bindUdp addr port <;>
    simp [Except.map]

theorem BoostTcpConnection.starts_firstData {asio : Asio} {s s' : ReceiveLoop}
    {addr : List UInt8} {port : UInt16}
    (h : BoostTcpConnection.firstData asio s addr port = .ok s') : ReceiveLoop.Starts s s' := by
  obtain ⟨⟨hclosed, -⟩, rfl⟩ := (BoostTcpConnection.firstData_eq_ok_iff ..).mp h
  exact ReceiveLoop.starts_openSocket_listen hclosed

/-- For both programs and every run of their loops: there is one receive for the open socket
throughout exactly when every step meets `Rearms`. -/
theorem oneReceive_iff (asio : Asio) (e : Endian) (events : List LoopEvent) :
    (∀ s os, Completes (AsioUdpManager.loop asio e) {} events s os →
      (Throughout (AsioUdpManager.loop asio e) {} events ReceiveLoop.OneReceive ↔
        EachStep (AsioUdpManager.loop asio e) {} events ReceiveLoop.Rearms)) ∧
    ∀ s os, Completes (BoostUdpConnection.loop asio e) {} events s os →
      (Throughout (BoostUdpConnection.loop asio e) {} events ReceiveLoop.OneReceive ↔
        EachStep (BoostUdpConnection.loop asio e) {} events ReceiveLoop.Rearms) := by
  constructor
  · intro s os h
    exact ReceiveLoop.oneReceive_throughout_iff
      (fun _ _ _ _ hs => AsioTcpManager.starts_openUdp hs) h
  · intro s os h
    exact ReceiveLoop.oneReceive_throughout_iff
      (fun _ _ _ _ hs => BoostTcpConnection.starts_firstData hs) h

/-- The loop is started, and its receive fails. -/
def failedOnce : List LoopEvent :=
  [.opened localhost Constants.serverPort, .received 0 (.error (.other 12)), .handled 0]

theorem completes_failedOnce :
    (∃ s : ReceiveLoop, Completes (AsioUdpManager.loop .loopback .little) {} failedOnce s
      [.quiet, .quiet, .failed (.other 12)] ∧ s.isOpen = true ∧ s.receives = []) ∧
    ∃ s : ReceiveLoop, Completes (BoostUdpConnection.loop .loopback .little) {} failedOnce s
      [.quiet, .quiet, .failed (.other 12)] ∧ s.isOpen = true ∧ s.receives = [] :=
  ⟨⟨_, rfl, rfl, rfl⟩, ⟨_, rfl, rfl, rfl⟩⟩

/-- The socket is open, and no receive is left. -/
theorem oneReceive_fails :
    ¬ Throughout (AsioUdpManager.loop .loopback .little) {} failedOnce ReceiveLoop.OneReceive ∧
      ¬ Throughout (BoostUdpConnection.loop .loopback .little) {} failedOnce
        ReceiveLoop.OneReceive := by
  obtain ⟨⟨s, h, hopen, hnone⟩, ⟨s', h', hopen', hnone'⟩⟩ := completes_failedOnce
  constructor
  · intro hone
    have hcount := hone failedOnce [] rfl s _ h hopen
    rw [hnone] at hcount
    exact nomatch hcount
  · intro hone
    have hcount := hone failedOnce [] rfl s' _ h' hopen'
    rw [hnone'] at hcount
    exact nomatch hcount

theorem oneReceive_iff_failedOnce :
    Throughout (AsioUdpManager.loop .loopback .little) {} failedOnce ReceiveLoop.OneReceive ↔
      EachStep (AsioUdpManager.loop .loopback .little) {} failedOnce ReceiveLoop.Rearms := by
  obtain ⟨⟨s, h, -⟩, -⟩ := completes_failedOnce
  exact (oneReceive_iff .loopback .little failedOnce).1 s _ h

end P2PWatcher
