import P2PWatcher.Manager.Process
import P2PWatcher.Udp.Fragment

/-!
# What the server process can do

`Steps` lists the steps of the process, each with what the parts do in it. Everything that is
proved about the process goes through this list (`steps_of_step`).
-/

namespace P2PWatcher

open Memory Machine Sequence

/-! ## The operations -/

theorem completeWaiting_cases {ws ws' : List Waiting} {i : ℕ} {ec : Option ErrorCode}
    (h : completeWaiting ws i ec = .ok ws') :
    ∃ pre post, ws = pre ++ none :: post ∧ pre.length = i ∧ ws' = pre ++ some ec :: post := by
  rw [completeWaiting] at h
  split at h
  · next hfound =>
      obtain ⟨pre, post, rfl, rfl⟩ := exists_split hfound
      rw [set_split] at h
      exact ⟨pre, post, rfl, rfl, (Except.ok.inj h).symm⟩
  · exact nomatch h

/-! ## Sending -/

/-- A call of `broadCast` in the state `s`. While the socket is open, everybody in the map is
sent the same datagrams. -/
structure BroadCast.Sends (e : Endian) (s : Manager) (b : BroadCast) : Prop where
  isOpen : b.isOpen = s.udp.isOpen
  walk : b.walk.Perm s.server.udpCl.entries
  sent : b.sent = if b.isOpen then
    b.walk.map fun x => (x.2, fragments e b.dataType (counted b.buf)) else []

/-- Every id is met once. -/
theorem BroadCast.Sends.nodupKeys {e : Endian} {s : Manager} {b : BroadCast}
    (h : b.Sends e s) : b.walk.NodupKeys :=
  (List.perm_nodupKeys h.walk).mpr s.server.udpCl.nodupKeys

theorem AsioUdpManager.sent_of_broadCast {asio : Asio} {e : Endian} {isOpen : Bool}
    {cl : List (UInt32 × ClientInfo)} {dataType : UInt16} {buf : List UInt8}
    {sent : List (ClientInfo × List (List UInt8))}
    (h : AsioUdpManager.broadCast asio e isOpen cl dataType buf = .ok sent) :
    sent = if isOpen then cl.map fun x => (x.2, fragments e dataType (counted buf)) else [] := by
  cases isOpen with
  | false => exact (Except.ok.inj h).symm
  | true => exact ((AsioUdpManager.broadCast_eq_ok_iff ..).mp h).2.symm

theorem sends_of_broadCast {asio : Asio} {e : Endian} {s : Manager} {walk : Walk}
    {dataType : UInt16} {buf : List UInt8} {b : BroadCast}
    (h : s.broadCast asio e walk dataType buf = .ok b) :
    b.Sends e s ∧ b.walk = walk ∧ b.dataType = dataType ∧ b.buf = buf := by
  rw [Manager.broadCast] at h
  split at h
  · next hperm =>
      split at h
      · exact nomatch h
      · next sent hsent =>
          obtain rfl := Except.ok.inj h
          refine ⟨⟨rfl, hperm, ?_⟩, rfl, rfl, rfl⟩
          rw [AsioUdpManager.sent_of_broadCast hsent, List.map_map]
          rfl
  · exact nomatch h

namespace Manager

/-! ## The steps -/

/-- A step with its event, the next state and the output. -/
inductive Steps (asio : Asio) (e : Endian) (s : Manager) :
    ManagerEvent → Manager → ManagerOutput → Prop
  | acceptCompleted {pre post : List Waiting} (ec : Option ErrorCode)
      (h : s.acceptor.accepts = pre ++ none :: post) :
      Steps asio e s (.acceptCompleted pre.length ec)
        { s with acceptor := { s.acceptor with accepts := pre ++ some ec :: post } } .quiet
  | acceptHandled {pre post : List Waiting} {ec : Option ErrorCode}
      (remote : Except ErrorCode ClientInfo)
      (h : s.acceptor.accepts = pre ++ some ec :: post) :
      Steps asio e s (.acceptHandled pre.length remote)
        ({ s with
          acceptor := { s.acceptor with accepts := pre ++ post }
          server := (s.server.accept e ec remote).1 } : Manager).listen
        (.server (s.server.accept e ec remote).2 none)
  | read {ref : ℕ} {c : Completion} {server : Server} {o : ServerOutput}
      (h : s.server.read e ref c = .ok (server, o)) :
      Steps asio e s (.read ref c) { s with server } (.server o (s.removed? o))
  | received {i : ℕ} {result : Except ErrorCode (List UInt8)} {udp : ReceiveLoop}
      {o : LoopOutput (UInt16 × List UInt8)}
      (h : AsioUdpManager.loop asio e s.udp (.received i result) = .ok (udp, o)) :
      Steps asio e s (.received i result) { s with udp } .quiet
  | datagram {i : ℕ} {udp : ReceiveLoop} {o : LoopOutput (UInt16 × List UInt8)} (walk : Walk)
      (h : AsioUdpManager.loop asio e s.udp (.handled i) = .ok (udp, o))
      (ho : ∀ handed, o ≠ .turn (.image handed)) :
      Steps asio e s (.datagramHandled i walk) { s with udp } (.udp o)
  | relayed {i : ℕ} {udp : ReceiveLoop} {b : BroadCast}
      (h : AsioUdpManager.loop asio e s.udp (.handled i) =
        .ok (udp, .turn (.image (b.dataType, b.buf)))) (hb : b.Sends e s) :
      Steps asio e s (.datagramHandled i b.walk) { s with udp } (.relayed b)
  | expired {pre post : List Waiting} (h : s.timer = pre ++ none :: post) :
      Steps asio e s (.expired pre.length) { s with timer := pre ++ some none :: post } .quiet
  | ticked {pre post : List Waiting} {b : BroadCast} (time : Int64)
      (h : s.timer = pre ++ some none :: post) (hb : b.Sends e s)
      (hbuf : b.buf = ({ message := timeText time } : UdpData.TestMessage).serialize e)
      (htype : b.dataType = UdpData.DataTypes.testMessage) :
      Steps asio e s (.timerHandled pre.length time b.walk)
        ({ s with timer := pre ++ post } : Manager).startTest (.ticked b)
  | timerError {pre post : List Waiting} {ec : ErrorCode} (time : Int64) (walk : Walk)
      (h : s.timer = pre ++ some (some ec) :: post) :
      Steps asio e s (.timerHandled pre.length time walk) { s with timer := pre ++ post }
        (.timerError ec)
  | close : Steps asio e s .close s.close .quiet

theorem steps_of_acceptHandler {asio : Asio} {e : Endian} {s s' : Manager} {i : ℕ}
    {remote : Except ErrorCode ClientInfo} {o : ManagerOutput}
    (h : s.acceptHandler e i remote = .ok (s', o)) :
    Steps asio e s (.acceptHandled i remote) s' o := by
  rw [acceptHandler] at h
  split at h
  · next ec hfound =>
      obtain ⟨pre, post, hsplit, rfl⟩ := exists_split hfound
      obtain ⟨rfl, rfl⟩ := Prod.mk.inj (Except.ok.inj h)
      rw [hsplit, eraseIdx_split]
      exact .acceptHandled remote hsplit
  · exact nomatch h

theorem steps_of_datagramHandler {asio : Asio} {e : Endian} {s s' : Manager} {i : ℕ}
    {walk : Walk} {o : ManagerOutput} (h : s.datagramHandler asio e i walk = .ok (s', o)) :
    Steps asio e s (.datagramHandled i walk) s' o := by
  rw [datagramHandler] at h
  split at h
  · exact nomatch h
  · next udp handed hloop =>
      obtain ⟨b, hb, heq⟩ := (map_eq_ok_iff _ _ _).mp h
      obtain ⟨rfl, rfl⟩ := Prod.mk.inj heq
      obtain ⟨hsends, rfl, htype, hbuf⟩ := sends_of_broadCast hb
      refine .relayed ?_ hsends
      rw [htype, hbuf]
      exact hloop
  · next udp o' hnot hloop =>
      obtain ⟨rfl, rfl⟩ := Prod.mk.inj (Except.ok.inj h)
      exact .datagram walk hloop fun handed heq => hnot handed heq

theorem steps_of_timerHandler {asio : Asio} {e : Endian} {s s' : Manager} {i : ℕ}
    {time : Int64} {walk : Walk} {o : ManagerOutput}
    (h : s.timerHandler asio e i time walk = .ok (s', o)) :
    Steps asio e s (.timerHandled i time walk) s' o := by
  rw [timerHandler] at h
  split at h
  · next hfound =>
      obtain ⟨pre, post, hsplit, rfl⟩ := exists_split hfound
      obtain ⟨b, hb, heq⟩ := (map_eq_ok_iff _ _ _).mp h
      obtain ⟨rfl, rfl⟩ := Prod.mk.inj heq
      obtain ⟨hsends, rfl, htype, hbuf⟩ := sends_of_broadCast hb
      rw [hsplit, eraseIdx_split]
      exact .ticked time hsplit hsends hbuf htype
  · next ec hfound =>
      obtain ⟨pre, post, hsplit, rfl⟩ := exists_split hfound
      obtain ⟨rfl, rfl⟩ := Prod.mk.inj (Except.ok.inj h)
      rw [hsplit, eraseIdx_split]
      exact .timerError time walk hsplit
  · exact nomatch h

/-- There are no other steps. -/
theorem steps_of_step {asio : Asio} {e : Endian} {s s' : Manager} {event : ManagerEvent}
    {o : ManagerOutput} (h : s.step asio e event = .ok (s', o)) : Steps asio e s event s' o := by
  cases event with
  | acceptCompleted i ec =>
      obtain ⟨accepts, hcomplete, heq⟩ := (map_eq_ok_iff _ _ _).mp h
      obtain ⟨rfl, rfl⟩ := Prod.mk.inj heq
      obtain ⟨pre, post, hsplit, rfl, rfl⟩ := completeWaiting_cases hcomplete
      exact .acceptCompleted ec hsplit
  | acceptHandled i remote => exact steps_of_acceptHandler h
  | read ref c =>
      rw [step, readHandler] at h
      split at h
      · exact nomatch h
      · next server o' hread =>
          obtain ⟨rfl, rfl⟩ := Prod.mk.inj (Except.ok.inj h)
          exact .read hread
  | received i result =>
      rw [step] at h
      split at h
      · exact nomatch h
      · next udp o' hloop =>
          obtain ⟨rfl, rfl⟩ := Prod.mk.inj (Except.ok.inj h)
          exact .received hloop
  | datagramHandled i walk => exact steps_of_datagramHandler h
  | expired i =>
      obtain ⟨timer, hcomplete, heq⟩ := (map_eq_ok_iff _ _ _).mp h
      obtain ⟨rfl, rfl⟩ := Prod.mk.inj heq
      obtain ⟨pre, post, hsplit, rfl, rfl⟩ := completeWaiting_cases hcomplete
      exact .expired hsplit
  | timerHandled i time walk => exact steps_of_timerHandler h
  | close =>
      obtain ⟨rfl, rfl⟩ := Prod.mk.inj (Except.ok.inj h)
      exact .close

end Manager

end P2PWatcher
