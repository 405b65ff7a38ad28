import P2PWatcher.Network.MainClient

/-!
# What a client can do

No handler of the connection changes the host, and each leaves the UDP socket alone, or
opens or closes it, unless a datagram comes (`Client.keeps_of_step`). `MainClient.Steps` lists
the steps of the window, each with what the connection does in it. What is proved about
clients on the network goes through these two.
-/

namespace P2PWatcher

open Memory Machine Sequence

/-- What a handler of the connection may do to the UDP socket, without receiving. -/
inductive UdpChange (s : ReceiveLoop) : ReceiveLoop → Prop
  | same : UdpChange s s
  | closed : UdpChange s s.close
  | started {s' : ReceiveLoop} (h : ReceiveLoop.Starts s s') : UdpChange s s'

namespace Client

/-! ## The connection -/

/-- What every handler keeps. -/
structure Keeps (s s' : Client) : Prop where
  serverAddr : s'.serverAddr = s.serverAddr
  udp : UdpChange s.udp s'.udp

@[simp] theorem closeSocket_serverAddr (s : Client) :
    s.closeSocket.serverAddr = s.serverAddr := by
  rw [closeSocket]
  split <;> rfl

@[simp] theorem asyncWrite_serverAddr (e : Endian) (s : Client) (dataType : UInt16)
    (buffer : List UInt8) : (s.asyncWrite e dataType buffer).serverAddr = s.serverAddr := by
  rw [asyncWrite]
  split <;> rfl

theorem keeps_doDisconnect (s : Client) : Keeps s s.doDisconnect := by
  refine ⟨s.closeSocket_serverAddr, ?_⟩
  rw [doDisconnect, closeSocket_udp]
  exact .closed

theorem keeps_attempt (s : Client) (rest : ℕ) : Keeps s (s.attempt rest) := by
  refine ⟨s.closeSocket_serverAddr, ?_⟩
  rw [attempt_udp]
  exact .same

theorem keeps_connectHandler (s : Client) (rest : ℕ) (ec : Option ErrorCode) :
    Keeps s (s.connectHandler rest ec) := by
  rw [connectHandler.eq_def]
  split
  · cases ec with
    | none => exact ⟨rfl, .same⟩
    | some ec =>
        cases rest with
        | zero => exact s.keeps_doDisconnect
        | succ rest => exact s.keeps_attempt rest
  · exact s.keeps_doDisconnect

theorem keeps_lengthHandler (s : Client) (ec : Option ErrorCode) :
    Keeps s (s.lengthHandler ec) := by
  rw [lengthHandler]
  split <;> exact ⟨rfl, .same⟩

theorem keeps_of_prcsPacket {asio : Asio} {e : Endian} {s s' : Client} {effect : TcpEffect}
    (h : s.prcsPacket asio e = .ok (s', effect)) : Keeps s s' := by
  rw [prcsPacket] at h
  split at h
  · cases h
  · split at h
    · cases h
    · next hudp =>
        obtain ⟨rfl, -⟩ := Prod.mk.inj (Except.ok.inj h)
        exact ⟨rfl, .started (BoostTcpConnection.starts_firstData hudp)⟩
  · obtain ⟨rfl, -⟩ := Prod.mk.inj (Except.ok.inj h)
    exact ⟨rfl, .same⟩

theorem keeps_of_bodyHandler {asio : Asio} {e : Endian} {s s' : Client} {ec : Option ErrorCode}
    {o : Option TcpEffect} (h : s.bodyHandler asio e ec = .ok (s', o)) : Keeps s s' := by
  rw [bodyHandler] at h
  split at h
  · obtain ⟨rfl, -⟩ := Prod.mk.inj (Except.ok.inj h)
    exact ⟨rfl, .same⟩
  · obtain ⟨⟨t, effect⟩, hpacket, heq⟩ := (map_eq_ok_iff _ _ _).mp h
    obtain ⟨rfl, -⟩ := Prod.mk.inj heq
    have hkeeps := keeps_of_prcsPacket hpacket
    exact ⟨hkeeps.serverAddr, hkeeps.udp⟩

theorem keeps_writeHandler (s : Client) (ec : Option ErrorCode) : Keeps s (s.writeHandler ec) := by
  rw [writeHandler]
  split
  · exact s.keeps_doDisconnect
  · exact ⟨rfl, .same⟩

theorem keeps_of_handler {asio : Asio} {e : Endian} {s s' : Client} {ec : Option ErrorCode}
    {kind : OpKind} {o : Option TcpEffect} (h : s.handler asio e ec kind = .ok (s', o)) :
    Keeps s s' := by
  cases kind with
  | connect rest =>
      obtain ⟨rfl, -⟩ := Prod.mk.inj (Except.ok.inj h)
      exact s.keeps_connectHandler rest ec
  | length =>
      obtain ⟨rfl, -⟩ := Prod.mk.inj (Except.ok.inj h)
      exact s.keeps_lengthHandler ec
  | body n => exact keeps_of_bodyHandler h
  | write =>
      obtain ⟨rfl, -⟩ := Prod.mk.inj (Except.ok.inj h)
      exact s.keeps_writeHandler ec

/-- What happens to the sockets, without a call. -/
theorem keeps_of_step {asio : Asio} {e : Endian} {s s' : Client} {event : ClientEvent}
    {o : Option TcpEffect} (hevent : event.IsCall = false) (h : s.step asio e event = .ok (s', o)) :
    Keeps s s' ∨ s'.serverAddr = s.serverAddr ∧
      ∃ i result, event = .datagram i result ∧ ReceiveLoop.Received s.udp i result s'.udp := by
  cases event with
  | doConnect | doDisconnect | asyncWrite | datagramHandled => cases hevent
  | resolved i result =>
      obtain ⟨ht, -⟩ := (map_pair_eq_ok_iff _ _ _ _).mp h
      obtain ⟨resolves, ⟨ec, -, rfl⟩ | ⟨rest, -, rfl⟩⟩ := resolved_cases ht
      · have hkeeps := keeps_doDisconnect { s with resolves }
        exact .inl ⟨hkeeps.serverAddr, hkeeps.udp⟩
      · have hkeeps := keeps_attempt { s with resolves } rest
        exact .inl ⟨hkeeps.serverAddr, hkeeps.udp⟩
  | arrived i data =>
      obtain ⟨ht, -⟩ := (map_pair_eq_ok_iff _ _ _ _).mp h
      rw [arrive_eq ht]
      exact .inl ⟨rfl, .same⟩
  | completed i c =>
      obtain ⟨ht, -⟩ := (map_pair_eq_ok_iff _ _ _ _).mp h
      obtain ⟨pre, op, post, -, -, -, heq⟩ := complete_cases ht
      rw [heq]
      exact .inl ⟨rfl, .same⟩
  | handled i =>
      obtain ⟨pre, op, post, ec, -, -, -, hhandler⟩ := handle_cases h
      have hkeeps := keeps_of_handler hhandler
      exact .inl ⟨hkeeps.serverAddr, hkeeps.udp⟩
  | datagram i result =>
      obtain ⟨ht, -⟩ := (map_pair_eq_ok_iff _ _ _ _).mp h
      rw [udpStep] at ht
      split at ht
      · cases ht
      · next udp o' hloop =>
          obtain rfl := Except.ok.inj ht
          obtain ⟨hcomplete, -⟩ := (map_pair_eq_ok_iff _ _ _ _).mp hloop
          exact .inr ⟨rfl, i, result, rfl, ReceiveLoop.received_of_complete hcomplete⟩

end Client

namespace MainClient

/-! ## The window -/

/-- The UDP socket after a step of its loop. -/
def withUdp (s : MainClient) (udp : ReceiveLoop) : MainClient :=
  { s with conn := { s.conn with udp } }

/-- The steps of the client program. -/
inductive Steps (asio : Asio) (e : Endian) (s : MainClient) :
    MainClientEvent → MainClient → MainClientOutput → Prop
  | slotConnect (host : List UInt8) : Steps asio e s (.slotConnect host) (s.slotConnect host) .quiet
  | slotDisconnect : Steps asio e s .slotDisconnect s.slotDisconnect .quiet
  | slotSend {screenshot : Option CGImage} {s' : MainClient}
      {sent : List (ClientInfo × List UInt8)} (h : s.slotSend asio e screenshot = .ok (s', sent)) :
      Steps asio e s (.slotSend screenshot) s' (.sent sent)
  | conn {event : ClientEvent} {conn : Client} {effect : Option TcpEffect}
      (hcall : event.IsCall = false) (h : s.conn.step asio e event = .ok (conn, effect)) :
      Steps asio e s (.conn event) { s with conn } (.tcp effect)
  | datagram {i : ℕ} {udp : ReceiveLoop} {o : LoopOutput (List UInt8)} (canCapture : Bool)
      (h : BoostUdpConnection.loop asio e s.conn.udp (.handled i) = .ok (udp, o))
      (ho : ∀ buf, o ≠ .turn (.image buf)) :
      Steps asio e s (.datagramHandled i canCapture) (s.withUdp udp) (.udp o)
  | shown {i : ℕ} {udp : ReceiveLoop} {buf : List UInt8}
      (h : BoostUdpConnection.loop asio e s.conn.udp (.handled i) =
        .ok (udp, .turn (.image buf))) :
      Steps asio e s (.datagramHandled i true) (s.withUdp udp) (.shown buf (showImage buf))
  | ended {i : ℕ} {udp : ReceiveLoop} {buf : List UInt8}
      (h : BoostUdpConnection.loop asio e s.conn.udp (.handled i) =
        .ok (udp, .turn (.image buf))) :
      Steps asio e s (.datagramHandled i false) { s.withUdp udp with isRunning := false } .ended

theorem steps_of_datagramHandler {asio : Asio} {e : Endian} {s s' : MainClient} {i : ℕ}
    {canCapture : Bool} {o : MainClientOutput}
    (h : s.datagramHandler asio e i canCapture = .ok (s', o)) :
    Steps asio e s (.datagramHandled i canCapture) s' o := by
  rw [datagramHandler] at h
  split at h
  · cases h
  · next udp buf hloop =>
      cases canCapture with
      | true =>
          rw [if_pos rfl] at h
          obtain ⟨rfl, rfl⟩ := Prod.mk.inj (Except.ok.inj h)
          exact .shown hloop
      | false =>
          rw [if_neg Bool.false_ne_true] at h
          obtain ⟨rfl, rfl⟩ := Prod.mk.inj (Except.ok.inj h)
          exact .ended hloop
  · next udp o' hnot hloop =>
      obtain ⟨rfl, rfl⟩ := Prod.mk.inj (Except.ok.inj h)
      exact .datagram canCapture hloop hnot

theorem steps_of_step {asio : Asio} {e : Endian} {s s' : MainClient} {event : MainClientEvent}
    {o : MainClientOutput} (h : s.step asio e event = .ok (s', o)) :
    s.isRunning = true ∧ Steps asio e s event s' o := by
  rw [step.eq_def] at h
  split at h
  · next hrunning =>
      refine ⟨hrunning, ?_⟩
      cases event with
      | slotConnect host =>
          obtain ⟨rfl, rfl⟩ := Prod.mk.inj (Except.ok.inj h)
          exact .slotConnect host
      | slotDisconnect =>
          obtain ⟨rfl, rfl⟩ := Prod.mk.inj (Except.ok.inj h)
          exact .slotDisconnect
      | slotSend screenshot =>
          simp only at h
          split at h
          · cases h
          · next t sent hsend =>
              obtain ⟨rfl, rfl⟩ := Prod.mk.inj (Except.ok.inj h)
              exact .slotSend hsend
      | conn event =>
          simp only at h
          split at h
          · cases h
          · next hcall =>
              split at h
              · cases h
              · next conn effect hstep =>
                  obtain ⟨rfl, rfl⟩ := Prod.mk.inj (Except.ok.inj h)
                  exact .conn (Bool.eq_false_iff.mpr hcall) hstep
      | datagramHandled i canCapture => exact steps_of_datagramHandler h
  · cases h

end MainClient

end P2PWatcher
