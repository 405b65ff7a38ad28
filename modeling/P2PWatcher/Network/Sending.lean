import P2PWatcher.Network.Steps
import P2PWatcher.Udp.Image

/-!
# What a client sends

`slotSend` sends the message and then the screenshot, if there is one, and with the first null
pointer the client is done. The datagrams go to the host that the user named last, although
the connection to it may not have come up, and the UDP socket may have been opened for an
earlier one (`sent_to_lastHost`). A host that is named and not given as an address is
resolved for the connection, but `make_address` throws at it.
-/

namespace P2PWatcher

open Memory Machine

namespace MainClient

variable {asio : Asio} {e : Endian}

def hostAfter (host : List UInt8) : MainClientEvent → List UInt8
  | .slotConnect host' => host'
  | _ => host

/-- The host that the user has named last. -/
def lastHost (events : List MainClientEvent) : List UInt8 := events.foldl hostAfter []

/-- What `slotSend` hands to the UDP socket, if that is open. -/
def packetsFor (e : Endian) (screenshot : Option CGImage) : List (List UInt8) :=
  fragments e UdpData.DataTypes.testMessage (testMessage.serialize e) ++
    screenshot.elim [] fun cgImage =>
      fragments e UdpData.DataTypes.image (counted (imageToBytes cgImage))

theorem slotSend_eq {s s' : MainClient} {screenshot : Option CGImage}
    {sent : List (ClientInfo × List UInt8)} (h : s.slotSend asio e screenshot = .ok (s', sent)) :
    s'.conn = s.conn.asyncWrite e TcpData.DataTypes.testStruct (struct.serilize e) ∧
      s'.isRunning = (s.isRunning && screenshot.isSome) ∧
      sent = if s.conn.udp.isOpen then (packetsFor e screenshot).map fun d =>
        ({ addr := s.conn.serverAddr, port := Constants.serverPort }, d) else [] := by
  have hcounted : counted (testMessage.serialize e) = testMessage.serialize e :=
    counted_of_lt _ (by rw [UdpData.TestMessage.serialize_length]; decide)
  obtain ⟨message, hmessage, h⟩ := (bind_eq_ok_iff _ _ _).mp h
  have hfirst := BoostUdpConnection.sent_of_sendData hmessage
  rw [hcounted, Client.asyncWrite_udp, Client.asyncWrite_serverAddr] at hfirst
  cases screenshot with
  | none =>
      obtain ⟨rfl, rfl⟩ := Prod.mk.inj (Except.ok.inj h)
      refine ⟨rfl, (Bool.and_false _).symm, ?_⟩
      rw [hfirst, packetsFor, Option.elim_none, List.append_nil]
  | some cgImage =>
      obtain ⟨image, himage, h⟩ := (bind_eq_ok_iff _ _ _).mp h
      obtain ⟨rfl, rfl⟩ := Prod.mk.inj (Except.ok.inj h)
      have hsecond := BoostUdpConnection.sent_of_sendData himage
      rw [Client.asyncWrite_udp, Client.asyncWrite_serverAddr] at hsecond
      refine ⟨rfl, (Bool.and_true _).symm, ?_⟩
      rw [hfirst, hsecond, packetsFor, Option.elim_some, List.map_append]
      split <;> rfl

/-- Only a `slotConnect` changes the host. -/
theorem serverAddr_of_step {s s' : MainClient} {event : MainClientEvent} {o : MainClientOutput}
    (h : s.step asio e event = .ok (s', o)) :
    s'.conn.serverAddr = hostAfter s.conn.serverAddr event := by
  cases (steps_of_step h).2 with
  | slotConnect host => rfl
  | slotDisconnect => exact s.conn.keeps_doDisconnect.serverAddr
  | slotSend hsend =>
      rw [(slotSend_eq hsend).1, Client.asyncWrite_serverAddr]
      rfl
  | conn hcall hstep =>
      rcases Client.keeps_of_step hcall hstep with hkeeps | ⟨hsame, -⟩
      · exact hkeeps.serverAddr
      · exact hsame
  | datagram | shown | ended => rfl

theorem serverAddr_of_completes {events : List MainClientEvent} {s : MainClient}
    {os : List MainClientOutput} (h : Completes (step asio e) {} events s os) :
    s.conn.serverAddr = lastHost events := by
  refine history_of_completes (P := fun events (s : MainClient) _ =>
    s.conn.serverAddr = lastHost events) rfl ?_ h
  intro events s os event s' o _ hs hstep
  rw [serverAddr_of_step hstep, hs, lastHost, lastHost, List.foldl_concat]

/-- `slotSend` throws at the address before anything is sent. -/
theorem slotSend_eq_badAddress_iff (asio : Asio) (e : Endian) (s : MainClient)
    (screenshot : Option CGImage) : s.slotSend asio e screenshot = .error .badAddress ↔
      s.conn.udp.isOpen = true ∧ asio.makeAddress s.conn.serverAddr = false := by
  have hsend := fun dataType buf => BoostUdpConnection.sendData_eq_badAddress_iff asio e
    s.conn.udp.isOpen s.conn.serverAddr dataType buf
  have hmessage := hsend UdpData.DataTypes.testMessage (testMessage.serialize e)
  simp only [slotSend, BoostTcpConnection.sendUdpData, Client.asyncWrite_udp,
    Client.asyncWrite_serverAddr, bind, Except.bind]
  rw [← hmessage]
  cases hfirst : BoostUdpConnection.sendData asio e s.conn.udp.isOpen s.conn.serverAddr
      UdpData.DataTypes.testMessage (testMessage.serialize e) with
  | error why => simp
  | ok message =>
      rw [hfirst] at hmessage
      cases screenshot with
      | none => simp
      | some cgImage =>
          have himage := hsend UdpData.DataTypes.image (imageToBytes cgImage)
          rw [← hmessage] at himage
          cases hsecond : BoostUdpConnection.sendData asio e s.conn.udp.isOpen s.conn.serverAddr
              UdpData.DataTypes.image (imageToBytes cgImage) with
          | error why =>
              rw [hsecond] at himage
              simpa [hsecond] using himage
          | ok image => simp [hsecond]

theorem exists_slotSend (asio : Asio) (e : Endian) (s : MainClient)
    {screenshot : Option CGImage}
    (haddr : s.conn.udp.isOpen = true → asio.makeAddress s.conn.serverAddr = true)
    (hshort : ∀ cgImage ∈ screenshot, (imageToBytes cgImage).length < 2 ^ 31) :
    ∃ s' sent, s.slotSend asio e screenshot = .ok (s', sent) := by
  have hsend : ∀ dataType (buf : List UInt8), buf.length < 2 ^ 31 → ∃ sent,
      BoostUdpConnection.sendData asio e s.conn.udp.isOpen s.conn.serverAddr dataType buf =
        .ok sent := by
    intro dataType buf hlt
    cases hopen : s.conn.udp.isOpen with
    | false => exact ⟨[], rfl⟩
    | true => exact ⟨_, BoostUdpConnection.sendData_of_lt e (haddr hopen) dataType buf hlt⟩
  obtain ⟨message, hmessage⟩ := hsend UdpData.DataTypes.testMessage (testMessage.serialize e)
    (by rw [UdpData.TestMessage.serialize_length]; decide)
  simp only [slotSend, BoostTcpConnection.sendUdpData, Client.asyncWrite_udp,
    Client.asyncWrite_serverAddr, hmessage, bind, Except.bind]
  cases screenshot with
  | none => exact ⟨_, _, rfl⟩
  | some cgImage =>
      obtain ⟨image, himage⟩ := hsend UdpData.DataTypes.image _ (hshort cgImage rfl)
      simp only [himage]
      exact ⟨_, _, rfl⟩

/-- In every run of the client: with the UDP socket open, `slotSend` throws at the address of the
host that was named last, if that is none. Otherwise what it sends goes to that host, if the
socket is open, whatever became of the connection to it. It is the message, and all of
the screenshot if there is one; without one the client goes on no more. -/
theorem sent_to_lastHost (asio : Asio) (e : Endian) {events : List MainClientEvent}
    {s : MainClient} {os : List MainClientOutput} (h : Completes (step asio e) {} events s os)
    (hrunning : s.isRunning = true) (screenshot : Option CGImage) :
    (s.step asio e (.slotSend screenshot) = .error (.send .badAddress) ↔
      s.conn.udp.isOpen = true ∧ asio.makeAddress (lastHost events) = false) ∧
    ((s.conn.udp.isOpen = true → asio.makeAddress (lastHost events) = true) →
      (∀ cgImage ∈ screenshot, (imageToBytes cgImage).length < 2 ^ 31) →
        ∃ s' sent, s.step asio e (.slotSend screenshot) = .ok (s', .sent sent)) ∧
    ∀ s' sent, s.step asio e (.slotSend screenshot) = .ok (s', .sent sent) →
      (sent = if s.conn.udp.isOpen then (packetsFor e screenshot).map fun d =>
        ({ addr := lastHost events, port := Constants.serverPort }, d) else []) ∧
      (screenshot = none ↔ ∀ event r, s'.step asio e event ≠ .ok r) := by
  have hhost := serverAddr_of_completes h
  rw [← hhost]
  refine ⟨?_, fun haddr hshort => ?_, fun s' sent hstep => ?_⟩
  · rw [← slotSend_eq_badAddress_iff asio e s screenshot, step.eq_def, if_pos hrunning]
    simp only
    cases s.slotSend asio e screenshot with
    | error why => simp
    | ok r => simp
  · obtain ⟨s', sent, hsend⟩ := exists_slotSend asio e s haddr hshort
    refine ⟨s', sent, ?_⟩
    rw [step.eq_def, if_pos hrunning]
    simp only [hsend]
  · cases (steps_of_step hstep).2 with
    | slotSend hsend =>
        obtain ⟨-, hgoes, hsent⟩ := slotSend_eq hsend
        rw [hrunning, Bool.true_and] at hgoes
        refine ⟨hsent, ?_⟩
        cases screenshot with
        | none =>
            refine iff_of_true rfl fun event r hr => ?_
            exact absurd (steps_of_step hr).1 (by simp [hgoes])
        | some cgImage =>
            refine iff_of_false (by simp) fun hnone => ?_
            refine hnone .slotDisconnect (s'.slotDisconnect, .quiet) ?_
            rw [step.eq_def, if_pos (by simp [hgoes])]

/-- What the server writes to the client, behind the length. -/
def firstFrame : List UInt8 :=
  (AsioTcpClientSession.packet TcpData.DataTypes.firstData
    (({ clientAddr := localClient.addr, clientPort := localClient.port } :
      TcpData.FirstData).serialize .little)).serialize .little

/-- The client connects and opens its UDP socket. -/
def connecting : List MainClientEvent :=
  .slotConnect localhost ::
    (((Client.firstFrame firstFrame).drop 1).map .conn ++ [.conn (.handled 0)])

/-- Then another host is named. -/
def otherHost (host : List UInt8) : List MainClientEvent := connecting ++ [.slotConnect host]

theorem completes_otherHost (host : List UInt8) : ∃ s os,
    Completes (step .loopback .little) {} (otherHost host) s os ∧ s.isRunning = true ∧
      s.conn.udp.isOpen = true := ⟨_, _, rfl, rfl, rfl⟩

/-- An address, and a name. -/
theorem sent_to_lastHost_other :
    (∃ s os s', Completes (step .loopback .little) {} (otherHost (Text.bytesOf "10.0.0.2")) s
        os ∧ s.step .loopback .little (.slotSend none) =
          .ok (s', .sent [({ addr := Text.bytesOf "10.0.0.2", port := Constants.serverPort },
            testMessage.datagram .little)])) ∧
    ∃ s os, Completes (step .loopback .little) {} (otherHost (Text.bytesOf "localhost")) s os ∧
      s.step .loopback .little (.slotSend none) = .error (.send .badAddress) := by
  constructor
  · obtain ⟨s, os, h, hrunning, hopen⟩ := completes_otherHost (Text.bytesOf "10.0.0.2")
    obtain ⟨-, hsends, hall⟩ := sent_to_lastHost .loopback .little h hrunning none
    obtain ⟨s', sent, hstep⟩ := hsends (fun _ => by decide) nofun
    have hsent := (hall s' sent hstep).1
    rw [if_pos hopen] at hsent
    rw [hsent] at hstep
    exact ⟨s, os, s', h, hstep⟩
  · obtain ⟨s, os, h, hrunning, hopen⟩ := completes_otherHost (Text.bytesOf "localhost")
    exact ⟨s, os, h, (sent_to_lastHost .loopback .little h hrunning none).1.mpr
      ⟨hopen, by decide⟩⟩

end MainClient

end P2PWatcher
