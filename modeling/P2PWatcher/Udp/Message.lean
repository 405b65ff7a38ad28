import P2PWatcher.Udp.Leftover

/-!
# One message in one datagram

A message of at most 1451 bytes is one packet, of at most 1472 bytes, and either sender makes
one datagram of it. The receiver overlays its buffer with the datagram and decodes the
whole buffer, but the decoder stops where the length in front of the message says, so
that what the buffer held before is not seen (`message_delivered`).
-/

namespace P2PWatcher

open Memory

namespace UdpData.TestMessage

@[simp] theorem serialize_length (e : Endian) (m : TestMessage) :
    (m.serialize e).length = 4 + m.message.length := putStr_length e m.message

/-- The only packet of a short message. -/
def datagram (e : Endian) (m : TestMessage) : List UInt8 :=
  (fragment DataTypes.testMessage (m.serialize e) 0).serialize e

theorem datagram_length (e : Endian) {m : TestMessage} (h : m.message.length ≤ 1451) :
    (m.datagram e).length = 21 + m.message.length := by
  rw [datagram, Packet.serialize_length, fragment_buffer_length, serialize_length]
  omega

theorem fragments_eq (e : Endian) {m : TestMessage} (h : m.message.length ≤ 1451) :
    fragments e DataTypes.testMessage (m.serialize e) = [m.datagram e] := by
  have hcount : fragmentCount (m.serialize e).length = 1 := by
    rw [fragmentCount, serialize_length]
    omega
  rw [fragments, hcount]
  rfl

end UdpData.TestMessage

open UdpData in
/-- Whatever the receive buffer held, the handler finds the message and nothing else. -/
theorem UdpReceiver.receive_datagram {α : Type} (hand : List UInt8 → α) (e : Endian)
    (r : UdpReceiver) {m : TestMessage} (h : m.message.length ≤ 1451) :
    ∃ r', receive (processDatagram hand e) r (m.datagram e) = .ok (r', .message m.message) ∧
      r'.assembly = r.assembly := by
  have hlen := m.datagram_length e h
  have hpayload : (fragment DataTypes.testMessage (m.serialize e) 0).buffer =
      m.serialize e ++ [] := by
    rw [List.append_nil]
    exact List.take_of_length_le (by simp; omega)
  have hprocess := processDatagram_message hand e r.assembly
    (List.take_of_length_le (by omega) : (m.datagram e).take 1472 = m.datagram e) rfl rfl hpayload
    r.buffer.length_eq
  rw [receive_of_length_pos _ r _ (by omega)]
  change ∃ r', (processDatagram hand e r.assembly (overlay r.buffer.cells _)).map _ = _ ∧ _
  rw [hprocess]
  exact ⟨_, rfl, rfl⟩

open UdpData in
/-- Each sender makes one datagram of a short message, and each receiver reads it from there and
leaves the assembly as it is. -/
theorem message_delivered (e : Endian) (m : TestMessage) (h : m.message.length ≤ 1451) :
    ∃ d : List UInt8, d.length ≤ 1472 ∧
      (∀ (asio : Asio) (addr : List UInt8), asio.makeAddress addr = true →
        BoostUdpConnection.sendData asio e true addr DataTypes.testMessage (m.serialize e) =
          .ok [({ addr, port := Constants.serverPort }, d)]) ∧
      (∀ (asio : Asio) (cl : List (UInt32 × ClientInfo)),
        (∀ client ∈ cl, asio.makeAddress client.2.addr = true) →
          AsioUdpManager.broadCast asio e true cl DataTypes.testMessage (m.serialize e) =
            .ok (cl.map fun client => (client.2, [d]))) ∧
      ∀ r : UdpReceiver,
        (∃ r', AsioUdpManager.listen e r d = .ok (r', .message m.message) ∧
          r'.assembly = r.assembly) ∧
        ∃ r', BoostUdpConnection.listen e r d = .ok (r', .message m.message) ∧
          r'.assembly = r.assembly := by
  have hlen := m.datagram_length e h
  have hshort : (m.serialize e).length < 2 ^ 31 := by
    rw [m.serialize_length e]
    omega
  refine ⟨m.datagram e, by omega, fun asio addr haddr => ?_, fun asio cl hcl => ?_,
    fun r => ⟨?_, ?_⟩⟩
  · rw [BoostUdpConnection.sendData_of_lt e haddr _ _ hshort, m.fragments_eq e h]
    rfl
  · rw [AsioUdpManager.broadCast_of_lt e hcl _ _ hshort, m.fragments_eq e h]
  · exact r.receive_datagram _ e h
  · exact r.receive_datagram _ e h

/-- The longest message, to a server that has just started. -/
theorem message_delivered_full : ∃ d : List UInt8, d.length ≤ 1472 ∧
    BoostUdpConnection.sendData .loopback .big true localhost UdpData.DataTypes.testMessage
        (UdpData.TestMessage.serialize .big { message := List.replicate 1451 97 }) =
      .ok [({ addr := localhost, port := Constants.serverPort }, d)] ∧
    ∃ r', AsioUdpManager.listen .big UdpReceiver.start d =
        .ok (r', .message (List.replicate 1451 97)) ∧
      r'.assembly = UdpReceiver.start.assembly := by
  obtain ⟨d, hd, hclient, -, hr⟩ := message_delivered .big
    { message := List.replicate 1451 97 } List.length_replicate.le
  exact ⟨d, hd, hclient _ _ Asio.makeAddress_loopback, (hr UdpReceiver.start).1⟩

end P2PWatcher
