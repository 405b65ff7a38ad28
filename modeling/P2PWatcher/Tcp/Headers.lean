import P2PWatcher.Tcp.Stream
import P2PWatcher.Udp.Fragment

/-!
# What the headers say

A header is truthful if the sizes and the numbers in it are those of the packet that it is sent
with. The packets of the UDP senders are, as long as their numbers fit into 16 bits
(`fragment_truthful`). Over TCP the client's header is as long as the packet is below 2^16
bytes, because its size is kept in 16 bits (`asyncWrite_truthful_iff`). The
server's is never, because `doSend` leaves the number of the packet at 0, and that is all in
which the two encoders differ (`AsioTcpClientSession.packet_eq`).
-/

namespace P2PWatcher

open Memory

/-- The header says of how many bytes the packet is a part, how long the packet is, and
which one of how many. -/
structure Packet.Truthful (e : Endian) (total : ℕ) (pkt : Packet) : Prop where
  totalDataSize : pkt.header.totalDataSize.toNat = total
  curPacketSize : pkt.header.curPacketSize.toNat = (pkt.serialize e).length
  one_le : 1 ≤ pkt.header.curPacketNumber.toNat
  le_total : pkt.header.curPacketNumber ≤ pkt.header.totalCntPackets
  isFirst : pkt.header.isFirst = 1 ↔ pkt.header.curPacketNumber = 1
  isLast : pkt.header.isLast = 1 ↔ pkt.header.curPacketNumber = pkt.header.totalCntPackets

/-- Both encoders send one frame, with a truthful header. -/
def TcpEncodersAgree (e : Endian) (dataType : UInt16) (buffer : List UInt8) : Prop :=
  ∃ pkt : Packet,
    AsioTcpClientSession.doSend e true dataType buffer = some (frame e pkt) ∧
      BoostTcpConnection.asyncWrite e true dataType buffer = some (frame e pkt) ∧
      pkt.Truthful e buffer.length

/-! ## Over UDP -/

theorem fragment_truthful (e : Endian) (dataType : UInt16) (buf : List UInt8) {i : ℕ}
    (hi : i < fragmentCount buf.length) (hcount : fragmentCount buf.length < 2 ^ 16) :
    (fragment dataType buf i).Truthful e buf.length := by
  have hlen : buf.length < 2 ^ 32 := by
    rw [fragmentCount] at hcount
    omega
  have hnumber : (UInt16.ofNat (i + 1)).toNat = i + 1 :=
    UInt16.toNat_ofNat_of_lt' (lt_of_le_of_lt hi hcount)
  have hcnt : (UInt16.ofNat (fragmentCount buf.length)).toNat = fragmentCount buf.length :=
    UInt16.toNat_ofNat_of_lt' hcount
  have hbuffer := fragment_buffer_length dataType buf i
  have hsize : 17 + (fragment dataType buf i).buffer.length < 2 ^ 16 := by omega
  constructor
  · exact UInt32.toNat_ofNat_of_lt' hlen
  · rw [Packet.serialize_length]
    exact UInt16.toNat_ofNat_of_lt' hsize
  · rw [fragment, hnumber]
    omega
  · rw [UInt16.le_iff_toNat_le, fragment, hnumber, hcnt]
    omega
  · rw [← UInt16.toNat_inj, fragment, hnumber]
    by_cases h : i = 0
    · simp [h]
    · simp [h]
  · rw [← UInt16.toNat_inj, fragment, hnumber, hcnt]
    by_cases h : i + 1 = fragmentCount buf.length
    · simp [h]
    · simp [h]

/-! ## Over TCP -/

/-- The server's packet is the client's without its number. -/
theorem AsioTcpClientSession.packet_eq (dataType : UInt16) (buffer : List UInt8) :
    AsioTcpClientSession.packet dataType buffer =
      { BoostTcpConnection.packet dataType buffer with header.curPacketNumber := 0 } := rfl

/-- The size of the packet is kept in 16 bits. -/
theorem asyncWrite_truthful_iff (e : Endian) (dataType : UInt16) (buffer : List UInt8)
    (hlen : buffer.length + 17 < 2 ^ 32) :
    (BoostTcpConnection.packet dataType buffer).Truthful e buffer.length ↔
      buffer.length + 17 < 2 ^ 16 := by
  have hserialize : ((BoostTcpConnection.packet dataType buffer).serialize e).length =
      buffer.length + 17 := by
    rw [Packet.serialize_length, Nat.add_comm]
    rfl
  constructor
  · intro h
    rw [← hserialize, ← h.curPacketSize]
    exact UInt16.toNat_lt _
  · intro hsmall
    constructor
    · exact UInt32.toNat_ofNat_of_lt' (lt_of_le_of_lt (Nat.le_add_right _ 17) hlen)
    · rw [hserialize]
      exact UInt16.toNat_ofNat_of_lt' hsmall
    · exact le_refl 1
    · exact UInt16.le_refl _
    · exact iff_of_true rfl rfl
    · exact iff_of_true rfl rfl

/-- The number 0 is below the first one. -/
theorem doSend_not_truthful (e : Endian) (total : ℕ) (dataType : UInt16) (buffer : List UInt8) :
    ¬ (AsioTcpClientSession.packet dataType buffer).Truthful e total :=
  fun h => absurd h.one_le (Nat.not_succ_le_zero 0)

theorem frame_injective (e : Endian) : Function.Injective (frame e) := by
  intro p q h
  have hlen (pkt : Packet) : (put32 e (UInt32.ofNat (pkt.serialize e).length)).length = 4 :=
    put32_length e _
  exact Packet.serialize_injective e (List.append_inj h ((hlen p).trans (hlen q).symm)).2

theorem doSend_ne_asyncWrite (e : Endian) (dataType : UInt16) (buffer : List UInt8) :
    AsioTcpClientSession.doSend e true dataType buffer ≠
      BoostTcpConnection.asyncWrite e true dataType buffer := by
  intro h
  have hpkt := frame_injective e (Option.some.inj h)
  have hnumber : (0 : UInt16) = 1 := congrArg (fun pkt => pkt.header.curPacketNumber) hpkt
  exact absurd hnumber (by decide)

/-- Whatever is sent, the two frames differ, and the server's header is not truthful. -/
theorem not_tcpEncodersAgree (e : Endian) (dataType : UInt16) (buffer : List UInt8) :
    ¬ TcpEncodersAgree e dataType buffer := by
  rintro ⟨pkt, hserver, hclient, -⟩
  exact doSend_ne_asyncWrite e dataType buffer (hserver.trans hclient.symm)

/-- One byte of payload. -/
theorem not_tcpEncodersAgree_one : ¬ TcpEncodersAgree .little 1 [0x61] := by
  rintro ⟨pkt, hserver, hclient, -⟩
  exact doSend_ne_asyncWrite .little 1 [0x61] (hserver.trans hclient.symm)

end P2PWatcher
