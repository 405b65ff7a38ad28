import P2PWatcher.Udp.Fragment
import P2PWatcher.Udp.Receiver
import P2PWatcher.Sequence.Reassembly

/-!
# Image packets at the receiver

The receive buffer has 1472 bytes and 17 of them are header, so of the payload
of a packet 1455 bytes arrive: a longer one is cut, and a shorter one is
followed by the bytes that the receive buffer had there before (`received`).
The image case is `Reassembly.accept` on the block that the packet stands for
(`receive_serialize`), and for packets with a full payload the receive buffer does
not matter at all, so that a run of the receiver is a run of `accept`
(`completes_serialize_iff`). A packet of a host with the other byte order is
rejected.
-/

namespace P2PWatcher

open Memory Machine Sequence

namespace Packet

/-- The packet goes to the image case. -/
def IsImage (pkt : Packet) : Prop :=
  pkt.header.serverHash = Constants.serverHash ∧ pkt.dType = UdpData.DataTypes.image

instance (pkt : Packet) : Decidable pkt.IsImage := inferInstanceAs (Decidable (_ ∧ _))

/-- What the receiver takes the packet for, if the receive buffer had `bs`. -/
def received (bs : List UInt8) (pkt : Packet) : Packet :=
  { pkt with buffer := overlay (bs.drop 17) pkt.buffer }

@[simp] theorem received_header (bs : List UInt8) (pkt : Packet) :
    (pkt.received bs).header = pkt.header := rfl

@[simp] theorem received_dType (bs : List UInt8) (pkt : Packet) :
    (pkt.received bs).dType = pkt.dType := rfl

theorem overlay_serialize (e : Endian) (bs : List UInt8) (pkt : Packet)
    (h : 17 ≤ bs.length) : overlay bs (pkt.serialize e) = (pkt.received bs).serialize e := by
  rw [serialize, overlay_append _ _ _ (by rw [preamble_length]; exact h), preamble_length]
  rfl

/-- Whatever was sent, the receiver copies 1455 bytes. -/
theorem received_buffer_length (bs : List UInt8) (pkt : Packet) (h : bs.length = 1472) :
    (pkt.received bs).buffer.length = 1455 := by
  rw [received, overlay_length, List.length_drop, h]

theorem received_of_le (bs : List UInt8) (pkt : Packet) (h : bs.length = 1472)
    (hle : 1455 ≤ pkt.buffer.length) :
    pkt.received bs = { pkt with buffer := pkt.buffer.take 1455 } := by
  have hdrop : (bs.drop 17).length = 1455 := by rw [List.length_drop, h]
  rw [received, overlay_of_le _ _ (by rw [hdrop]; exact hle), hdrop]

/-- The block that the image case makes of the packet. -/
def block (pkt : Packet) : Block UInt8 where
  first := decide (pkt.header.isFirst = 1)
  last := decide (pkt.header.isLast = 1)
  total := pkt.header.totalDataSize.toNat
  offset := (chunkOffset pkt.header.curPacketNumber).toNat
  data := pkt.buffer

end Packet

/-- The effect of the image case. -/
def UdpEffect.ofHanded {α : Type} (hand : List UInt8 → α) : Option (List UInt8) → UdpEffect α
  | none => .fragment
  | some buffer => .image (hand buffer)

theorem handed?_ofHanded {α : Type} (hand : List UInt8 → α) (o : Option (List UInt8)) :
    (UdpEffect.ofHanded hand o).handed? = o.map hand := by
  cases o <;> rfl

theorem setUp_block (st : Assembly) (pkt : Packet) :
    Reassembly.setUp 0 st.assemblyBuffer pkt.block = (st.setUp pkt).assemblyBuffer := by
  by_cases h : pkt.header.isFirst = 1
  · simp [Reassembly.setUp, Packet.block, Assembly.setUp, h]
  · simp [Reassembly.setUp, Packet.block, Assembly.setUp, h]

/-- The image case accepts the block of the packet. -/
theorem processImage_map (st : Assembly) (pkt : Packet) :
    (st.processImage pkt).map (fun x => (x.1.assemblyBuffer, x.2)) =
      Reassembly.accept 0 st.assemblyBuffer pkt.block := by
  rw [Reassembly.accept, setUp_block]
  simp only [Assembly.processImage, Assembly.imageWrite, Packet.block, bind, Except.bind]
  cases writeAt (st.setUp pkt).assemblyBuffer (chunkOffset pkt.header.curPacketNumber).toNat
      pkt.buffer with
  | error f => rfl
  | ok buffer => by_cases h : pkt.header.isLast = 1 <;> simp [h, Except.map]

/-- A block that does not lie inside the buffer is not copied. -/
theorem processImage_of_not_fits (st : Assembly) (pkt : Packet)
    (h : ¬ Reassembly.Fits st.assemblyBuffer.length pkt.block) :
    st.processImage pkt = .error .write := by
  have hwrite : writeAt (st.imageWrite pkt).assemblyBuffer
      (st.imageWrite pkt).chunkOffset.toNat (st.imageWrite pkt).data = .error .write := by
    rw [Reassembly.Fits, ← Reassembly.setUp_length (0 : UInt8), setUp_block] at h
    exact if_neg h
  simp only [Assembly.processImage, hwrite, bind, Except.bind]

theorem processDatagram_serialize {α : Type} (hand : List UInt8 → α) (e : Endian)
    (st : Assembly) (pkt : Packet) (h : pkt.IsImage) :
    processDatagram hand e st (pkt.serialize e) =
      (st.processImage pkt).map fun x => (x.1, UdpEffect.ofHanded hand x.2) := by
  simp only [processDatagram, Packet.parse_serialize, bind, Except.bind]
  rw [if_neg (not_not.mpr h.1), if_neg (by rw [h.2]; decide), if_pos h.2]
  cases st.processImage pkt with
  | error f => rfl
  | ok x => obtain ⟨st', _ | buffer⟩ := x <;> rfl

namespace UdpReceiver

theorem receive_of_length_pos {α : Type}
    (process : Assembly → List UInt8 → Except Fault (Assembly × UdpEffect α))
    (r : UdpReceiver) (d : List UInt8) (h : 0 < d.length) :
    receive process r d = (process r.assembly (r.buffer.receive d).cells).map fun x =>
      ({ buffer := r.buffer.receive d, assembly := x.1 }, x.2) := by
  have hpos : 0 < min d.length Constants.bufferSize := by
    rw [Constants.bufferSize]
    omega
  rw [receive, if_pos hpos]
  cases process r.assembly (r.buffer.receive d).cells <;> rfl

theorem receive_cells_serialize (e : Endian) (r : UdpReceiver) (pkt : Packet) :
    (r.buffer.receive (pkt.serialize e)).cells = (pkt.received r.buffer.cells).serialize e :=
  Packet.overlay_serialize e _ pkt (by rw [r.buffer.length_eq]; decide)

/-- What the parser makes of a packet that has just been received. -/
theorem parse_receive_serialize (e : Endian) (b : Fixed UInt8 Constants.bufferSize)
    (pkt : Packet) :
    Packet.parse e (b.receive (pkt.serialize e)).cells = .ok (pkt.received b.cells) := by
  rw [receive_cells_serialize e { buffer := b, assembly := {} } pkt, Packet.parse_serialize]

/-- A packet with an image from a host with the same byte order. -/
theorem receive_serialize {α : Type} (hand : List UInt8 → α) (e : Endian) (r : UdpReceiver)
    (pkt : Packet) (h : pkt.IsImage) :
    (receive (processDatagram hand e) r (pkt.serialize e)).map
        (fun x => (x.1.assembly.assemblyBuffer, x.2)) =
      (Reassembly.accept 0 r.assembly.assemblyBuffer (pkt.received r.buffer.cells).block).map
        fun y => (y.1, UdpEffect.ofHanded hand y.2) := by
  have himage : (pkt.received r.buffer.cells).IsImage := h
  rw [receive_of_length_pos _ _ _ (by simp), receive_cells_serialize,
    processDatagram_serialize hand e _ _ himage, ← processImage_map]
  cases r.assembly.processImage (pkt.received r.buffer.cells) <;> rfl

/-- The hash in the header does not survive a change of the byte order. -/
theorem receive_serialize_of_ne {α : Type} (hand : List UInt8 → α) {es er : Endian}
    (h : es ≠ er) (r : UdpReceiver) (pkt : Packet)
    (hhash : pkt.header.serverHash = Constants.serverHash) :
    receive (processDatagram hand er) r (pkt.serialize es) =
      .ok ({ r with buffer := r.buffer.receive (pkt.serialize es) }, .rejected) := by
  rw [receive_of_length_pos _ _ _ (by simp), receive_cells_serialize]
  obtain ⟨pkt', hparse⟩ := Packet.exists_parse_eq_ok er
    ((pkt.received r.buffer.cells).serialize es) (by simp)
  have hbytes := (Packet.parse_eq_ok_iff _ _ _).mp hparse
  have hput : put16 es Constants.serverHash = put16 er pkt'.header.serverHash := by
    have htake := congrArg (List.take 2) hbytes
    simp only [Packet.serialize, Packet.preamble, List.append_assoc, Packet.received, hhash]
      at htake
    rwa [List.take_left' (put16_length ..), List.take_left' (put16_length ..)] at htake
  have hne : pkt'.header.serverHash ≠ Constants.serverHash := by
    intro heq
    rw [heq] at hput
    revert hput h
    cases es <;> cases er <;> decide
  simp only [processDatagram, hparse, bind, Except.bind, Except.map]
  rw [if_pos hne]

/-- One turn with an image packet is one step of `accept`. -/
theorem exists_accept_of_receive {α : Type} {hand : List UInt8 → α} {e : Endian}
    {r r' : UdpReceiver} {pkt : Packet} {o : UdpEffect α} (himage : pkt.IsImage)
    (h : receive (processDatagram hand e) r (pkt.serialize e) = .ok (r', o)) :
    ∃ o', Reassembly.accept 0 r.assembly.assemblyBuffer (pkt.received r.buffer.cells).block =
        .ok (r'.assembly.assemblyBuffer, o') ∧ o = UdpEffect.ofHanded hand o' := by
  have haccept := receive_serialize hand e r pkt himage
  rw [h] at haccept
  cases hx : Reassembly.accept 0 r.assembly.assemblyBuffer
      (pkt.received r.buffer.cells).block with
  | error f =>
      rw [hx] at haccept
      exact absurd haccept (by simp [Except.map])
  | ok x =>
      rw [hx] at haccept
      obtain ⟨hbuf, ho⟩ := Prod.mk.inj (Except.ok.inj haccept)
      exact ⟨x.2, congrArg Except.ok (Prod.ext hbuf.symm rfl), ho⟩

/-- A run on image packets is a run of `accept` on their blocks, each with the bytes
that its turn found in the receive buffer. -/
theorem exists_completes_accept {α : Type} {hand : List UInt8 → α} {e : Endian}
    {pkts : List Packet} (hpkts : ∀ pkt ∈ pkts, pkt.IsImage) {r r' : UdpReceiver}
    {os : List (UdpEffect α)}
    (h : Completes (receive (processDatagram hand e)) r (pkts.map (Packet.serialize e)) r' os) :
    ∃ bs os', List.Forall₂ (fun pkt b => ∃ cells : List UInt8, cells.length = 1472 ∧
        b = (pkt.received cells).block) pkts bs ∧
      Completes (Reassembly.accept 0) r.assembly.assemblyBuffer bs r'.assembly.assemblyBuffer
        os' ∧ os = os'.map (UdpEffect.ofHanded hand) := by
  induction pkts generalizing r os with
  | nil =>
      obtain ⟨rfl, rfl⟩ := (completes_nil_iff _ _ _ _).mp h
      exact ⟨[], [], .nil, (completes_nil_iff _ _ _ _).mpr ⟨rfl, rfl⟩, rfl⟩
  | cons pkt pkts ih =>
      obtain ⟨himage, hpkts⟩ := List.forall_mem_cons.mp hpkts
      obtain ⟨r₁, o, os₁, hstep, hrun, rfl⟩ := (completes_cons_iff _ _ _ _ _ _).mp h
      obtain ⟨o', haccept, rfl⟩ := exists_accept_of_receive himage hstep
      obtain ⟨bs, os', hbs, hrun', rfl⟩ := ih hpkts hrun
      exact ⟨_ :: bs, o' :: os', .cons ⟨_, r.buffer.length_eq, rfl⟩ hbs,
        (completes_cons_iff _ _ _ _ _ _).mpr ⟨_, _, _, haccept, hrun', rfl⟩, rfl⟩

/-- Packets with a full payload run through the receiver as their blocks run through
`accept`, whatever the receive buffer holds. -/
theorem completes_serialize_iff {α : Type} (hand : List UInt8 → α) (e : Endian)
    {pkts : List Packet}
    (hpkts : ∀ pkt ∈ pkts, pkt.IsImage ∧ 1455 ≤ pkt.buffer.length)
    (r : UdpReceiver) (buf : List UInt8) (os : List (UdpEffect α)) :
    (∃ r', Completes (receive (processDatagram hand e)) r (pkts.map (Packet.serialize e)) r'
        os ∧ r'.assembly.assemblyBuffer = buf) ↔
      ∃ os', Completes (Reassembly.accept 0) r.assembly.assemblyBuffer
          (pkts.map fun pkt => { pkt with buffer := pkt.buffer.take 1455 }.block) buf os' ∧
        os = os'.map (UdpEffect.ofHanded hand) := by
  apply completes_map_iff (a := fun r : UdpReceiver => r.assembly.assemblyBuffer)
  intro pkt hpkt s
  obtain ⟨himage, hlen⟩ := hpkts pkt hpkt
  rw [receive_serialize hand e s pkt himage,
    Packet.received_of_le _ _ s.buffer.length_eq hlen]

end UdpReceiver

/-- Between hosts with different byte orders nothing is handed out. -/
theorem completes_foreign {α : Type} (hand : List UInt8 → α) {es er : Endian} (h : es ≠ er)
    (pkts : List Packet) (hpkts : ∀ pkt ∈ pkts, pkt.IsImage) (r : UdpReceiver) :
    ∃ r' os, Completes (UdpReceiver.receive (processDatagram hand er)) r
      (pkts.map (Packet.serialize es)) r' os ∧ os.filterMap UdpEffect.handed? = [] := by
  induction pkts generalizing r with
  | nil => exact ⟨r, [], (completes_nil_iff _ _ _ _).mpr ⟨rfl, rfl⟩, rfl⟩
  | cons pkt pkts ih =>
      obtain ⟨himage, hpkts⟩ := List.forall_mem_cons.mp hpkts
      have hstep := UdpReceiver.receive_serialize_of_ne hand h r pkt himage.1
      obtain ⟨r', os, hrun, hos⟩ :=
        ih hpkts { r with buffer := r.buffer.receive (pkt.serialize es) }
      exact ⟨r', _, (completes_cons_iff _ _ _ _ _ _).mpr ⟨_, _, _, hstep, hrun, rfl⟩, hos⟩

end P2PWatcher
