import P2PWatcher.Wire.Decode
import P2PWatcher.Udp.Bounds

/-!
# The TCP handlers

`processPacket` of the server and `prcsPacket` of the client walk over the header of
a frame, check the hash and the two flags, and dispatch on the data type; the
client knows one type more. Neither they nor the decoders get the length of
the frame, so nothing is rejected for being too short: the reads stay inside
the frame exactly when it has the 17 bytes of the header and, if it gets as far as a
decoder, its payload begins with the encoding of a value (`reads_inside_iff`).
-/

namespace P2PWatcher

open Memory

/-- What the handler of a frame does. -/
inductive TcpEffect where
  /-- the hash in the header is not `SERVER_HASH` -/
  | wrongHash
  /-- one of the flags `isFirst` and `isLast` is not set -/
  | wrongFlags
  /-- a structure was printed -/
  | testStruct (a : TcpData.TestStruct)
  /-- the UDP socket was opened on this address and port, and listens -/
  | firstData (a : TcpData.FirstData)
  /-- the data type has no case -/
  | unknown
  deriving DecidableEq, Repr

/-- The packet passes the checks of the TCP handlers. -/
def Packet.Accepted (pkt : Packet) : Prop :=
  pkt.header.serverHash = Constants.serverHash ∧ pkt.header.isFirst = 1 ∧ pkt.header.isLast = 1

/-- The body that both handlers share; `dispatch` is the switch over the data types. -/
def processFrame (dispatch : UInt16 → List UInt8 → Except Fault TcpEffect) (e : Endian)
    (buf : List UInt8) : Except Fault TcpEffect := do
  let pkt ← Packet.parse e buf
  if pkt.header.serverHash ≠ Constants.serverHash then .ok .wrongHash
  else if pkt.header.isFirst ≠ 1 ∨ pkt.header.isLast ≠ 1 then .ok .wrongFlags
  else dispatch pkt.dType pkt.buffer

/-- The server's handler. Its decoder counts in `u32`. -/
def AsioTcpManager.processPacket (e : Endian) (buf : List UInt8) : Except Fault TcpEffect :=
  processFrame (fun dType buffer =>
    if dType = TcpData.DataTypes.testStruct then
      .testStruct <$> TcpData.TestStruct.deserialize 32 e buffer
    else .ok .unknown) e buf

/-- The client's handler. Its decoder of structures counts in `size_t`. -/
def BoostTcpConnection.prcsPacket (e : Endian) (buf : List UInt8) : Except Fault TcpEffect :=
  processFrame (fun dType buffer =>
    if dType = TcpData.DataTypes.testStruct then
      .testStruct <$> TcpData.TestStruct.deserialize 64 e buffer
    else if dType = TcpData.DataTypes.firstData then
      .firstData <$> TcpData.FirstData.deserialize e buffer
    else .ok .unknown) e buf

theorem processFrame_serialize
    (dispatch : UInt16 → List UInt8 → Except Fault TcpEffect) (e : Endian) (pkt : Packet)
    (h : pkt.Accepted) :
    processFrame dispatch e (pkt.serialize e) = dispatch pkt.dType pkt.buffer := by
  simp only [processFrame, Packet.parse_serialize, bind, Except.bind]
  rw [if_neg (not_not.mpr h.1), if_neg (by rw [h.2.1, h.2.2]; decide)]

/-- A frame is read inside its bounds when its header is there and, if it is accepted,
its payload is. -/
theorem processFrame_eq_ok_iff
    (dispatch : UInt16 → List UInt8 → Except Fault TcpEffect) (e : Endian) (buf : List UInt8) :
    (∃ effect, processFrame dispatch e buf = .ok effect) ↔
      17 ≤ buf.length ∧ ∀ pkt : Packet, buf = pkt.serialize e → pkt.Accepted →
        ∃ effect, dispatch pkt.dType pkt.buffer = .ok effect := by
  rw [← Packet.exists_parse_eq_ok_iff e buf]
  constructor
  · rintro ⟨effect, h⟩
    obtain ⟨pkt, hparse, -⟩ := (bind_eq_ok_iff _ _ _).mp h
    refine ⟨⟨pkt, hparse⟩, ?_⟩
    rintro pkt' rfl haccepted
    rw [processFrame_serialize dispatch e pkt' haccepted] at h
    exact ⟨effect, h⟩
  · rintro ⟨⟨pkt, hparse⟩, h⟩
    have hserial := (Packet.parse_eq_ok_iff e buf pkt).mp hparse
    by_cases haccepted : pkt.Accepted
    · rw [hserial, processFrame_serialize dispatch e pkt haccepted]
      exact h pkt hserial haccepted
    · simp only [processFrame, hparse, bind, Except.bind]
      by_cases hhash : pkt.header.serverHash = Constants.serverHash
      · have hflags : pkt.header.isFirst ≠ 1 ∨ pkt.header.isLast ≠ 1 := by
          by_contra hflags
          rw [not_or, not_not, not_not] at hflags
          exact haccepted ⟨hhash, hflags⟩
        rw [if_neg (not_not.mpr hhash), if_pos hflags]
        exact ⟨_, rfl⟩
      · rw [if_pos hhash]
        exact ⟨_, rfl⟩

theorem exists_map_eq_ok_iff {ε : Type*} {α β : Type} (f : α → β) (x : Except ε α) :
    (∃ b, f <$> x = .ok b) ↔ ∃ a, x = .ok a := by
  simp only [map_eq_ok_iff]
  constructor
  · rintro ⟨_, a, ha, -⟩
    exact ⟨a, ha⟩
  · rintro ⟨a, ha⟩
    exact ⟨_, a, ha, rfl⟩

/-- What has to hold of the packet of a frame that is shorter than 2^32 bytes. -/
theorem processFrame_eq_ok_iff_of_lt (dispatch : UInt16 → List UInt8 → Except Fault TcpEffect)
    (e : Endian) {buf : List UInt8} (hbuf : buf.length < 2 ^ 32) {P : Packet → Prop}
    (h : ∀ pkt : Packet, pkt.buffer.length < 2 ^ 32 →
      ((∃ effect, dispatch pkt.dType pkt.buffer = .ok effect) ↔ P pkt)) :
    (∃ effect, processFrame dispatch e buf = .ok effect) ↔
      17 ≤ buf.length ∧ ∀ pkt : Packet, buf = pkt.serialize e → pkt.Accepted → P pkt := by
  rw [processFrame_eq_ok_iff]
  refine and_congr_right fun _ => forall_congr' fun pkt => forall_congr' fun hserial =>
    forall_congr' fun _ => h pkt ?_
  rw [hserial, Packet.serialize_length] at hbuf
  omega

/-- The payload begins with the encoding of a value, if the data type has a decoder. -/
def Packet.Decodable (e : Endian) (pkt : Packet) : Prop :=
  pkt.dType = TcpData.DataTypes.testStruct →
    ∃ (v : TcpData.TestStruct) (t : List UInt8), pkt.buffer = v.serilize e ++ t

def Packet.DecodableFirst (e : Endian) (pkt : Packet) : Prop :=
  pkt.dType = TcpData.DataTypes.firstData →
    ∃ (v : TcpData.FirstData) (t : List UInt8), pkt.buffer = v.serialize e ++ t

theorem AsioTcpManager.processPacket_eq_ok_iff (e : Endian) (buf : List UInt8)
    (hbuf : buf.length < 2 ^ 32) :
    (∃ effect, processPacket e buf = .ok effect) ↔
      17 ≤ buf.length ∧ ∀ pkt : Packet, buf = pkt.serialize e → pkt.Accepted → pkt.Decodable e := by
  refine processFrame_eq_ok_iff_of_lt _ e hbuf fun pkt hlen => ?_
  rw [Packet.Decodable]
  by_cases htype : pkt.dType = TcpData.DataTypes.testStruct
  · simp only [htype, ↓reduceIte, exists_map_eq_ok_iff, forall_const,
      TcpData.TestStruct.deserialize_eq_ok_iff 32 (le_refl 32) e _ hlen]
  · simp only [htype, ↓reduceIte, false_implies, iff_true]
    exact ⟨_, rfl⟩

theorem BoostTcpConnection.prcsPacket_eq_ok_iff (e : Endian) (buf : List UInt8)
    (hbuf : buf.length < 2 ^ 32) :
    (∃ effect, prcsPacket e buf = .ok effect) ↔
      17 ≤ buf.length ∧ ∀ pkt : Packet, buf = pkt.serialize e → pkt.Accepted →
        pkt.Decodable e ∧ pkt.DecodableFirst e := by
  refine processFrame_eq_ok_iff_of_lt _ e hbuf fun pkt hlen => ?_
  rw [Packet.Decodable, Packet.DecodableFirst]
  by_cases htype : pkt.dType = TcpData.DataTypes.testStruct
  · have hfirst : TcpData.DataTypes.testStruct ≠ TcpData.DataTypes.firstData := by decide
    simp only [htype, ↓reduceIte, exists_map_eq_ok_iff, hfirst, false_implies, and_true,
      forall_const, TcpData.TestStruct.deserialize_eq_ok_iff 64 (by decide) e _ hlen]
  · by_cases hfirst : pkt.dType = TcpData.DataTypes.firstData
    · have hne : TcpData.DataTypes.firstData ≠ TcpData.DataTypes.testStruct := by decide
      simp only [hfirst, hne, ↓reduceIte, exists_map_eq_ok_iff, false_implies, true_and,
        forall_const, TcpData.FirstData.deserialize_eq_ok_iff e _ hlen]
    · simp only [htype, hfirst, ↓reduceIte, false_implies, and_self, iff_true]
      exact ⟨_, rfl⟩

/-! ## The messages of the UDP handlers -/

/-- The payload begins with a message, if the packet gets as far as its decoder. -/
def Packet.DecodableMessage (e : Endian) (pkt : Packet) : Prop :=
  pkt.header.serverHash = Constants.serverHash → pkt.dType = UdpData.DataTypes.testMessage →
    ∃ (m : UdpData.TestMessage) (t : List UInt8), pkt.buffer = m.serialize e ++ t

theorem overlong_iff (e : Endian) (b : Fixed UInt8 Constants.bufferSize) (d : List UInt8) :
    Overlong e b d ↔ d ≠ [] ∧ ∃ pkt : Packet, (b.receive d).cells = pkt.serialize e ∧
      ¬ pkt.DecodableMessage e := by
  rw [Overlong]
  refine and_congr_right fun _ => ?_
  simp only [Packet.parse_eq_ok_iff]
  have htext : ∀ pkt : Packet, (b.receive d).cells = pkt.serialize e →
      ((∃ f, UdpData.TestMessage.deserialize e pkt.buffer = .error f) ↔
        ¬ ∃ (m : UdpData.TestMessage) (t : List UInt8), pkt.buffer = m.serialize e ++ t) := by
    intro pkt hserial
    have hlen : pkt.buffer.length < 2 ^ 32 := by
      have hcells := (b.receive d).length_eq
      rw [hserial, Packet.serialize_length, Constants.bufferSize] at hcells
      omega
    simp only [← UdpData.TestMessage.deserialize_eq_ok_iff e _ hlen]
    cases UdpData.TestMessage.deserialize e pkt.buffer <;> simp
  constructor
  · rintro ⟨pkt, f, hserial, hhash, htype, herror⟩
    refine ⟨pkt, hserial, fun h => ?_⟩
    exact (htext pkt hserial).mp ⟨f, herror⟩ (h hhash htype)
  · rintro ⟨pkt, hserial, h⟩
    rw [Packet.DecodableMessage, Classical.not_imp, Classical.not_imp] at h
    obtain ⟨hhash, htype, hnone⟩ := h
    obtain ⟨f, herror⟩ := (htext pkt hserial).mpr hnone
    exact ⟨pkt, f, hserial, hhash, htype, herror⟩

/-- A turn of a UDP receiver reads past the end only in an overlong message. -/
theorem receive_read_iff {α : Type} (hand : List UInt8 → α) (e : Endian) (r : UdpReceiver)
    (d : List UInt8) :
    UdpReceiver.receive (processDatagram hand e) r d ≠ .error .read ↔ (d ≠ [] →
      ∀ pkt : Packet, (r.buffer.receive d).cells = pkt.serialize e →
        pkt.DecodableMessage e) := by
  have hright : (d ≠ [] → ∀ pkt : Packet, (r.buffer.receive d).cells = pkt.serialize e →
      pkt.DecodableMessage e) ↔ ¬ Overlong e r.buffer d := by
    rw [overlong_iff, not_and, not_exists]
    simp only [not_and, not_not]
  rw [hright]
  cases hshown : shown e r.buffer d with
  | some pkt =>
      have hturn := UdpReceiver.receive_of_shown hand e r d hshown
      have hlong : ¬ Overlong e r.buffer d := by
        rintro ⟨-, pkt', f, hparse', -, htype, -⟩
        obtain ⟨-, hparse, himage⟩ := (shown_eq_some_iff e r.buffer d pkt).mp hshown
        obtain rfl := Except.ok.inj (hparse.symm.trans hparse')
        rw [himage.2] at htype
        exact absurd htype (by decide)
      refine iff_of_true ?_ hlong
      split at hturn
      · obtain ⟨r', o, hok, -⟩ := hturn
        rw [hok]
        simp
      · rw [hturn]
        simp
  | none =>
      by_cases hlong : Overlong e r.buffer d
      · refine iff_of_false ?_ (not_not.mpr hlong)
        rw [not_not]
        obtain ⟨hd, pkt, f, hparse, hhash, htype, htext⟩ := hlong
        rw [UdpReceiver.receive_of_length_pos _ r d (List.length_pos_iff.mpr hd)]
        simp only [processDatagram, hparse, bind, Except.bind]
        rw [if_neg (not_not.mpr hhash), if_pos htype, htext,
          UdpData.TestMessage.onlyReads_deserialize e _ _ htext]
        rfl
      · obtain ⟨o, hok⟩ := UdpReceiver.receive_of_not_shown hand e r d hshown hlong
        rw [hok]
        exact iff_of_true (by simp) hlong

/-! ## All four handlers -/

/-- Exactly when a handler reads inside what it has received. -/
theorem reads_inside_iff (e : Endian) :
    (∀ frame : List UInt8, frame.length < 2 ^ 32 →
      ((∃ effect, AsioTcpManager.processPacket e frame = .ok effect) ↔
        17 ≤ frame.length ∧ ∀ pkt : Packet, frame = pkt.serialize e → pkt.Accepted →
          pkt.Decodable e) ∧
      ((∃ effect, BoostTcpConnection.prcsPacket e frame = .ok effect) ↔
        17 ≤ frame.length ∧ ∀ pkt : Packet, frame = pkt.serialize e → pkt.Accepted →
          pkt.Decodable e ∧ pkt.DecodableFirst e)) ∧
    ∀ (r : UdpReceiver) (d : List UInt8),
      (AsioUdpManager.listen e r d ≠ .error .read ↔ (d ≠ [] →
        ∀ pkt : Packet, (r.buffer.receive d).cells = pkt.serialize e →
          pkt.DecodableMessage e)) ∧
      (BoostUdpConnection.listen e r d ≠ .error .read ↔ (d ≠ [] →
        ∀ pkt : Packet, (r.buffer.receive d).cells = pkt.serialize e →
          pkt.DecodableMessage e)) :=
  ⟨fun frame h => ⟨AsioTcpManager.processPacket_eq_ok_iff e frame h,
      BoostTcpConnection.prcsPacket_eq_ok_iff e frame h⟩,
    fun r d => ⟨receive_read_iff _ e r d, receive_read_iff _ e r d⟩⟩

/-- A frame of length 0 is read past its end by both TCP handlers. -/
theorem reads_outside :
    AsioTcpManager.processPacket .little [] = .error .read ∧
      BoostTcpConnection.prcsPacket .little [] = .error .read :=
  ⟨rfl, rfl⟩

/-- A structure with all its members. -/
def structFrame : List UInt8 :=
  ({ header := { isFirst := 1, isLast := 1 }
     dType := TcpData.DataTypes.testStruct
     buffer := ({ a := [97, 98], b := 1, c := 0x3FE8000000000000, d := [0, 2, 6] } :
       TcpData.TestStruct).serilize .little } : Packet).serialize .little

def messageDatagram : List UInt8 :=
  ({ dType := UdpData.DataTypes.testMessage
     buffer := ({ message := [97, 98] } : UdpData.TestMessage).serialize .little } :
    Packet).serialize .little

set_option maxRecDepth 8000 in
theorem listen_messageDatagram : ∃ r,
    AsioUdpManager.listen .little UdpReceiver.start messageDatagram =
      .ok (r, .message [97, 98]) := ⟨_, rfl⟩

/-- The structure, the structure without its last byte, and a message. -/
theorem reads_inside_struct :
    ((∃ effect, AsioTcpManager.processPacket .little structFrame = .ok effect) ∧
      ∀ pkt : Packet, structFrame = pkt.serialize .little → pkt.Accepted →
        pkt.Decodable .little) ∧
    ((∀ effect, BoostTcpConnection.prcsPacket .little structFrame.dropLast ≠ .ok effect) ∧
      ¬ ∀ pkt : Packet, structFrame.dropLast = pkt.serialize .little → pkt.Accepted →
        pkt.Decodable .little ∧ pkt.DecodableFirst .little) ∧
    (AsioUdpManager.listen .little UdpReceiver.start messageDatagram ≠ .error .read ∧
      ∀ pkt : Packet,
        (UdpReceiver.start.buffer.receive messageDatagram).cells = pkt.serialize .little →
          pkt.DecodableMessage .little) := by
  obtain ⟨hframes, hdatagrams⟩ := reads_inside_iff .little
  have hwhole : ∃ effect, AsioTcpManager.processPacket .little structFrame = .ok effect :=
    ⟨_, rfl⟩
  have hcut : BoostTcpConnection.prcsPacket .little structFrame.dropLast = .error .read := rfl
  have hcutIff := (hframes structFrame.dropLast (by decide)).2
  obtain ⟨r, hlisten⟩ := listen_messageDatagram
  have hinside : AsioUdpManager.listen .little UdpReceiver.start messageDatagram ≠
      .error .read := by
    rw [hlisten]
    simp
  refine ⟨⟨hwhole, ((hframes structFrame (by decide)).1.mp hwhole).2⟩,
    ⟨fun effect => by rw [hcut]; simp, fun hall => ?_⟩, hinside,
    (hdatagrams UdpReceiver.start messageDatagram).1.mp hinside (by decide)⟩
  obtain ⟨effect, hok⟩ := hcutIff.mpr ⟨by decide, hall⟩
  rw [hcut] at hok
  cases hok

end P2PWatcher
