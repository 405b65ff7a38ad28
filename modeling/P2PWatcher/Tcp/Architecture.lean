import P2PWatcher.Tcp.Stream
import P2PWatcher.Wire.Copies

/-!
# Hosts of two byte orders

`htonl` and `ntohl` are there to pass data to a device of another architecture. They are
applied to the lengths and to the `int`s inside the payloads. The length in front of a frame,
the fields of the header, the data type, the port of `FirstData` and the `double` of
`TestStruct` are copied as they lie in memory, so a host of the other byte order
reads them right exactly when their bytes are the same from both ends (`Mirrored`). For
the hash 1337 they are not, so no packet of the two programs gets across.
-/

namespace P2PWatcher

open Memory

/-- The fields that `Packet.serialize` copies raw. -/
structure Packet.Mirrored (pkt : Packet) : Prop where
  serverHash : Memory.Mirrored 2 pkt.header.serverHash.toNat
  totalDataSize : Memory.Mirrored 4 pkt.header.totalDataSize.toNat
  totalCntPackets : Memory.Mirrored 2 pkt.header.totalCntPackets.toNat
  curPacketNumber : Memory.Mirrored 2 pkt.header.curPacketNumber.toNat
  curPacketSize : Memory.Mirrored 2 pkt.header.curPacketSize.toNat
  dType : Memory.Mirrored 2 pkt.dType.toNat

/-- The packet `pkt` with the value `v` as its payload. -/
def Copy.packet {α : Type} (s : Copy α) (e : Endian) (pkt : Packet) (v : α) : Packet :=
  { pkt with buffer := s.serialize e v }

/-- The receiver of the frame gets the length, the packet and the value in it as they were
sent. -/
structure FrameDecoded {α : Type} (s r : Copy α) (es er : Endian) (pkt : Packet) (v : α) :
    Prop where
  size : (get32 er ((frame es (s.packet es pkt v)).take 4)).toNat =
    ((s.packet es pkt v).serialize es).length
  packet : Packet.parse er ((s.packet es pkt v).serialize es) = .ok (s.packet es pkt v)
  payload : r.deserialize er (s.serialize es v) = .ok v

/-! ## What two hosts write -/

theorem append_eq_append_iff_of_length_eq {α : Type*} {xs xs' : List α}
    (h : xs.length = xs'.length) (ys ys' : List α) :
    xs ++ ys = xs' ++ ys' ↔ xs = xs' ∧ ys = ys' := by
  constructor
  · exact fun heq => List.append_inj heq h
  · rintro ⟨rfl, rfl⟩
    rfl

theorem Packet.serialize_eq_serialize_iff (e e' : Endian) (pkt : Packet) :
    pkt.serialize e = pkt.serialize e' ↔ e = e' ∨ pkt.Mirrored := by
  rw [serialize, serialize, List.append_cancel_right_eq, preamble, preamble]
  simp only [append_eq_append_iff_of_length_eq, List.length_append, put16_length, put32_length,
    put8_length, put16_eq_put16_iff, put32_eq_put32_iff, and_true]
  constructor
  · rintro ⟨⟨⟨⟨⟨h1, h2⟩, h3⟩, h4⟩, h5⟩, h6⟩
    by_cases h : e = e'
    · exact .inl h
    · exact .inr ⟨h1.resolve_left h, h2.resolve_left h, h3.resolve_left h, h4.resolve_left h,
        h5.resolve_left h, h6.resolve_left h⟩
  · rintro (h | h)
    · exact ⟨⟨⟨⟨⟨.inl h, .inl h⟩, .inl h⟩, .inl h⟩, .inl h⟩, .inl h⟩
    · exact ⟨⟨⟨⟨⟨.inr h.serverHash, .inr h.totalDataSize⟩, .inr h.totalCntPackets⟩,
        .inr h.curPacketNumber⟩, .inr h.curPacketSize⟩, .inr h.dType⟩

theorem putStr_eq_putStr (e e' : Endian) (s : List UInt8) : putStr e s = putStr e' s := by
  rw [putStr, putStr, put32_htonl, put32_htonl]

theorem putInt_eq_putInt (e e' : Endian) : putInt e = putInt e' := by
  funext i
  rw [putInt, putInt, put32_htonl, put32_htonl]

theorem TcpData.FirstData.serialize_eq_serialize_iff (e e' : Endian) (v : FirstData) :
    v.serialize e = v.serialize e' ↔ e = e' ∨ Mirrored 2 v.clientPort.toNat := by
  rw [serialize, serialize, putStr_eq_putStr e e', List.append_cancel_left_eq,
    put16_eq_put16_iff]

theorem TcpData.TestStruct.serilize_eq_serilize_iff (e e' : Endian) (v : TestStruct) :
    v.serilize e = v.serilize e' ↔ e = e' ∨ Mirrored 8 v.c.toNat := by
  rw [serilize, serilize, putStr_eq_putStr e e', putInt_eq_putInt e e', put32_htonl,
    put32_htonl, List.append_cancel_right_eq, List.append_cancel_right_eq,
    List.append_cancel_left_eq, put64_eq_put64_iff]

/-! ## What the other host reads -/

theorem Packet.parse_serialize_iff (es er : Endian) (pkt : Packet) :
    parse er (pkt.serialize es) = .ok pkt ↔ es = er ∨ pkt.Mirrored := by
  rw [parse_eq_ok_iff, serialize_eq_serialize_iff]

theorem Copy.packet_mirrored_iff {α : Type} (s : Copy α) (e : Endian) (pkt : Packet) (v : α) :
    (s.packet e pkt v).Mirrored ↔ pkt.Mirrored :=
  ⟨fun h => ⟨h.1, h.2, h.3, h.4, h.5, h.6⟩, fun h => ⟨h.1, h.2, h.3, h.4, h.5, h.6⟩⟩

/-- The length in front of a frame. -/
theorem size_iff (es er : Endian) (pkt : Packet) :
    (get32 er ((frame es pkt).take 4)).toNat = (pkt.serialize es).length ↔
      (pkt.serialize es).length < 2 ^ 32 ∧
        (es = er ∨ Mirrored 4 (pkt.serialize es).length) := by
  rw [frame, List.take_left' (put32_length ..)]
  generalize (pkt.serialize es).length = n
  constructor
  · intro h
    have hlt : n < 2 ^ 32 := by
      rw [← h]
      exact UInt32.toNat_lt _
    have hnat : (UInt32.ofNat n).toNat = n := UInt32.toNat_ofNat_of_lt' hlt
    have hread : get32 er (put32 es (UInt32.ofNat n)) = UInt32.ofNat n := by
      apply UInt32.toNat_inj.mp
      rw [h, hnat]
    rw [get32_put32_iff, hnat] at hread
    exact ⟨hlt, hread⟩
  · rintro ⟨hlt, h⟩
    have hnat : (UInt32.ofNat n).toNat = n := UInt32.toNat_ofNat_of_lt' hlt
    rw [(get32_put32_iff es er _).mpr (by rwa [hnat]), hnat]

/-- A receiver decodes the bytes of a sender exactly when it would have written them too. -/
theorem Copy.Implements.deserialize_iff {α : Type} {r : Copy α} {e : Endian}
    {enc : α → List UInt8} (hr : r.Implements e enc) {data : List UInt8} {v : α}
    (hdata : data.length < 2 ^ 32) (hlen : data.length = (enc v).length) :
    r.deserialize e data = .ok v ↔ data = enc v := by
  rw [hr.deserialize data v hdata]
  constructor
  · rintro ⟨t, rfl⟩
    obtain rfl : t = [] := List.length_eq_zero_iff.mp (by simpa using hlen)
    exact List.append_nil _
  · rintro rfl
    exact ⟨[], (List.append_nil _).symm⟩

/-- The frame of a value whose encoder copies the field behind `raw` as it lies in memory. -/
theorem frameDecoded_iff {α : Type} {s r : Copy α} {es er : Endian}
    (enc : Endian → α → List UInt8) (hs : s.Implements es (enc es))
    (hr : r.Implements er (enc er)) {v : α} {raw : Prop}
    (hlen : (enc es v).length = (enc er v).length)
    (hraw : enc es v = enc er v ↔ es = er ∨ raw) (pkt : Packet) :
    FrameDecoded s r es er pkt v ↔ 17 + (s.serialize es v).length < 2 ^ 32 ∧
      (es = er ∨ Mirrored 4 (17 + (s.serialize es v).length) ∧ pkt.Mirrored ∧ raw) := by
  have hsize := size_iff es er (s.packet es pkt v)
  have hpacket := Packet.parse_serialize_iff es er (s.packet es pkt v)
  rw [Packet.serialize_length, Copy.packet] at hsize
  rw [s.packet_mirrored_iff] at hpacket
  have hpayload : 17 + (s.serialize es v).length < 2 ^ 32 →
      (r.deserialize er (s.serialize es v) = .ok v ↔ es = er ∨ raw) := by
    intro hlt
    rw [hs.serialize] at hlt ⊢
    rw [hr.deserialize_iff (by omega) hlen, hraw]
  constructor
  · rintro ⟨hfront, hrest, hvalue⟩
    rw [Packet.serialize_length, Copy.packet, hsize] at hfront
    obtain ⟨hlt, hfront⟩ := hfront
    refine ⟨hlt, ?_⟩
    by_cases h : es = er
    · exact .inl h
    · exact .inr ⟨hfront.resolve_left h, (hpacket.mp hrest).resolve_left h,
        ((hpayload hlt).mp hvalue).resolve_left h⟩
  · rintro ⟨hlt, h⟩
    refine ⟨?_, hpacket.mpr (h.imp_right fun h => h.2.1),
      (hpayload hlt).mpr (h.imp_right fun h => h.2.2)⟩
    rw [Packet.serialize_length, Copy.packet]
    exact hsize.mpr ⟨hlt, h.imp_right fun h => h.1⟩

/-- A string of 2^32 bytes or more loses its upper part, on hosts of any byte order. -/
theorem UdpData.TestMessage.deserialize_serialize_iff (es er : Endian) (m : TestMessage) :
    deserialize er (m.serialize es) = .ok m ↔ m.message.length < 2 ^ 32 := by
  have hlen : ntohl er <$> read32 er (m.serialize es) 0 =
      .ok (UInt32.ofNat m.message.length) := by
    rw [map_ntohl_read32_eq_ok_iff, holds_zero_iff, serialize, putStr_eq_putStr es er]
    exact ⟨m.message, rfl⟩
  have hdrop : (m.serialize es).drop 4 = m.message := List.drop_left' (put32_length ..)
  have htext : readAt (m.serialize es) 4 (m.message.length % 2 ^ 32) =
      .ok (m.message.take (m.message.length % 2 ^ 32)) := by
    rw [readAt_eq_ok_iff, hdrop, serialize, putStr_length]
    exact ⟨Nat.add_le_add_left (Nat.mod_le _ _) 4, rfl⟩
  have hread : deserialize er (m.serialize es) =
      .ok { message := m.message.take (m.message.length % 2 ^ 32) } := by
    rw [deserialize, hlen]
    simp only [bind, Except.bind, UInt32.toNat_ofNat', show advance 32 0 4 = 4 from rfl, htext]
  rw [hread, Except.ok.injEq, TestMessage.mk.injEq, List.take_eq_self_iff]
  omega

/-- Exactly what a host of the byte order `er` reads as one of the byte order `es` has
written it: the length in front of a frame, a packet, a message, and a whole frame with one of
the other two types. -/
theorem decoded_iff (s r : Program) (es er : Endian) (pkt : Packet) :
    (∀ size : UInt32, get32 er (put32 es size) = size ↔ es = er ∨ Mirrored 4 size.toNat) ∧
    (Packet.parse er (pkt.serialize es) = .ok pkt ↔ es = er ∨ pkt.Mirrored) ∧
    (∀ m : UdpData.TestMessage,
      r.testMessage.deserialize er (s.testMessage.serialize es m) = .ok m ↔
        m.message.length < 2 ^ 32) ∧
    (∀ v : TcpData.FirstData, FrameDecoded s.firstData r.firstData es er pkt v ↔
      17 + (s.firstData.serialize es v).length < 2 ^ 32 ∧
        (es = er ∨ Mirrored 4 (17 + (s.firstData.serialize es v).length) ∧ pkt.Mirrored ∧
          Mirrored 2 v.clientPort.toNat)) ∧
    ∀ v : TcpData.TestStruct, FrameDecoded s.testStruct r.testStruct es er pkt v ↔
      17 + (s.testStruct.serialize es v).length < 2 ^ 32 ∧
        (es = er ∨ Mirrored 4 (17 + (s.testStruct.serialize es v).length) ∧ pkt.Mirrored ∧
          Mirrored 8 v.c.toNat) := by
  refine ⟨get32_put32_iff es er, pkt.parse_serialize_iff es er,
    UdpData.TestMessage.deserialize_serialize_iff es er, fun v => ?_, fun v => ?_⟩
  · refine frameDecoded_iff TcpData.FirstData.serialize (implements_firstData s es)
      (implements_firstData r er) ?_ (v.serialize_eq_serialize_iff es er) pkt
    rw [v.serialize_length, v.serialize_length]
  · refine frameDecoded_iff TcpData.TestStruct.serilize (implements_testStruct s es)
      (implements_testStruct r er) ?_ (v.serilize_eq_serilize_iff es er) pkt
    rw [v.serilize_length, v.serilize_length]

/-- The hash that both programs put into every header. -/
theorem Packet.not_mirrored {pkt : Packet}
    (h : pkt.header.serverHash = Constants.serverHash) : ¬ pkt.Mirrored := by
  intro hpkt
  have hhash := hpkt.serverHash
  rw [h] at hhash
  exact absurd hhash (by decide)

/-- The length of the smallest frame, a port, and the frame with both. -/
theorem decoded_fails :
    get32 .big (put32 .little 23) = 385875968 ∧
      TcpData.FirstData.deserialize .big
        (TcpData.FirstData.serialize .little { clientPort := 1122 }) =
          .ok { clientPort := 25092 } ∧
      ¬ ∀ (s r : Program) (es er : Endian) (pkt : Packet) (v : TcpData.FirstData),
        FrameDecoded s.firstData r.firstData es er pkt v := by
  refine ⟨by decide, by decide, fun h => ?_⟩
  have hpacket := (h .server .client .little .big {} { clientPort := 1122 }).packet
  rw [Packet.parse_serialize_iff, or_iff_right (by decide)] at hpacket
  exact Packet.not_mirrored rfl hpacket

end P2PWatcher
