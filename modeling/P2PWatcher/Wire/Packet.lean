import P2PWatcher.Memory.Field

/-!
# The packet

Everything both programs send, over UDP and over TCP, is a `Packet`: the fields
of a `PacketHeader`, the data type `dType` and the payload. `Packet.serialize`
copies every field from memory as it lies there, so all of them are in the byte
order of the sending host. The four receivers begin with the same walk over the
received bytes, `Packet.parse`. It is the exact inverse of `serialize`: a buffer
parses to `p` if and only if it is the serialised `p`, and it parses to something
if and only if it has the 17 bytes of the header and the data type.
-/

namespace P2PWatcher

open Memory

namespace Constants

def serverHash : UInt16 := 1337

def serverPort : UInt16 := 1122

/-- The size of the buffer that one UDP receive fills. -/
def bufferSize : ℕ := 1472

/-- The number of payload bytes that the senders put into one UDP packet. -/
def maxSizeUdp : ℕ := 1472

end Constants

structure PacketHeader where
  serverHash : UInt16 := Constants.serverHash
  totalDataSize : UInt32 := 0
  totalCntPackets : UInt16 := 0
  curPacketNumber : UInt16 := 0
  curPacketSize : UInt16 := 0
  isFirst : UInt8 := 0
  isLast : UInt8 := 0
  isCompressed : UInt8 := 0
  deriving DecidableEq, Repr

/-- `sizeof(PacketHeader)` of the packed structure. -/
def PacketHeader.size : ℕ := 15

structure Packet where
  header : PacketHeader := {}
  dType : UInt16 := 0
  buffer : List UInt8 := []
  deriving DecidableEq, Repr

namespace Packet

/-- The 17 bytes in front of the payload. -/
def preamble (e : Endian) (pkt : Packet) : List UInt8 :=
  put16 e pkt.header.serverHash ++ put32 e pkt.header.totalDataSize ++
    put16 e pkt.header.totalCntPackets ++ put16 e pkt.header.curPacketNumber ++
    put16 e pkt.header.curPacketSize ++ put8 pkt.header.isFirst ++
    put8 pkt.header.isLast ++ put8 pkt.header.isCompressed ++ put16 e pkt.dType

def serialize (e : Endian) (pkt : Packet) : List UInt8 :=
  pkt.preamble e ++ pkt.buffer

/-- The walk over the header at the top of `processPacket` and `prcsPacket`. -/
def parse (e : Endian) (buf : List UInt8) : Except Fault Packet := do
  let serverHash ← read16 e buf 0
  let totalDataSize ← read32 e buf 2
  let totalCntPackets ← read16 e buf 6
  let curPacketNumber ← read16 e buf 8
  let curPacketSize ← read16 e buf 10
  let isFirst ← read8 buf 12
  let isLast ← read8 buf 13
  let isCompressed ← read8 buf 14
  let dType ← read16 e buf 15
  let buffer ← suffixFrom buf 17
  .ok {
    header := {
      serverHash, totalDataSize, totalCntPackets, curPacketNumber, curPacketSize
      isFirst, isLast, isCompressed }
    dType, buffer }

@[simp] theorem preamble_length (e : Endian) (pkt : Packet) :
    (pkt.preamble e).length = 17 := by
  simp [preamble]

@[simp] theorem serialize_length (e : Endian) (pkt : Packet) :
    (pkt.serialize e).length = 17 + pkt.buffer.length := by
  rw [serialize, List.length_append, preamble_length]

/-- A buffer parses to `pkt` exactly when it is the serialised `pkt`. -/
theorem parse_eq_ok_iff (e : Endian) (buf : List UInt8) (pkt : Packet) :
    parse e buf = .ok pkt ↔ buf = pkt.serialize e := by
  rw [serialize, ← holds_zero_and_suffixFrom_iff, preamble_length]
  simp only [preamble, holds_append_iff, List.length_append, put8_length, put16_length,
    put32_length, parse, bind_eq_ok_iff, read8_eq_ok_iff, read16_eq_ok_iff,
    read32_eq_ok_iff, Except.ok.injEq, zero_add, Nat.reduceAdd, and_assoc]
  constructor
  · rintro ⟨_, h0, _, h1, _, h2, _, h3, _, h4, _, h5, _, h6, _, h7, _, h8, _, h9, rfl⟩
    exact ⟨h0, h1, h2, h3, h4, h5, h6, h7, h8, h9⟩
  · rintro ⟨h0, h1, h2, h3, h4, h5, h6, h7, h8, h9⟩
    exact ⟨_, h0, _, h1, _, h2, _, h3, _, h4, _, h5, _, h6, _, h7, _, h8, _, h9, rfl⟩

@[simp] theorem parse_serialize (e : Endian) (pkt : Packet) :
    parse e (pkt.serialize e) = .ok pkt :=
  (parse_eq_ok_iff e _ pkt).mpr rfl

theorem serialize_injective (e : Endian) : Function.Injective (serialize e) := by
  intro p q h
  have hp := parse_serialize e p
  rw [h, parse_serialize] at hp
  exact (Except.ok.inj hp).symm

/-- A buffer with the 17 bytes in front parses to some packet. -/
theorem exists_parse_eq_ok (e : Endian) (buf : List UInt8) (h : 17 ≤ buf.length) :
    ∃ pkt, parse e buf = .ok pkt := by
  have hread : ∀ off n, off + n ≤ 17 → ∃ xs, readAt buf off n = .ok xs := by
    intro off n hle
    exact ⟨_, (readAt_eq_ok_iff buf off n _).mpr ⟨by omega, rfl⟩⟩
  obtain ⟨x0, h0⟩ := hread 0 2 (by omega)
  obtain ⟨x1, h1⟩ := hread 2 4 (by omega)
  obtain ⟨x2, h2⟩ := hread 6 2 (by omega)
  obtain ⟨x3, h3⟩ := hread 8 2 (by omega)
  obtain ⟨x4, h4⟩ := hread 10 2 (by omega)
  obtain ⟨x5, h5⟩ := hread 12 1 (by omega)
  obtain ⟨x6, h6⟩ := hread 13 1 (by omega)
  obtain ⟨x7, h7⟩ := hread 14 1 (by omega)
  obtain ⟨x8, h8⟩ := hread 15 2 (by omega)
  have h9 := (suffixFrom_eq_ok_iff buf 17 _).mpr ⟨h, rfl⟩
  simp only [parse, read8, read16, read32, h0, h1, h2, h3, h4, h5, h6, h7, h8, h9]
  exact ⟨_, rfl⟩

theorem exists_parse_eq_ok_iff (e : Endian) (buf : List UInt8) :
    (∃ pkt, parse e buf = .ok pkt) ↔ 17 ≤ buf.length := by
  constructor
  · rintro ⟨pkt, h⟩
    rw [(parse_eq_ok_iff e buf pkt).mp h, serialize_length]
    exact Nat.le_add_right 17 _
  · exact exists_parse_eq_ok e buf

end Packet

end P2PWatcher
