import P2PWatcher.Memory.Layout
import P2PWatcher.Wire.Copies
import P2PWatcher.Wire.Packet

/-!
# The copies of the header code

`Packet::serialize` is written once for each program, and the walk over the header once for
each of the four receivers. A line of these functions copies one member with a number of bytes
of its own, and a walk advances its offset by a number of its own as well; the tables
below are the lines of each copy. All of them go over the nine members in one order and copy
the whole of each, so that every copy of one is the inverse of every copy of the other
(`parse_serialize_copies`).
-/

namespace P2PWatcher

open Memory

/-- The members that are copied one by one. -/
inductive Member where
  | serverHash
  | totalDataSize
  | totalCntPackets
  | curPacketNumber
  | curPacketSize
  | isFirst
  | isLast
  | isCompressed
  | dType
  deriving DecidableEq, Repr

namespace Member

def all : List Member :=
  [serverHash, totalDataSize, totalCntPackets, curPacketNumber, curPacketSize, isFirst, isLast,
    isCompressed, dType]

/-- The bytes of the member in the packed structure. -/
def size : Member → ℕ
  | serverHash | totalCntPackets | curPacketNumber | curPacketSize | dType => 2
  | totalDataSize => 4
  | isFirst | isLast | isCompressed => 1

def image (e : Endian) : Member → Packet → List UInt8
  | serverHash, pkt => put16 e pkt.header.serverHash
  | totalDataSize, pkt => put32 e pkt.header.totalDataSize
  | totalCntPackets, pkt => put16 e pkt.header.totalCntPackets
  | curPacketNumber, pkt => put16 e pkt.header.curPacketNumber
  | curPacketSize, pkt => put16 e pkt.header.curPacketSize
  | isFirst, pkt => put8 pkt.header.isFirst
  | isLast, pkt => put8 pkt.header.isLast
  | isCompressed, pkt => put8 pkt.header.isCompressed
  | dType, pkt => put16 e pkt.dType

def store (e : Endian) : Member → List UInt8 → Packet → Packet
  | serverHash, xs, pkt => { pkt with header.serverHash := get16 e xs }
  | totalDataSize, xs, pkt => { pkt with header.totalDataSize := get32 e xs }
  | totalCntPackets, xs, pkt => { pkt with header.totalCntPackets := get16 e xs }
  | curPacketNumber, xs, pkt => { pkt with header.curPacketNumber := get16 e xs }
  | curPacketSize, xs, pkt => { pkt with header.curPacketSize := get16 e xs }
  | isFirst, xs, pkt => { pkt with header.isFirst := get8 xs }
  | isLast, xs, pkt => { pkt with header.isLast := get8 xs }
  | isCompressed, xs, pkt => { pkt with header.isCompressed := get8 xs }
  | dType, xs, pkt => { pkt with dType := get16 e xs }

theorem mem_all (m : Member) : m ∈ all := by
  cases m <;> decide

theorem nodup_all : all.Nodup := by
  decide

theorem image_length (e : Endian) (m : Member) (pkt : Packet) :
    (image e m pkt).length = size m := by
  cases m <;> simp [image, size]

theorem image_store (e : Endian) (m : Member) (xs : List UInt8) (pkt : Packet)
    (h : xs.length = size m) : image e m (store e m xs pkt) = xs := by
  cases m <;> first
    | exact put16_get16 e xs h
    | exact put32_get32 e xs h
    | exact put8_get8 xs h

theorem image_store_of_ne (e : Endian) (m m' : Member) (xs : List UInt8) (pkt : Packet)
    (h : m ≠ m') : image e m' (store e m xs pkt) = image e m' pkt := by
  cases m <;> cases m' <;> first | rfl | exact absurd rfl h

theorem eq_of_image (e : Endian) (p q : Packet) (h : ∀ m, image e m p = image e m q)
    (hbuffer : p.buffer = q.buffer) : p = q := by
  obtain ⟨⟨h0, h1, h2, h3, h4, h5, h6, h7⟩, d, bs⟩ := p
  obtain rfl : h0 = q.header.serverHash := by simpa [image] using congrArg (get16 e) (h serverHash)
  obtain rfl : h1 = q.header.totalDataSize := by
    simpa [image] using congrArg (get32 e) (h totalDataSize)
  obtain rfl : h2 = q.header.totalCntPackets := by
    simpa [image] using congrArg (get16 e) (h totalCntPackets)
  obtain rfl : h3 = q.header.curPacketNumber := by
    simpa [image] using congrArg (get16 e) (h curPacketNumber)
  obtain rfl : h4 = q.header.curPacketSize := by
    simpa [image] using congrArg (get16 e) (h curPacketSize)
  obtain rfl : h5 = q.header.isFirst := by simpa [image] using congrArg get8 (h isFirst)
  obtain rfl : h6 = q.header.isLast := by simpa [image] using congrArg get8 (h isLast)
  obtain rfl : h7 = q.header.isCompressed := by simpa [image] using congrArg get8 (h isCompressed)
  obtain rfl : d = q.dType := by simpa [image] using congrArg (get16 e) (h dType)
  obtain rfl : bs = q.buffer := hbuffer
  rfl

end Member

/-- The members of a packet, beside its payload. -/
def Packet.layout (e : Endian) : Layout Packet Member (List UInt8) where
  size := Member.size
  image := Member.image e
  store := Member.store e
  rest := Packet.buffer
  image_length := Member.image_length e
  image_store := Member.image_store e
  image_store_of_ne := Member.image_store_of_ne e
  rest_store m xs pkt := by cases m <;> rfl
  ext := Member.eq_of_image e

namespace Packet

/-- A `serialize` with these lines. -/
def serializeBy (lines : List (Member × ℕ)) (e : Endian) (pkt : Packet) :
    Except Fault (List UInt8) := do
  let buf ← (layout e).insertAll pkt lines
  .ok (buf ++ pkt.buffer)

/-- A walk with these lines over the header of a new packet, and the rest as its payload. -/
def parseBy (lines : List (Member × ℕ × ℕ)) (e : Endian) (buf : List UInt8) :
    Except Fault Packet := do
  let (off, pkt) ← (layout e).walk buf lines 0 {}
  let buffer ← suffixFrom buf off
  .ok { pkt with buffer }

theorem images_all (e : Endian) (pkt : Packet) :
    (layout e).images Member.all pkt = pkt.preamble e := by
  simp [Layout.images, layout, Member.all, Member.image, preamble]

theorem serializeBy_whole (e : Endian) (pkt : Packet) :
    serializeBy ((layout e).whole Member.all) e pkt = .ok (pkt.serialize e) := by
  rw [serializeBy, Layout.insertAll_whole, images_all]
  rfl

theorem onlyReads_parse (e : Endian) (buf : List UInt8) : OnlyReads (parse e buf) := by
  refine ((onlyReads_readAt _ _ _).map _).bind fun _ => ?_
  refine ((onlyReads_readAt _ _ _).map _).bind fun _ => ?_
  refine ((onlyReads_readAt _ _ _).map _).bind fun _ => ?_
  refine ((onlyReads_readAt _ _ _).map _).bind fun _ => ?_
  refine ((onlyReads_readAt _ _ _).map _).bind fun _ => ?_
  refine ((onlyReads_readAt _ _ _).map _).bind fun _ => ?_
  refine ((onlyReads_readAt _ _ _).map _).bind fun _ => ?_
  refine ((onlyReads_readAt _ _ _).map _).bind fun _ => ?_
  refine ((onlyReads_readAt _ _ _).map _).bind fun _ => ?_
  exact (onlyReads_suffixFrom _ _).bind fun _ => onlyReads_ok _

theorem parseBy_whole (e : Endian) (buf : List UInt8) :
    parseBy ((layout e).wholeSteps Member.all) e buf = parse e buf := by
  have hwalk := (layout e).walk_whole_eq_ok_iff buf Member.nodup_all Member.mem_all {}
  refine OnlyReads.eq_of_ok_iff ?_ (onlyReads_parse e buf) fun pkt => ?_
  · exact ((layout e).onlyReads_walk buf _ _ _).bind fun _ =>
      (onlyReads_suffixFrom _ _).bind fun _ => onlyReads_ok _
  · rw [parse_eq_ok_iff, serialize, ← holds_zero_and_suffixFrom_iff, parseBy, bind_eq_ok_iff]
    constructor
    · rintro ⟨⟨off, pkt'⟩, hpkt', h⟩
      obtain ⟨rfl, hholds, -⟩ := (hwalk off pkt').mp hpkt'
      obtain ⟨buffer, hbuffer, hpkt⟩ := (bind_eq_ok_iff _ _ _).mp h
      obtain rfl := Except.ok.inj hpkt
      rw [images_all] at hholds hbuffer
      exact ⟨hholds, hbuffer⟩
    · rintro ⟨hholds, hbuffer⟩
      have himages : (layout e).images Member.all { pkt with buffer := [] } = pkt.preamble e :=
        images_all e _
      refine ⟨((pkt.preamble e).length, { pkt with buffer := [] }), ?_, ?_⟩
      · rw [hwalk, himages]
        exact ⟨rfl, hholds, rfl⟩
      · exact (bind_eq_ok_iff _ _ _).mpr ⟨pkt.buffer, hbuffer, rfl⟩

end Packet

/-! ## The copies -/

/-- The lines of `Packet::serialize`. -/
def Program.serializeLines : Program → List (Member × ℕ)
  | client => [
      (.serverHash, 2), (.totalDataSize, 4), (.totalCntPackets, 2), (.curPacketNumber, 2),
      (.curPacketSize, 2), (.isFirst, 1), (.isLast, 1), (.isCompressed, 1), (.dType, 2)]
  | server => [
      (.serverHash, 2), (.totalDataSize, 4), (.totalCntPackets, 2), (.curPacketNumber, 2),
      (.curPacketSize, 2), (.isFirst, 1), (.isLast, 1), (.isCompressed, 1), (.dType, 2)]

def Program.serialize (p : Program) (e : Endian) (pkt : Packet) : Except Fault (List UInt8) :=
  Packet.serializeBy p.serializeLines e pkt

/-- The classes that receive packets. -/
inductive Receiver where
  | asioTcpManager
  | asioUdpManager
  | boostTcpConnection
  | boostUdpConnection
  deriving DecidableEq, Repr

/-- The lines at the top of `processPacket` and `prcsPacket`. -/
def Receiver.parseLines : Receiver → List (Member × ℕ × ℕ)
  | asioTcpManager => [
      (.serverHash, 2, 2), (.totalDataSize, 4, 4), (.totalCntPackets, 2, 2),
      (.curPacketNumber, 2, 2), (.curPacketSize, 2, 2), (.isFirst, 1, 1), (.isLast, 1, 1),
      (.isCompressed, 1, 1), (.dType, 2, 2)]
  | asioUdpManager => [
      (.serverHash, 2, 2), (.totalDataSize, 4, 4), (.totalCntPackets, 2, 2),
      (.curPacketNumber, 2, 2), (.curPacketSize, 2, 2), (.isFirst, 1, 1), (.isLast, 1, 1),
      (.isCompressed, 1, 1), (.dType, 2, 2)]
  | boostTcpConnection => [
      (.serverHash, 2, 2), (.totalDataSize, 4, 4), (.totalCntPackets, 2, 2),
      (.curPacketNumber, 2, 2), (.curPacketSize, 2, 2), (.isFirst, 1, 1), (.isLast, 1, 1),
      (.isCompressed, 1, 1), (.dType, 2, 2)]
  | boostUdpConnection => [
      (.serverHash, 2, 2), (.totalDataSize, 4, 4), (.totalCntPackets, 2, 2),
      (.curPacketNumber, 2, 2), (.curPacketSize, 2, 2), (.isFirst, 1, 1), (.isLast, 1, 1),
      (.isCompressed, 1, 1), (.dType, 2, 2)]

def Receiver.parse (r : Receiver) (e : Endian) (buf : List UInt8) : Except Fault Packet :=
  Packet.parseBy r.parseLines e buf

theorem Program.serialize_eq (p : Program) (e : Endian) (pkt : Packet) :
    p.serialize e pkt = .ok (pkt.serialize e) := by
  rw [← Packet.serializeBy_whole]
  cases p <;> rfl

theorem Receiver.parse_eq (r : Receiver) (e : Endian) (buf : List UInt8) :
    r.parse e buf = Packet.parse e buf := by
  rw [← Packet.parseBy_whole]
  cases r <;> rfl

/-- Whichever copies a packet and a buffer go through, they come back, and the walks agree. -/
theorem parse_serialize_copies (p : Program) (r : Receiver) (e : Endian) :
    (∀ pkt, ∃ buf, p.serialize e pkt = .ok buf ∧ r.parse e buf = .ok pkt) ∧
      (∀ buf, 17 ≤ buf.length →
        ∃ pkt, r.parse e buf = .ok pkt ∧ p.serialize e pkt = .ok buf) ∧
      ∀ (r' : Receiver) (buf : List UInt8), r.parse e buf = r'.parse e buf := by
  refine ⟨fun pkt => ⟨_, p.serialize_eq e pkt, ?_⟩, fun buf hbuf => ?_, fun r' buf => ?_⟩
  · rw [r.parse_eq, Packet.parse_serialize]
  · obtain ⟨pkt, hpkt⟩ := Packet.exists_parse_eq_ok e buf hbuf
    refine ⟨pkt, (r.parse_eq e buf).trans hpkt, ?_⟩
    rw [p.serialize_eq, ← (Packet.parse_eq_ok_iff e buf pkt).mp hpkt]
  · rw [r.parse_eq, r'.parse_eq]

/-- A buffer without payload at one of the receivers. -/
theorem parse_serialize_copies_one : ∃ pkt,
    Receiver.boostUdpConnection.parse .little
        [0x39, 5, 0, 0, 0, 0, 1, 0, 1, 0, 17, 0, 1, 1, 0, 2, 0] = .ok pkt ∧
      Program.server.serialize .little pkt =
        .ok [0x39, 5, 0, 0, 0, 0, 1, 0, 1, 0, 17, 0, 1, 1, 0, 2, 0] :=
  (parse_serialize_copies .server .boostUdpConnection .little).2.1 _ (by decide)

end P2PWatcher
