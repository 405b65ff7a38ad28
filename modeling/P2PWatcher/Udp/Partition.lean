import P2PWatcher.Udp.Image
import Mathlib.Data.List.Nodup

/-!
# What the senders cut a buffer into

Both programs send the same packets of a buffer (`SentBy`), and these packets are a
partition of it: the payloads in order are the buffer, all but the last are full, the
flags mark the two ends, and the sizes in the headers are the real ones
(`sent_partitions`). That holds for every buffer that an `int` can index. The number of a
packet and the number of packets have 16 bits only, so they are right exactly up to 65535
packets (`numbersKept_iff`).
-/

namespace P2PWatcher

open Memory Sequence

/-- The packets that the client's `sendData` and, for each registered client, the server's
`broadCast` send for `buf` on an open socket, to whatever is an address. -/
structure SentBy (e : Endian) (dataType : UInt16) (buf : List UInt8) (pkts : List Packet) :
    Prop where
  sendData : ∀ (asio : Asio) (addr : List UInt8), asio.makeAddress addr = true →
    BoostUdpConnection.sendData asio e true addr dataType buf =
      .ok (pkts.map fun pkt => ({ addr, port := Constants.serverPort }, pkt.serialize e))
  broadCast : ∀ (asio : Asio) (cl : List (UInt32 × ClientInfo)),
    (∀ client ∈ cl, asio.makeAddress client.2.addr = true) →
      AsioUdpManager.broadCast asio e true cl dataType buf =
        .ok (cl.map fun client => (client.2, pkts.map (Packet.serialize e)))

/-- The packets are a partition of `buf`, and their headers say so. -/
structure Partitions (e : Endian) (buf : List UInt8) (pkts : List Packet) : Prop where
  payloads : pkts.flatMap Packet.buffer = buf
  full : ∀ i (h : i < pkts.length), i + 1 ≠ pkts.length → pkts[i].buffer.length = 1472
  last : ∀ i (h : i < pkts.length), i + 1 = pkts.length →
    1 ≤ pkts[i].buffer.length ∧ pkts[i].buffer.length ≤ 1472
  isFirst : ∀ i (h : i < pkts.length), pkts[i].header.isFirst = if i = 0 then 1 else 0
  isLast : ∀ i (h : i < pkts.length),
    pkts[i].header.isLast = if i + 1 = pkts.length then 1 else 0
  totalDataSize : ∀ pkt ∈ pkts, pkt.header.totalDataSize.toNat = buf.length
  curPacketSize : ∀ pkt ∈ pkts, pkt.header.curPacketSize.toNat = (pkt.serialize e).length

/-- The packets of `buf`. -/
def fragmentPackets (dataType : UInt16) (buf : List UInt8) : List Packet :=
  (List.range (fragmentCount buf.length)).map (fragment dataType buf)

@[simp] theorem fragmentPackets_length (dataType : UInt16) (buf : List UInt8) :
    (fragmentPackets dataType buf).length = fragmentCount buf.length := by
  simp [fragmentPackets]

theorem fragmentPackets_getElem (dataType : UInt16) (buf : List UInt8) (i : ℕ)
    (h : i < (fragmentPackets dataType buf).length) :
    (fragmentPackets dataType buf)[i] = fragment dataType buf i := by
  simp [fragmentPackets]

theorem mem_fragmentPackets_iff (dataType : UInt16) (buf : List UInt8) (pkt : Packet) :
    pkt ∈ fragmentPackets dataType buf ↔
      ∃ i < fragmentCount buf.length, fragment dataType buf i = pkt := by
  simp [fragmentPackets]

theorem fragments_eq (e : Endian) (dataType : UInt16) (buf : List UInt8) :
    fragments e dataType buf = (fragmentPackets dataType buf).map (Packet.serialize e) := by
  rw [fragments, fragmentPackets, List.map_map]
  rfl

/-- The payloads of the first `k` packets. -/
theorem flatMap_buffer_take (dataType : UInt16) (buf : List UInt8) {k : ℕ}
    (hk : k ≤ fragmentCount buf.length) :
    ((fragmentPackets dataType buf).take k).flatMap Packet.buffer = buf.take (1472 * k) := by
  rw [fragmentPackets, ← List.map_take, List.take_range, Nat.min_eq_left hk,
    List.flatMap_map, ← flatMap_chunk]
  rfl

theorem sentBy_fragmentPackets (e : Endian) (dataType : UInt16) (buf : List UInt8)
    (h : buf.length < 2 ^ 31) : SentBy e dataType buf (fragmentPackets dataType buf) := by
  constructor
  · intro asio addr haddr
    rw [BoostUdpConnection.sendData_of_lt e haddr dataType buf h, fragments_eq, List.map_map]
    rfl
  · intro asio cl hcl
    rw [AsioUdpManager.broadCast_of_lt e hcl dataType buf h, fragments_eq]

/-- Only these packets are sent. -/
theorem SentBy.eq {e : Endian} {dataType : UInt16} {buf : List UInt8} {pkts : List Packet}
    (hsent : SentBy e dataType buf pkts) (h : buf.length < 2 ^ 31) :
    pkts = fragmentPackets dataType buf := by
  have hpackets := BoostUdpConnection.packets_of_sendData
    (hsent.sendData .loopback localhost Asio.makeAddress_loopback)
  rw [packets_of_lt e dataType buf h, List.map_map, fragments_eq] at hpackets
  exact (List.map_injective_iff.mpr (Packet.serialize_injective e)
    (Except.ok.inj hpackets)).symm

/-! ## The partition -/

theorem fragment_curPacketSize (e : Endian) (dataType : UInt16) (buf : List UInt8) (i : ℕ) :
    (fragment dataType buf i).header.curPacketSize.toNat =
      ((fragment dataType buf i).serialize e).length := by
  have hlen := fragment_buffer_length dataType buf i
  have hlt : 17 + (fragment dataType buf i).buffer.length < UInt16.size :=
    Nat.lt_of_le_of_lt (Nat.add_le_add_left (hlen.le.trans (Nat.min_le_left ..)) 17) (by decide)
  rw [Packet.serialize_length]
  exact UInt16.toNat_ofNat_of_lt' hlt

theorem partitions_fragmentPackets (e : Endian) (dataType : UInt16) (buf : List UInt8)
    (h : buf.length < 2 ^ 31) : Partitions e buf (fragmentPackets dataType buf) := by
  constructor
  · have hcover : buf.length ≤ 1472 * fragmentCount buf.length := by
      rw [fragmentCount]
      omega
    rw [fragmentPackets, List.flatMap_map]
    exact flatMap_chunk_of_le hcover
  · intro i hi hlast
    rw [fragmentPackets_length] at hi hlast
    rw [fragmentPackets_getElem, fragment_buffer_length]
    rw [lt_fragmentCount_iff] at hi
    rw [ne_eq, succ_eq_fragmentCount_iff] at hlast
    omega
  · intro i hi hlast
    rw [fragmentPackets_length] at hi hlast
    rw [fragmentPackets_getElem, fragment_buffer_length]
    rw [lt_fragmentCount_iff] at hi
    omega
  · intro i hi
    rw [fragmentPackets_getElem]
    rfl
  · intro i hi
    rw [fragmentPackets_getElem, fragmentPackets_length]
    rfl
  · intro pkt hpkt
    obtain ⟨i, -, rfl⟩ := (mem_fragmentPackets_iff _ _ _).mp hpkt
    exact UInt32.toNat_ofNat_of_lt' (h.trans (by decide))
  · intro pkt hpkt
    obtain ⟨i, -, rfl⟩ := (mem_fragmentPackets_iff _ _ _).mp hpkt
    exact fragment_curPacketSize e dataType buf i

/-- What both programs send of a buffer. -/
theorem sent_partitions (e : Endian) (dataType : UInt16) (buf : List UInt8)
    (h : buf.length < 2 ^ 31) :
    ∃ pkts, SentBy e dataType buf pkts ∧ Partitions e buf pkts ∧
      (∀ pkt ∈ pkts, pkt.dType = dataType) ∧ (buf = [] → pkts = []) := by
  refine ⟨fragmentPackets dataType buf, sentBy_fragmentPackets e dataType buf h,
    partitions_fragmentPackets e dataType buf h, ?_, ?_⟩
  · intro pkt hpkt
    obtain ⟨i, -, rfl⟩ := (mem_fragmentPackets_iff _ _ _).mp hpkt
    rfl
  · rintro rfl
    rfl

/-- One full packet and one byte. -/
theorem sent_partitions_1473 :
    ∃ pkts, SentBy .little UdpData.DataTypes.image (List.replicate 1473 7) pkts ∧
      Partitions .little (List.replicate 1473 7) pkts ∧
      (∀ pkt ∈ pkts, pkt.dType = UdpData.DataTypes.image) ∧
      (List.replicate 1473 (7 : UInt8) = [] → pkts = []) :=
  sent_partitions .little _ _ (by rw [List.length_replicate]; decide)

/-! ## The numbers -/

/-- The numbers in the headers tell what they are there for: the receiver finds the place of
every payload, no two packets have the same number, none has the number 0, and each knows
how many there are. -/
structure NumbersKept (pkts : List Packet) : Prop where
  offset : ∀ i (h : i < pkts.length), (chunkOffset pkts[i].header.curPacketNumber).toNat =
    ((pkts.take i).flatMap Packet.buffer).length
  number : ∀ i (h : i < pkts.length), pkts[i].header.curPacketNumber.toNat = i + 1
  distinct : (pkts.map fun pkt => pkt.header.curPacketNumber).Nodup
  pos : ∀ pkt ∈ pkts, 1 ≤ pkt.header.curPacketNumber
  total : ∀ pkt ∈ pkts, pkt.header.totalCntPackets.toNat = pkts.length
  size : ∀ pkt ∈ pkts, pkt.header.curPacketSize.toNat = 17 + pkt.buffer.length

/-- Where the sender has cut a payload off. -/
theorem offset_of_lt (dataType : UInt16) (buf : List UInt8) {i : ℕ}
    (h : i < fragmentCount buf.length) :
    (((fragmentPackets dataType buf).take i).flatMap Packet.buffer).length = 1472 * i := by
  rw [flatMap_buffer_take dataType buf h.le, List.length_take]
  rw [lt_fragmentCount_iff] at h
  exact Nat.min_eq_left h.le

/-- Up to 65535 packets nothing is lost. -/
theorem numbersKept_of_le (dataType : UInt16) (buf : List UInt8)
    (h : fragmentCount buf.length ≤ 65535) : NumbersKept (fragmentPackets dataType buf) := by
  have hnumber : ∀ i < fragmentCount buf.length,
      (fragment dataType buf i).header.curPacketNumber.toNat = i + 1 := by
    intro i hi
    exact UInt16.toNat_ofNat_of_lt' (show i + 1 < UInt16.size from
      Nat.lt_of_le_of_lt hi (Nat.lt_of_le_of_lt h (by decide)))
  constructor
  · intro i hi
    rw [fragmentPackets_length] at hi
    rw [offset_of_lt dataType buf hi, fragmentPackets_getElem]
    exact chunkOffset_ofNat_succ i (by omega)
  · intro i hi
    rw [fragmentPackets_length] at hi
    rw [fragmentPackets_getElem, hnumber i hi]
  · rw [fragmentPackets, List.map_map]
    refine List.Nodup.map_on ?_ List.nodup_range
    intro i hi j hj heq
    have hnat := congrArg UInt16.toNat heq
    rw [Function.comp_apply, Function.comp_apply, hnumber i (List.mem_range.mp hi),
      hnumber j (List.mem_range.mp hj)] at hnat
    omega
  · intro pkt hpkt
    obtain ⟨i, hi, rfl⟩ := (mem_fragmentPackets_iff _ _ _).mp hpkt
    rw [UInt16.le_iff_toNat_le, hnumber i hi]
    exact Nat.le_add_left 1 i
  · intro pkt hpkt
    obtain ⟨i, hi, rfl⟩ := (mem_fragmentPackets_iff _ _ _).mp hpkt
    rw [fragmentPackets_length]
    exact UInt16.toNat_ofNat_of_lt' (Nat.lt_of_le_of_lt h (by decide))
  · intro pkt hpkt
    obtain ⟨i, hi, rfl⟩ := (mem_fragmentPackets_iff _ _ _).mp hpkt
    rw [fragment_curPacketSize .little, Packet.serialize_length]

/-- The packet with the index 65535 gets the number 0. -/
theorem not_numbersKept_of_lt (dataType : UInt16) (buf : List UInt8)
    (h : 65535 < fragmentCount buf.length) : ¬ NumbersKept (fragmentPackets dataType buf) := by
  intro hkept
  have hlt : 65535 < (fragmentPackets dataType buf).length := by
    rwa [fragmentPackets_length]
  have hnumber := hkept.number 65535 hlt
  rw [fragmentPackets_getElem] at hnumber
  exact absurd hnumber (by simp [fragment])

/-- Exactly up to 65535 full packets the 16-bit numbers are right. -/
theorem numbersKept_iff (e : Endian) (dataType : UInt16) (buf : List UInt8)
    (h : buf.length < 2 ^ 31) (pkts : List Packet) (hsent : SentBy e dataType buf pkts) :
    NumbersKept pkts ↔ buf.length ≤ 65535 * 1472 := by
  obtain rfl := hsent.eq h
  have hcount : fragmentCount buf.length ≤ 65535 ↔ buf.length ≤ 65535 * 1472 := by
    rw [fragmentCount]
    omega
  rw [← hcount]
  constructor
  · intro hkept
    by_contra hlt
    exact not_numbersKept_of_lt dataType buf (Nat.not_le.mp hlt) hkept
  · exact numbersKept_of_le dataType buf

/-- One byte more than 65535 full packets. -/
theorem numbersKept_fails : ¬ ∀ (e : Endian) (dataType : UInt16) (buf : List UInt8),
    buf.length < 2 ^ 31 → ∀ pkts, SentBy e dataType buf pkts → NumbersKept pkts := by
  intro hclaim
  let img : List UInt8 := List.replicate (65535 * 1472 + 1) 0
  have hlen : img.length = 65535 * 1472 + 1 := List.length_replicate
  have hlt : img.length < 2 ^ 31 := by
    rw [hlen]
    decide
  have hsent := sentBy_fragmentPackets .little UdpData.DataTypes.image img hlt
  have hcount : 65535 < fragmentCount img.length := by
    rw [hlen]
    decide
  exact not_numbersKept_of_lt _ img hcount (hclaim _ _ img hlt _ hsent)

theorem numbersKept_iff_one :
    NumbersKept (fragmentPackets UdpData.DataTypes.testMessage [1]) ↔
      ([1] : List UInt8).length ≤ 65535 * 1472 :=
  numbersKept_iff .little UdpData.DataTypes.testMessage [1] (by decide) _
    (sentBy_fragmentPackets .little _ [1] (by decide))

end P2PWatcher
