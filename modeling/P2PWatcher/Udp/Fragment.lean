import P2PWatcher.Udp.Sender
import P2PWatcher.Sequence.Chunks

/-!
# The packets of a buffer

`fragment` is the packet with a given index in terms of natural numbers. The
sending loop computes in `u32`, `int` and `u16`, but what it sends are these
packets: `packets_of_lt` says so for every buffer below 2^31 bytes, and
`packets_eq_ok_iff` for a longer one whenever the `int` product does not overflow,
then for the part of the buffer that the reduced size still counts.
-/

namespace P2PWatcher

open Memory

/-- The number of packets for `n` bytes. -/
def fragmentCount (n : ℕ) : ℕ := (n + 1471) / 1472

/-- The packet of `buf` with index `i`. -/
def fragment (dataType : UInt16) (buf : List UInt8) (i : ℕ) : Packet where
  header := {
    totalDataSize := UInt32.ofNat buf.length
    totalCntPackets := UInt16.ofNat (fragmentCount buf.length)
    curPacketNumber := UInt16.ofNat (i + 1)
    curPacketSize := UInt16.ofNat (17 + ((buf.drop (1472 * i)).take 1472).length)
    isFirst := if i = 0 then 1 else 0
    isLast := if i + 1 = fragmentCount buf.length then 1 else 0 }
  dType := dataType
  buffer := (buf.drop (1472 * i)).take 1472

/-- The datagrams of `buf`, in order. -/
def fragments (e : Endian) (dataType : UInt16) (buf : List UInt8) : List (List UInt8) :=
  (List.range (fragmentCount buf.length)).map fun i => (fragment dataType buf i).serialize e

@[simp] theorem fragments_length (e : Endian) (dataType : UInt16) (buf : List UInt8) :
    (fragments e dataType buf).length = fragmentCount buf.length := by
  simp [fragments]

theorem lt_fragmentCount_iff (n i : ℕ) : i < fragmentCount n ↔ 1472 * i < n := by
  rw [fragmentCount]
  omega

/-- Exactly the last fragment reaches the end. -/
theorem succ_eq_fragmentCount_iff (n i : ℕ) :
    i + 1 = fragmentCount n ↔ 1472 * i < n ∧ n ≤ 1472 * (i + 1) := by
  rw [fragmentCount]
  omega

theorem fragment_buffer_length (dataType : UInt16) (buf : List UInt8) (i : ℕ) :
    (fragment dataType buf i).buffer.length = min 1472 (buf.length - 1472 * i) :=
  Sequence.chunk_length 1472 buf i

/-! ## The loop sends the fragments -/

theorem toUInt16_eq_ofNat (v : UInt32) : v.toUInt16 = UInt16.ofNat v.toNat := by
  apply UInt16.toNat_inj.mp
  simp

theorem packetCount_toNat (v : UInt32) :
    (packetCount v).toNat = (v.toNat + 1471) % 2 ^ 32 / 1472 := by
  have hv : v.toNat < 2 ^ 32 := v.toNat_lt
  simp only [packetCount, Constants.maxSizeUdp, UInt32.toNat_div, UInt32.toNat_sub,
    UInt32.toNat_add, UInt32.toNat_ofNat', UInt32.toNat_one, Nat.reducePow, Nat.reduceMod,
    Nat.reduceSub]
  omega

/-- The part of `buf` whose size the 32-bit counters of the loop still count. -/
def counted (buf : List UInt8) : List UInt8 :=
  if buf.length % 2 ^ 32 + 1471 < 2 ^ 32 then buf.take (buf.length % 2 ^ 32) else []

theorem counted_of_lt (buf : List UInt8) (h : buf.length < 2 ^ 32 - 1471) :
    counted buf = buf := by
  rw [counted, Nat.mod_eq_of_lt (by omega), if_pos (by omega), List.take_length]

theorem fragmentCount_counted (buf : List UInt8) :
    (packetCount (UInt32.ofNat buf.length)).toNat = fragmentCount (counted buf).length := by
  rw [packetCount_toNat, UInt32.toNat_ofNat', fragmentCount, counted]
  by_cases h : buf.length % 2 ^ 32 + 1471 < 2 ^ 32
  · rw [if_pos h, List.length_take, Nat.mod_eq_of_lt h, Nat.min_eq_left (Nat.mod_le _ _)]
  · rw [if_neg h, List.length_nil]
    omega

theorem counted_length_le (buf : List UInt8) : (counted buf).length ≤ buf.length := by
  rw [counted]
  split
  · exact List.length_take_le' _ _
  · exact Nat.zero_le _

/-- Where something is counted, it is the first `buf.length % 2 ^ 32` bytes. -/
theorem counted_length_of_pos (buf : List UInt8) (h : 0 < (counted buf).length) :
    (counted buf).length = buf.length % 2 ^ 32 ∧
      counted buf = buf.take (buf.length % 2 ^ 32) ∧ buf.length % 2 ^ 32 + 1471 < 2 ^ 32 := by
  by_cases hs : buf.length % 2 ^ 32 + 1471 < 2 ^ 32
  · have hcounted : counted buf = buf.take (buf.length % 2 ^ 32) := if_pos hs
    refine ⟨?_, hcounted, hs⟩
    rw [hcounted, List.length_take, Nat.min_eq_left (Nat.mod_le _ _)]
  · rw [counted, if_neg hs] at h
    exact absurd h (Nat.lt_irrefl 0)

theorem counted_length_lt (buf : List UInt8) : (counted buf).length + 1471 < 2 ^ 32 := by
  rcases Nat.eq_zero_or_pos (counted buf).length with h | h
  · rw [h]
    decide
  · obtain ⟨hlen, -, hlt⟩ := counted_length_of_pos buf h
    rwa [hlen]

/-- The bytes that one turn of the loop takes from the buffer. -/
theorem readAt_chunk (dataType : UInt16) (buf : List UInt8) (idx : ℕ)
    (hidx : 1472 * idx < (counted buf).length) :
    readAt buf (1472 * idx) (min 1472 ((counted buf).length - 1472 * idx)) =
      .ok (fragment dataType (counted buf) idx).buffer := by
  obtain ⟨hlen, hcounted, -⟩ := counted_length_of_pos buf (by omega)
  have hle := counted_length_le buf
  rw [readAt_eq_ok_iff]
  refine ⟨by omega, ?_⟩
  rw [hlen, fragment, hcounted, List.drop_take, List.take_take]

/-- One turn of the loop yields the fragment of its index, if the product of the
index and the stride is an `int`. -/
theorem packetAt_eq_ok_iff (dataType : UInt16) (buf : List UInt8) (idx : ℕ)
    (hidx : idx < fragmentCount (counted buf).length) (pkt : Packet) :
    packetAt dataType buf false idx = .ok pkt ↔
      1472 * idx < 2 ^ 31 ∧ fragment dataType (counted buf) idx = pkt := by
  have hcnt := fragmentCount_counted buf
  rw [lt_fragmentCount_iff] at hidx
  obtain ⟨hlen, -, hs⟩ := counted_length_of_pos buf (by omega)
  by_cases hprod : 1472 * idx < 2 ^ 31
  · have hmul : mulInt Constants.maxSizeUdp idx = .ok (1472 * idx) := if_pos hprod
    have hchunk : (if decide (idx + 1 = fragmentCount (counted buf).length) then
        UInt32.ofNat buf.length - UInt32.ofNat (1472 * idx)
          else UInt32.ofNat Constants.maxSizeUdp).toNat =
        min 1472 ((counted buf).length - 1472 * idx) := by
      by_cases hlast : idx + 1 = fragmentCount (counted buf).length
      · rw [if_pos (decide_eq_true hlast), UInt32.toNat_sub, UInt32.toNat_ofNat',
          UInt32.toNat_ofNat']
        rw [succ_eq_fragmentCount_iff] at hlast
        omega
      · rw [if_neg (by simpa using hlast), UInt32.toNat_ofNat', Constants.maxSizeUdp]
        rw [succ_eq_fragmentCount_iff] at hlast
        omega
    have hread := readAt_chunk dataType buf idx hidx
    -- no counter of the header loses more than the narrowing to its own width
    have hsize : UInt32.ofNat buf.length = UInt32.ofNat (counted buf).length := by
      apply UInt32.toNat_inj.mp
      simp only [UInt32.toNat_ofNat', hlen]
      omega
    have hnumber : (UInt32.ofNat idx + 1).toNat = idx + 1 := by
      simp only [UInt32.toNat_add, UInt32.toNat_ofNat', UInt32.toNat_one]
      omega
    have hfull : (UInt32.ofNat (PacketHeader.size + 2 +
        min 1472 ((counted buf).length - 1472 * idx))).toNat =
          17 + (fragment dataType (counted buf) idx).buffer.length := by
      simp only [UInt32.toNat_ofNat', PacketHeader.size, fragment_buffer_length]
      omega
    have hpkt : packetAt dataType buf false idx =
        .ok (fragment dataType (counted buf) idx) := by
      simp only [packetAt, hmul, hcnt, bind, Except.bind, hread, hchunk, makeHeader,
        toUInt16_eq_ofNat, hnumber, hfull]
      simp only [hsize]
      simp [fragment]
    rw [hpkt, Except.ok.injEq]
    simp only [hprod, true_and]
  · have hmul : mulInt Constants.maxSizeUdp idx = .error .overflow := if_neg hprod
    simp only [packetAt, hmul, bind, Except.bind, reduceCtorEq, hprod, false_and]

/-- Compression never takes place, so the loop runs over the buffer itself. -/
theorem packets_eq (e : Endian) (dataType : UInt16) (buf : List UInt8) :
    packets e dataType buf =
      (List.range (fragmentCount (counted buf).length)).mapM fun idx =>
        Packet.serialize e <$> packetAt dataType buf false idx := by
  rw [← fragmentCount_counted]
  rfl

/-- Where the loop does not overflow it sends the fragments of what it counts. -/
theorem packets_eq_ok_iff (e : Endian) (dataType : UInt16) (buf : List UInt8)
    (ds : List (List UInt8)) :
    packets e dataType buf = .ok ds ↔
      (∀ i < fragmentCount (counted buf).length, 1472 * i < 2 ^ 31) ∧
        fragments e dataType (counted buf) = ds := by
  have hturn : ∀ i ∈ List.range (fragmentCount (counted buf).length), ∀ d,
      Packet.serialize e <$> packetAt dataType buf false i = .ok d ↔
        1472 * i < 2 ^ 31 ∧ (fragment dataType (counted buf) i).serialize e = d := by
    intro i hi d
    rw [map_eq_ok_iff]
    simp only [packetAt_eq_ok_iff dataType buf i (List.mem_range.mp hi)]
    constructor
    · rintro ⟨_, ⟨hprod, rfl⟩, rfl⟩
      exact ⟨hprod, rfl⟩
    · rintro ⟨hprod, rfl⟩
      exact ⟨_, ⟨hprod, rfl⟩, rfl⟩
  rw [packets_eq, mapM_eq_ok_iff _ hturn]
  simp only [List.mem_range, fragments]

theorem packets_length {e : Endian} {dataType : UInt16} {buf : List UInt8}
    {ds : List (List UInt8)} (h : packets e dataType buf = .ok ds) :
    ds.length = fragmentCount (counted buf).length := by
  rw [← ((packets_eq_ok_iff e dataType buf ds).mp h).2, fragments_length]

/-- The packet that is sent with the index `j`. -/
theorem packets_get {e : Endian} {dataType : UInt16} {buf : List UInt8}
    {ds : List (List UInt8)} (h : packets e dataType buf = .ok ds) (j : Fin ds.length) :
    ds.get j = (fragment dataType (counted buf) j).serialize e := by
  obtain ⟨-, rfl⟩ := (packets_eq_ok_iff e dataType buf ds).mp h
  rw [List.get_eq_getElem]
  simp only [fragments, List.getElem_map, List.getElem_range]

/-- Below 2^31 bytes nothing overflows. -/
theorem products_of_lt {buf : List UInt8} (h : buf.length < 2 ^ 31) :
    ∀ i < fragmentCount (counted buf).length, 1472 * i < 2 ^ 31 := by
  intro i hi
  have hle := counted_length_le buf
  rw [lt_fragmentCount_iff] at hi
  omega

/-- Below 2^31 bytes everything is counted and sent. -/
theorem packets_of_lt (e : Endian) (dataType : UInt16) (buf : List UInt8)
    (h : buf.length < 2 ^ 31) :
    packets e dataType buf = .ok (fragments e dataType buf) := by
  have hcounted : counted buf = buf := counted_of_lt buf (by omega)
  rw [packets_eq_ok_iff, hcounted]
  exact ⟨hcounted ▸ products_of_lt h, rfl⟩

/-! ## What is sent -/

/-- A target gets the packets, if its address is one. -/
theorem sendTo_eq_ok_iff (asio : Asio) (e : Endian) (target : ClientInfo) (dataType : UInt16)
    (buf : List UInt8) (ds : List (List UInt8)) :
    sendTo asio e target dataType buf = .ok ds ↔
      asio.makeAddress target.addr = true ∧ packets e dataType buf = .ok ds := by
  rw [sendTo]
  split
  · next h => cases packets e dataType buf <;> simp [h]
  · next h => simp [h]

/-- The loop throws something else. -/
theorem sendTo_eq_badAddress_iff (asio : Asio) (e : Endian) (target : ClientInfo)
    (dataType : UInt16) (buf : List UInt8) :
    sendTo asio e target dataType buf = .error .badAddress ↔
      asio.makeAddress target.addr = false := by
  rw [sendTo]
  split
  · next h => cases packets e dataType buf <;> simp [h]
  · next h => simp [h]

theorem BoostUdpConnection.sendData_eq_badAddress_iff (asio : Asio) (e : Endian) (isOpen : Bool)
    (addr : List UInt8) (dataType : UInt16) (buf : List UInt8) :
    BoostUdpConnection.sendData asio e isOpen addr dataType buf = .error .badAddress ↔
      isOpen = true ∧ asio.makeAddress addr = false := by
  rw [← sendTo_eq_badAddress_iff asio e { addr, port := Constants.serverPort } dataType buf,
    BoostUdpConnection.sendData]
  cases isOpen with
  | false => simp
  | true =>
      simp only [if_true, true_and, bind, Except.bind]
      cases sendTo asio e { addr, port := Constants.serverPort } dataType buf <;> simp

theorem BoostUdpConnection.sendData_eq_ok_iff (asio : Asio) (e : Endian) (addr : List UInt8)
    (dataType : UInt16) (buf : List UInt8) (sent : List (ClientInfo × List UInt8)) :
    BoostUdpConnection.sendData asio e true addr dataType buf = .ok sent ↔
      (asio.makeAddress addr = true ∧
        ∀ i < fragmentCount (counted buf).length, 1472 * i < 2 ^ 31) ∧
      ((fragments e dataType (counted buf)).map fun datagram =>
        ({ addr, port := Constants.serverPort }, datagram)) = sent := by
  rw [BoostUdpConnection.sendData, if_pos rfl, bind_eq_ok_iff]
  simp only [sendTo_eq_ok_iff, packets_eq_ok_iff, Except.ok.injEq]
  constructor
  · rintro ⟨_, ⟨haddr, hprod, rfl⟩, heq⟩
    exact ⟨⟨haddr, hprod⟩, heq⟩
  · rintro ⟨⟨haddr, hprod⟩, heq⟩
    exact ⟨_, ⟨haddr, hprod, rfl⟩, heq⟩

/-- What the client has sent are the packets of the buffer. -/
theorem BoostUdpConnection.packets_of_sendData {asio : Asio} {e : Endian} {addr : List UInt8}
    {dataType : UInt16} {buf : List UInt8} {sent : List (ClientInfo × List UInt8)}
    (h : BoostUdpConnection.sendData asio e true addr dataType buf = .ok sent) :
    packets e dataType buf = .ok (sent.map Prod.snd) := by
  obtain ⟨⟨-, hprod⟩, rfl⟩ := (BoostUdpConnection.sendData_eq_ok_iff ..).mp h
  rw [List.map_map]
  exact (packets_eq_ok_iff ..).mpr ⟨hprod, (List.map_id _).symm⟩

theorem BoostUdpConnection.sendData_of_lt {asio : Asio} (e : Endian) {addr : List UInt8}
    (haddr : asio.makeAddress addr = true) (dataType : UInt16) (buf : List UInt8)
    (h : buf.length < 2 ^ 31) :
    BoostUdpConnection.sendData asio e true addr dataType buf =
      .ok ((fragments e dataType buf).map fun datagram =>
        ({ addr, port := Constants.serverPort }, datagram)) := by
  have hcounted : counted buf = buf := counted_of_lt buf (by omega)
  rw [BoostUdpConnection.sendData_eq_ok_iff, hcounted]
  exact ⟨⟨haddr, hcounted ▸ products_of_lt h⟩, rfl⟩

/-- Everybody whose address is one is sent the packets of the buffer. -/
theorem AsioUdpManager.broadCast_eq_ok_iff (asio : Asio) (e : Endian)
    (cl : List (UInt32 × ClientInfo)) (dataType : UInt16) (buf : List UInt8)
    (sent : List (ClientInfo × List (List UInt8))) :
    AsioUdpManager.broadCast asio e true cl dataType buf = .ok sent ↔
      (∀ client ∈ cl, asio.makeAddress client.2.addr = true ∧
        ∀ i < fragmentCount (counted buf).length, 1472 * i < 2 ^ 31) ∧
      (cl.map fun client => (client.2, fragments e dataType (counted buf))) = sent := by
  have hclient : ∀ client ∈ cl, ∀ x,
      (do let ds ← sendTo asio e client.2 dataType buf
          .ok (client.2, ds) : Except SendStop _) = .ok x ↔
        (asio.makeAddress client.2.addr = true ∧
          ∀ i < fragmentCount (counted buf).length, 1472 * i < 2 ^ 31) ∧
        (client.2, fragments e dataType (counted buf)) = x := by
    intro client _ x
    rw [bind_eq_ok_iff]
    simp only [sendTo_eq_ok_iff, packets_eq_ok_iff, Except.ok.injEq]
    constructor
    · rintro ⟨_, ⟨haddr, hprod, rfl⟩, heq⟩
      exact ⟨⟨haddr, hprod⟩, heq⟩
    · rintro ⟨⟨haddr, hprod⟩, heq⟩
      exact ⟨_, ⟨haddr, hprod, rfl⟩, heq⟩
  rw [AsioUdpManager.broadCast, if_pos rfl, mapM_eq_ok_iff cl hclient]

theorem AsioUdpManager.broadCast_of_lt {asio : Asio} (e : Endian)
    {cl : List (UInt32 × ClientInfo)} (hcl : ∀ client ∈ cl, asio.makeAddress client.2.addr = true)
    (dataType : UInt16) (buf : List UInt8) (h : buf.length < 2 ^ 31) :
    AsioUdpManager.broadCast asio e true cl dataType buf =
      .ok (cl.map fun client => (client.2, fragments e dataType buf)) := by
  have hcounted : counted buf = buf := counted_of_lt buf (by omega)
  rw [AsioUdpManager.broadCast_eq_ok_iff, hcounted]
  exact ⟨fun client hclient => ⟨hcl client hclient, hcounted ▸ products_of_lt h⟩, rfl⟩

/-- What the server has sent to one of its clients are the packets of the buffer. -/
theorem AsioUdpManager.packets_of_mem_broadCast {asio : Asio} {e : Endian}
    {cl : List (UInt32 × ClientInfo)} {dataType : UInt16} {buf : List UInt8}
    {sent : List (ClientInfo × List (List UInt8))}
    (h : AsioUdpManager.broadCast asio e true cl dataType buf = .ok sent) {info : ClientInfo}
    {datagrams : List (List UInt8)} (hmem : (info, datagrams) ∈ sent) :
    packets e dataType buf = .ok datagrams := by
  obtain ⟨hok, rfl⟩ := (AsioUdpManager.broadCast_eq_ok_iff ..).mp h
  obtain ⟨client, hclient, heq⟩ := List.mem_map.mp hmem
  rw [← (Prod.mk.inj heq).2]
  exact (packets_eq_ok_iff ..).mpr ⟨(hok client hclient).2, rfl⟩

end P2PWatcher
