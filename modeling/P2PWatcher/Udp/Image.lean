import P2PWatcher.Udp.Delivery
import P2PWatcher.Memory.Mask
import Mathlib.Data.List.Forall2
import Mathlib.Tactic.Ring

/-!
# An image on its way

The senders cut an image every 1472 bytes, and 1455 bytes of each fragment
arrive. So an image reaches the other side as the image with the last 17 bytes
of every 1472 set to zero, and it does so only if the 1455 bytes that are copied
for the last fragment still lie inside it and the fragments have numbers of their own
in 16 bits (`Storable`); otherwise a copy leaves the assembly buffer.
`exists_completes_fragments_iff` says this for every image and everything that the two
buffers of the receiver held before.
-/

namespace P2PWatcher

open Memory Machine Sequence Reassembly

/-! ## The number of a fragment and its place -/

theorem chunkOffset_toNat (number : UInt16) :
    (chunkOffset number).toNat =
      if number.toNat = 0 then 2 ^ 32 - 1472 else 1472 * (number.toNat - 1) := by
  have hlt : number.toNat < 65536 := number.toNat_lt
  rw [chunkOffset]
  rcases hk : number.toNat with _ | k
  · rfl
  · have hmul : (((k + 1 : ℕ) : ℤ) - 1) * (Constants.maxSizeUdp : ℤ) = ((1472 * k : ℕ) : ℤ) := by
      rw [Constants.maxSizeUdp]
      push_cast
      ring
    have hmod : 1472 * k < UInt32.size := by
      rw [hk] at hlt
      exact lt_of_lt_of_le (Nat.mul_lt_mul_of_pos_left (Nat.lt_of_succ_lt hlt) (by decide))
        (by decide)
    have hemod : ((1472 * k : ℕ) : ℤ) % 2 ^ 32 = ((1472 * k : ℕ) : ℤ) :=
      Int.emod_eq_of_lt (Int.natCast_nonneg _) (Int.ofNat_lt.mpr hmod)
    rw [if_neg (Nat.succ_ne_zero k), Nat.add_sub_cancel, hmul, UInt32.ofInt, hemod,
      Int.toNat_natCast, UInt32.toNat_ofNat_of_lt' hmod]

theorem chunkOffset_ofNat_succ (i : ℕ) (h : i < 65535) :
    (chunkOffset (UInt16.ofNat (i + 1))).toNat = 1472 * i := by
  have hlt : i + 1 < UInt16.size := Nat.succ_lt_succ h
  rw [chunkOffset_toNat, UInt16.toNat_ofNat_of_lt' hlt, if_neg (Nat.succ_ne_zero i),
    Nat.add_sub_cancel]

/-- The fragment behind the last number that 16 bits hold is taken for number 0. -/
theorem chunkOffset_ofNat_65536 : (chunkOffset (UInt16.ofNat (65535 + 1))).toNat = 2 ^ 32 - 1472 :=
  chunkOffset_toNat 0

/-! ## The blocks of an image -/

theorem fragment_isImage (img : List UInt8) (i : ℕ) :
    (fragment UdpData.DataTypes.image img i).IsImage := ⟨rfl, rfl⟩

theorem isImage_of_mem_map_fragment (img : List UInt8) (is : List ℕ) :
    ∀ pkt ∈ is.map (fragment UdpData.DataTypes.image img), pkt.IsImage := by
  intro pkt hpkt
  obtain ⟨i, -, rfl⟩ := List.mem_map.mp hpkt
  exact fragment_isImage img i

/-- Every fragment has a number of its own, and the bytes that are copied for it lie
inside the image. -/
def Storable (n : ℕ) : Prop :=
  fragmentCount n ≤ 65535 ∧ ∀ i < fragmentCount n, 1472 * i + 1455 ≤ n

/-- The block that arrives for a fragment with a full payload. -/
def imageBlock (img : List UInt8) (i : ℕ) : Block UInt8 where
  first := decide (i = 0)
  last := decide (i + 1 = fragmentCount img.length)
  total := img.length
  offset := 1472 * i
  data := (img.drop (1472 * i)).take 1455

def imageBlocks (img : List UInt8) : List (Block UInt8) :=
  (List.range (fragmentCount img.length)).map (imageBlock img)

theorem imageBlock_data_length (img : List UInt8) (h : Storable img.length) (i : ℕ)
    (hi : i < fragmentCount img.length) : (imageBlock img i).data.length = 1455 := by
  have hle := h.2 i hi
  rw [imageBlock, List.length_take, List.length_drop]
  omega

theorem imageBlock_data_ne_nil (img : List UInt8) (h : Storable img.length) (i : ℕ)
    (hi : i < fragmentCount img.length) : (imageBlock img i).data ≠ [] := by
  rw [← List.length_pos_iff, imageBlock_data_length img h i hi]
  decide

theorem imageBlock_fits (img : List UInt8) (h : Storable img.length) (i : ℕ)
    (hi : i < fragmentCount img.length) :
    (imageBlock img i).offset + (imageBlock img i).data.length ≤ img.length := by
  rw [imageBlock_data_length img h i hi]
  exact h.2 i hi

/-- The packets of an image. -/
def imagePackets (img : List UInt8) : List Packet :=
  (List.range (fragmentCount img.length)).map (fragment UdpData.DataTypes.image img)

theorem fragments_image (e : Endian) (img : List UInt8) :
    fragments e UdpData.DataTypes.image img = (imagePackets img).map (Packet.serialize e) := by
  rw [fragments, imagePackets, List.map_map]
  rfl

/-- The block that arrives for a fragment, up to its data. -/
theorem block_fragment (img : List UInt8) (i : ℕ) (hn : img.length < 2 ^ 32)
    (buffer : List UInt8) :
    { fragment UdpData.DataTypes.image img i with buffer := buffer }.block = {
      first := decide (i = 0)
      last := decide (i + 1 = fragmentCount img.length)
      total := img.length
      offset := (chunkOffset (UInt16.ofNat (i + 1))).toNat
      data := buffer } := by
  have hone : ∀ p : Prop, [Decidable p] → ((if p then (1 : UInt8) else 0) = 1 ↔ p) := by
    intro p _
    by_cases hp : p <;> simp [hp]
  simp only [Packet.block, fragment, hone, UInt32.toNat_ofNat_of_lt' hn]

theorem fragment_full (img : List UInt8) (h : Storable img.length) (i : ℕ)
    (hi : i < fragmentCount img.length) :
    1455 ≤ (fragment UdpData.DataTypes.image img i).buffer.length := by
  have hle := h.2 i hi
  rw [fragment_buffer_length]
  omega

theorem block_fragment_full (img : List UInt8) (hn : img.length < 2 ^ 32)
    (h : Storable img.length) (i : ℕ) (hi : i < fragmentCount img.length) :
    { fragment UdpData.DataTypes.image img i with
      buffer := (fragment UdpData.DataTypes.image img i).buffer.take 1455 }.block =
        imageBlock img i := by
  rw [block_fragment img i hn, imageBlock, chunkOffset_ofNat_succ i (lt_of_lt_of_le hi h.1),
    fragment, List.take_take]
  rfl

/-- The datagram of the image `x.1` with the index `x.2`. -/
def datagram (e : Endian) (x : List UInt8 × ℕ) : List UInt8 :=
  (fragment UdpData.DataTypes.image x.1 x.2).serialize e

/-- Fragments of images with room for all their copies run through the receiver as the
blocks that arrive for them run through `accept`. -/
theorem completes_datagram_iff {α : Type} (hand : List UInt8 → α) (e : Endian)
    {xs : List (List UInt8 × ℕ)}
    (hxs : ∀ x ∈ xs, x.1.length < 2 ^ 32 ∧ Storable x.1.length ∧
      x.2 < fragmentCount x.1.length)
    (r : UdpReceiver) (buf : List UInt8) (os : List (UdpEffect α)) :
    (∃ r', Completes (UdpReceiver.receive (processDatagram hand e)) r (xs.map (datagram e)) r'
        os ∧ r'.assembly.assemblyBuffer = buf) ↔
      ∃ os', Completes (accept 0) r.assembly.assemblyBuffer
          (xs.map fun x => imageBlock x.1 x.2) buf os' ∧
        os = os'.map (UdpEffect.ofHanded hand) := by
  have hpkts : ∀ pkt ∈ xs.map fun x => fragment UdpData.DataTypes.image x.1 x.2,
      pkt.IsImage ∧ 1455 ≤ pkt.buffer.length := by
    intro pkt hpkt
    obtain ⟨x, hx, rfl⟩ := List.mem_map.mp hpkt
    obtain ⟨-, hstorable, hlt⟩ := hxs x hx
    exact ⟨fragment_isImage x.1 x.2, fragment_full x.1 hstorable x.2 hlt⟩
  have hblocks : (xs.map fun x => imageBlock x.1 x.2) =
      (xs.map fun x => fragment UdpData.DataTypes.image x.1 x.2).map fun pkt =>
        { pkt with buffer := pkt.buffer.take 1455 }.block := by
    rw [List.map_map]
    refine List.map_congr_left fun x hx => ?_
    obtain ⟨hn, hstorable, hlt⟩ := hxs x hx
    exact (block_fragment_full x.1 hn hstorable x.2 hlt).symm
  have hiff := UdpReceiver.completes_serialize_iff hand e hpkts r buf os
  rw [← hblocks, List.map_map] at hiff
  exact hiff

/-- Whatever the receive buffer holds, the blocks that arrive for the fragments of an
image are a message. -/
theorem isMessage_of_forall₂ {img : List UInt8} (hn : img.length < 2 ^ 32)
    {bs : List (Block UInt8)}
    (h : List.Forall₂ (fun pkt b => ∃ cells : List UInt8, cells.length = 1472 ∧
      b = (Packet.received cells pkt).block) (imagePackets img) bs) :
    IsMessage bs ∧ bs.length = fragmentCount img.length ∧ ∀ i (hi : i < bs.length),
      bs[i].total = img.length ∧ bs[i].data.length = 1455 ∧
        bs[i].offset = (chunkOffset (UInt16.ofNat (i + 1))).toNat := by
  have hlen : bs.length = fragmentCount img.length := by
    rw [← h.length_eq, imagePackets, List.length_map, List.length_range]
  have hget : ∀ i (hi : i < bs.length), ∃ buffer : List UInt8, buffer.length = 1455 ∧
      bs[i] = {
        first := decide (i = 0)
        last := decide (i + 1 = bs.length)
        total := img.length
        offset := (chunkOffset (UInt16.ofNat (i + 1))).toNat
        data := buffer } := by
    intro i hi
    obtain ⟨cells, hcells, heq⟩ := h.get (by rw [h.length_eq]; exact hi) hi
    simp only [List.get_eq_getElem, imagePackets, List.getElem_map, List.getElem_range] at heq
    refine ⟨(Packet.received cells (fragment UdpData.DataTypes.image img i)).buffer,
      Packet.received_buffer_length cells _ hcells, ?_⟩
    rw [heq, Packet.received, block_fragment img i hn, hlen]
  refine ⟨isMessage_of_flags fun i hi => ?_, hlen, fun i hi => ?_⟩
  · obtain ⟨buffer, hbuffer, heq⟩ := hget i hi
    rw [heq]
    refine ⟨rfl, rfl, ?_⟩
    intro hnil
    replace hnil : buffer = [] := hnil
    rw [hnil] at hbuffer
    exact absurd hbuffer (by decide)
  · obtain ⟨buffer, hbuffer, heq⟩ := hget i hi
    rw [heq]
    exact ⟨rfl, hbuffer, rfl⟩

/-! ## What arrives -/

/-- The image with the last 17 of every 1472 bytes set to zero. -/
def arrived (img : List UInt8) : List UInt8 := mask 0 (fun p => decide (p % 1472 < 1455)) img

/-- The buffers handed out for an image. -/
def arrivals (img : List UInt8) : List (List UInt8) := if img = [] then [] else [arrived img]

theorem imageBlocks_eq_nil_iff (img : List UInt8) : imageBlocks img = [] ↔ img = [] := by
  rw [imageBlocks, List.map_eq_nil_iff, List.range_eq_nil, ← List.length_eq_zero_iff,
    fragmentCount]
  omega

theorem isMessage_imageBlocks (img : List UInt8) (h : Storable img.length) :
    IsMessage (imageBlocks img) := by
  have hlen : (imageBlocks img).length = fragmentCount img.length := by simp [imageBlocks]
  refine isMessage_of_flags fun i hi => ?_
  rw [hlen]
  simp only [imageBlocks, List.getElem_map, List.getElem_range]
  exact ⟨rfl, rfl, imageBlock_data_ne_nil img h i (hlen ▸ hi)⟩

theorem fitsTotal_imageBlocks (img : List UInt8) (h : Storable img.length) :
    FitsTotal (imageBlocks img) := by
  have hall : ∀ b ∈ imageBlocks img, b.total = img.length ∧
      b.offset + b.data.length ≤ img.length := by
    intro b hb
    obtain ⟨i, hi, rfl⟩ := List.mem_map.mp hb
    exact ⟨rfl, imageBlock_fits img h i (List.mem_range.mp hi)⟩
  cases hblocks : imageBlocks img with
  | nil => exact trivial
  | cons b bs =>
      rw [hblocks] at hall
      intro c hc
      rw [(hall b (List.mem_cons_self ..)).1]
      exact (hall c hc).2

/-- The fragments of an image leave the image without the bytes that do not arrive. -/
theorem handouts_imageBlocks (img : List UInt8) (h : Storable img.length) :
    handouts 0 (imageBlocks img) = arrivals img := by
  rw [arrivals]
  split
  · next hnil => rw [(imageBlocks_eq_nil_iff img).mpr hnil, handouts]
  · next hne =>
      have hfold : (imageBlocks img).foldl (fun buf c => splice buf c.offset c.data)
          (List.replicate img.length 0) = arrived img := by
        rw [imageBlocks, List.foldl_map, ← mask_false 0 img]
        refine (foldl_splice_mask 0 _ img (fun i => 1472 * i) 1455 _ fun i hi => ?_).trans ?_
        · exact h.2 i (List.mem_range.mp hi)
        · refine mask_congr 0 img fun p hp => ?_
          rw [Bool.false_or, Bool.eq_iff_iff, List.any_eq_true, decide_eq_true_iff]
          simp only [List.mem_range, lt_fragmentCount_iff, decide_eq_true_iff]
          constructor
          · rintro ⟨i, -, hlo, hhi⟩
            omega
          · intro hmod
            exact ⟨p / 1472, by omega, by omega, by omega⟩
      cases hblocks : imageBlocks img with
      | nil => exact absurd ((imageBlocks_eq_nil_iff img).mp hblocks) hne
      | cons b bs =>
          have htotal : b.total = img.length := by
            have hb : b ∈ imageBlocks img := by rw [hblocks]; exact List.mem_cons_self ..
            obtain ⟨i, -, rfl⟩ := List.mem_map.mp hb
            rfl
          rw [handouts, htotal, ← hblocks, hfold]

theorem filterMap_handed? {α : Type} (hand : List UInt8 → α)
    (os : List (Option (List UInt8))) :
    (os.map (UdpEffect.ofHanded hand)).filterMap UdpEffect.handed? =
      os.reduceOption.map hand := by
  induction os with
  | nil => rfl
  | cons o os ih =>
      rw [List.map_cons, List.filterMap_cons, handed?_ofHanded, ih]
      cases o <;> rfl

/-- An image whose fragments run through has room for all their copies. -/
theorem storable_of_completes {α : Type} {hand : List UInt8 → α} {e : Endian}
    {r r' : UdpReceiver} {img : List UInt8} (hn : img.length + 1471 < 2 ^ 32)
    {os : List (UdpEffect α)}
    (h : Completes (UdpReceiver.receive (processDatagram hand e)) r
      (fragments e UdpData.DataTypes.image img) r' os) : Storable img.length := by
  have himage : ∀ pkt ∈ imagePackets img, pkt.IsImage := isImage_of_mem_map_fragment img _
  rw [fragments_image] at h
  obtain ⟨bs, os', hbs, hrun, -⟩ := UdpReceiver.exists_completes_accept himage h
  obtain ⟨hmessage, hlen, hget⟩ := isMessage_of_forall₂ (by omega) hbs
  have hfits := (completes_message hmessage hrun).1
  -- every copy lies inside the size that the first fragment announced
  have hle : ∀ i < fragmentCount img.length,
      (chunkOffset (UInt16.ofNat (i + 1))).toNat + 1455 ≤ img.length := by
    intro i hi
    rw [← hlen] at hi
    obtain ⟨-, hdata, hoffset⟩ := hget i hi
    have hmem : bs[i] ∈ bs := List.getElem_mem hi
    cases bs with
    | nil => exact absurd hi (Nat.not_lt_zero i)
    | cons b bs =>
        have hfit := hfits _ hmem
        rwa [hdata, hoffset, show b.total = img.length from (hget 0 (Nat.zero_lt_succ _)).1]
          at hfit
  have hcount : fragmentCount img.length ≤ 65535 := by
    by_contra hgt
    have hbad := hle 65535 (by omega)
    rw [chunkOffset_ofNat_65536] at hbad
    omega
  refine ⟨hcount, fun i hi => ?_⟩
  have hfit := hle i hi
  rwa [chunkOffset_ofNat_succ i (by omega)] at hfit

/-- The fragments of an image, with their image. -/
def indexed (img : List UInt8) : List (List UInt8 × ℕ) :=
  (List.range (fragmentCount img.length)).map fun i => (img, i)

theorem indexed_map_datagram (e : Endian) (img : List UInt8) :
    (indexed img).map (datagram e) = fragments e UdpData.DataTypes.image img := by
  rw [indexed, List.map_map]
  rfl

theorem indexed_map_imageBlock (img : List UInt8) :
    ((indexed img).map fun x => imageBlock x.1 x.2) = imageBlocks img := by
  rw [indexed, List.map_map]
  rfl

theorem forall_mem_indexed (img : List UInt8) (hn : img.length < 2 ^ 32)
    (h : Storable img.length) : ∀ x ∈ indexed img, x.1.length < 2 ^ 32 ∧
      Storable x.1.length ∧ x.2 < fragmentCount x.1.length := by
  intro x hx
  obtain ⟨i, hi, rfl⟩ := List.mem_map.mp hx
  exact ⟨hn, h, List.mem_range.mp hi⟩

/-- All fragments of an image, in order. -/
theorem exists_completes_fragments_iff {α : Type} (hand : List UInt8 → α) (e : Endian)
    (r : UdpReceiver) (img : List UInt8) (hn : img.length + 1471 < 2 ^ 32) (hs : List α) :
    (∃ r' os, Completes (UdpReceiver.receive (processDatagram hand e)) r
        (fragments e UdpData.DataTypes.image img) r' os ∧
          os.filterMap UdpEffect.handed? = hs) ↔
      Storable img.length ∧ (arrivals img).map hand = hs := by
  constructor
  · rintro ⟨r', os, hrun, rfl⟩
    have hstorable := storable_of_completes hn hrun
    rw [← indexed_map_datagram] at hrun
    obtain ⟨os', hrun', rfl⟩ := (completes_datagram_iff hand e
      (forall_mem_indexed img (by omega) hstorable) r r'.assembly.assemblyBuffer os).mp
        ⟨r', hrun, rfl⟩
    rw [indexed_map_imageBlock] at hrun'
    rw [filterMap_handed?, (completes_message (isMessage_imageBlocks img hstorable) hrun').2,
      handouts_imageBlocks img hstorable]
    exact ⟨hstorable, rfl⟩
  · rintro ⟨hstorable, rfl⟩
    have hmessage := isMessage_imageBlocks img hstorable
    obtain ⟨buf, os', hrun⟩ := exists_completes_message (a := (0 : UInt8)) hmessage
      (fitsTotal_imageBlocks img hstorable) r.assembly.assemblyBuffer
    rw [← handouts_imageBlocks img hstorable, ← (completes_message hmessage hrun).2]
    rw [← indexed_map_imageBlock] at hrun
    obtain ⟨r', hrun', -⟩ := (completes_datagram_iff hand e
      (forall_mem_indexed img (by omega) hstorable) r buf _).mpr ⟨os', hrun, rfl⟩
    rw [indexed_map_datagram] at hrun'
    exact ⟨r', _, hrun', filterMap_handed? hand os'⟩

end P2PWatcher
