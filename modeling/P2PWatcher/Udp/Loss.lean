import P2PWatcher.Udp.Image
import Mathlib.Data.List.Induction

/-!
# Lost, repeated and reordered fragments

The receiver keeps no record of the fragments that have arrived: the flag of the
last one alone decides that the buffer is handed out. So an image with a hole
in the middle is handed out as well, with zeros in the hole
(`exists_completes_lossy`). What holds for every loss, repetition and reordering is
`HandedOut`: the last fragment has just arrived, the first one has been
processed before it, the buffer has the size of the image, and every byte in it
is zero or the byte of the image at this place, according to the fragments
processed since the first one. The invariant of the run is `Holding`.
-/

namespace P2PWatcher

open Memory Machine Sequence Reassembly

/-- The fragments processed since the buffer was last set up, in order. -/
def sinceFirst (is : List ℕ) : List ℕ :=
  is.foldl (fun acc i => if i = 0 then [0] else acc ++ [i]) []

theorem sinceFirst_append_singleton (is : List ℕ) (i : ℕ) :
    sinceFirst (is ++ [i]) = if i = 0 then [0] else sinceFirst is ++ [i] := by
  rw [sinceFirst, List.foldl_append]
  rfl

/-- The positions of the bytes that arrive with the fragments `is`. -/
def covers (is : List ℕ) (p : ℕ) : Bool :=
  is.any fun i => decide (1472 * i ≤ p ∧ p < 1472 * i + 1455)

theorem covers_append_singleton (is : List ℕ) (i p : ℕ) :
    covers (is ++ [i]) p = (covers is p || decide (1472 * i ≤ p ∧ p < 1472 * i + 1455)) := by
  simp [covers]

/-- The assembly buffer `buf` behind the fragments `is` of `img`, before it is handed
out; at the start it was `buf₀`. -/
structure Holding (buf₀ img : List UInt8) (is : List ℕ) (buf : List UInt8) : Prop where
  first : buf₀ = [] → 0 ∈ is
  length_eq : 0 ∈ is → buf.length = img.length
  cells : 0 ∈ is → fragmentCount img.length ≤ 65535 →
    buf = mask 0 (covers (sinceFirst is)) img

/-- The copy of a fragment to its place, if it lies inside the image. -/
theorem splice_fragment {img cells : List UInt8} (hcells : cells.length = 1472) {i : ℕ}
    (hfit : 1472 * i + 1455 ≤ img.length) (is : List ℕ) :
    splice (mask 0 (covers is) img) (1472 * i)
        (Packet.received cells (fragment UdpData.DataTypes.image img i)).buffer =
      mask 0 (covers (is ++ [i])) img := by
  have hfull : 1455 ≤ (fragment UdpData.DataTypes.image img i).buffer.length := by
    rw [fragment_buffer_length]
    omega
  have hdata : (Packet.received cells (fragment UdpData.DataTypes.image img i)).buffer =
      (img.drop (1472 * i)).take 1455 := by
    rw [Packet.received_of_le cells _ hcells hfull, fragment, List.take_take]
    rfl
  rw [hdata, splice_mask 0 _ img _ _ hfit]
  exact mask_congr 0 img fun p _ => (covers_append_singleton is i p).symm

/-- One fragment more. -/
theorem holding_splice {buf₀ img buf cells : List UInt8} {is : List ℕ} {i : ℕ}
    (hn : img.length + 1471 < 2 ^ 32) (hi : i < fragmentCount img.length)
    (hcells : cells.length = 1472) (hinv : buf = [] ∨ Holding buf₀ img is buf) {b : Block UInt8}
    (hb : b = (Packet.received cells (fragment UdpData.DataTypes.image img i)).block)
    (hfits : Fits buf.length b) :
    Holding buf₀ img (is ++ [i]) (splice (setUp 0 buf b) b.offset b.data) := by
  have hlen : b.data.length = 1455 := by
    rw [hb]
    exact Packet.received_buffer_length cells _ hcells
  have hfits' : b.offset + b.data.length ≤ (setUp 0 buf b).length := by
    rwa [setUp_length]
  have hblock := hb.trans (block_fragment img i (by omega) _)
  have hoffset : fragmentCount img.length ≤ 65535 → b.offset = 1472 * i := by
    intro hcount
    rw [hblock]
    exact chunkOffset_ofNat_succ i (by omega)
  have hdata : b.data =
      (Packet.received cells (fragment UdpData.DataTypes.image img i)).buffer := by
    rw [hblock]
    rfl
  by_cases hzero : i = 0
  · -- the first fragment: whatever was in the buffer is gone
    have hset : setUp 0 buf b = List.replicate img.length 0 := by
      rw [hblock]
      exact if_pos (decide_eq_true hzero)
    rw [hset] at hfits' ⊢
    refine ⟨fun _ => by simp [hzero], fun _ => ?_, fun _ hcount => ?_⟩
    · rw [splice_length _ _ _ hfits', List.length_replicate]
    · have hfit := hfits'
      rw [hlen, List.length_replicate, hoffset hcount] at hfit
      rw [sinceFirst_append_singleton, if_pos hzero, hoffset hcount, hdata, ← mask_false 0 img,
        ← hzero]
      exact splice_fragment hcells hfit []
  · have hset : setUp 0 buf b = buf := by
      rw [hblock]
      exact if_neg (by simpa using hzero)
    have hne : buf ≠ [] := by
      rintro rfl
      rw [hset, hlen] at hfits'
      exact absurd hfits' (by simp)
    have hold := hinv.resolve_left hne
    have hmem : 0 ∈ is ++ [i] → 0 ∈ is := by
      intro h
      rcases List.mem_append.mp h with h | h
      · exact h
      · exact absurd (List.mem_singleton.mp h).symm hzero
    rw [hset] at hfits' ⊢
    refine ⟨fun h => List.mem_append_left _ (hold.first h), fun h => ?_, fun h hcount => ?_⟩
    · rw [splice_length _ _ _ hfits', hold.length_eq (hmem h)]
    · have hfit := hfits'
      rw [hlen, hold.length_eq (hmem h), hoffset hcount] at hfit
      rw [sinceFirst_append_singleton, if_neg hzero, hoffset hcount, hdata,
        hold.cells (hmem h) hcount]
      exact splice_fragment hcells hfit _

/-- One fragment received: the buffer holds it, and is handed out if it was the last. -/
theorem exists_holding_of_receive {α : Type} {hand : List UInt8 → α} {e : Endian}
    {buf₀ img : List UInt8} {is : List ℕ} {i : ℕ} (hn : img.length + 1471 < 2 ^ 32)
    (hi : i < fragmentCount img.length) {r r' : UdpReceiver} {o : UdpEffect α}
    (hinv : r.assembly.assemblyBuffer = [] ∨ Holding buf₀ img is r.assembly.assemblyBuffer)
    (h : UdpReceiver.receive (processDatagram hand e) r
      ((fragment UdpData.DataTypes.image img i).serialize e) = .ok (r', o)) :
    ∃ buf, Holding buf₀ img (is ++ [i]) buf ∧
      ((i + 1 = fragmentCount img.length ∧ r'.assembly.assemblyBuffer = [] ∧
          o = .ofHanded hand (some buf)) ∨
        (r'.assembly.assemblyBuffer = buf ∧ o = .ofHanded hand none)) := by
  obtain ⟨o', haccept, rfl⟩ := UdpReceiver.exists_accept_of_receive (fragment_isImage img i) h
  obtain ⟨hfits, heq⟩ := (accept_eq_ok_iff _ _ _ _).mp haccept
  refine ⟨_, holding_splice hn hi r.buffer.length_eq hinv rfl hfits, ?_⟩
  split at heq
  · next hlast =>
      rw [Packet.received, block_fragment img i (by omega)] at hlast
      obtain ⟨hbuf, rfl⟩ := Prod.mk.inj heq
      exact .inl ⟨of_decide_eq_true hlast, hbuf.symm, rfl⟩
  · obtain ⟨hbuf, rfl⟩ := Prod.mk.inj heq
    exact .inr ⟨hbuf.symm, rfl⟩

theorem holding_of_completes {α : Type} {hand : List UInt8 → α} {e : Endian}
    {img : List UInt8} (hn : img.length + 1471 < 2 ^ 32) {is : List ℕ}
    (his : ∀ i ∈ is, i < fragmentCount img.length) {r r' : UdpReceiver}
    {os : List (UdpEffect α)}
    (h : Completes (UdpReceiver.receive (processDatagram hand e)) r
      (is.map fun i => (fragment UdpData.DataTypes.image img i).serialize e) r' os) :
    r'.assembly.assemblyBuffer = [] ∨
      Holding r.assembly.assemblyBuffer img is r'.assembly.assemblyBuffer := by
  induction is using List.reverseRecOn generalizing r' os with
  | nil =>
      obtain ⟨rfl, -⟩ := (completes_nil_iff _ _ _ _).mp h
      by_cases hempty : r.assembly.assemblyBuffer = []
      · exact .inl hempty
      · exact .inr ⟨fun h => absurd h hempty, fun h => absurd h List.not_mem_nil,
          fun h => absurd h List.not_mem_nil⟩
  | append_singleton is i ih =>
      rw [List.map_append, completes_append_iff] at h
      obtain ⟨r₁, os₁, os₂, h₁, h₂, -⟩ := h
      obtain ⟨o, hstep, -⟩ := (completes_singleton_iff _ _ _ _ _).mp h₂
      have hinv := ih (fun j hj => his j (List.mem_append_left _ hj)) h₁
      obtain ⟨buf, hold, ⟨-, hbuf, -⟩ | ⟨rfl, -⟩⟩ :=
        exists_holding_of_receive hn (his i (by simp)) hinv hstep
      · exact .inl hbuf
      · exact .inr hold

/-! ## What is handed out -/

/-- What a buffer `b` is that was handed out behind the fragments `is` of `img`: the
fragment that came last is the last one of the image, and if the assembly buffer was empty
at the start the first one has been processed too. If it has, `b` has the size of the
image, the bytes of a fragment that was not processed since are zero, and those that
arrive with a fragment that was processed are the bytes of the image. -/
structure HandedOut (buf₀ img : List UInt8) (is : List ℕ) (b : List UInt8) : Prop where
  last : is.getLast? = some (fragmentCount img.length - 1)
  first : buf₀ = [] → 0 ∈ is
  length_eq : 0 ∈ is → b.length = img.length
  missing : 0 ∈ is → fragmentCount img.length ≤ 65535 → ∀ p < img.length,
    p / 1472 ∉ sinceFirst is → b[p]? = some 0
  present : 0 ∈ is → fragmentCount img.length ≤ 65535 → ∀ p < img.length,
    p / 1472 ∈ sinceFirst is → p % 1472 < 1455 → b[p]? = img[p]?

theorem covers_eq_true_iff (is : List ℕ) (p : ℕ) :
    covers is p = true ↔ p / 1472 ∈ is ∧ p % 1472 < 1455 := by
  rw [covers, List.any_eq_true]
  simp only [decide_eq_true_iff]
  constructor
  · rintro ⟨i, hi, hlo, hhi⟩
    obtain rfl : i = p / 1472 := by omega
    exact ⟨hi, by omega⟩
  · rintro ⟨hi, hmod⟩
    exact ⟨p / 1472, hi, by omega, by omega⟩

theorem handedOut_of_holding {buf₀ img b : List UInt8} {is : List ℕ}
    (h : Holding buf₀ img is b)
    (hlast : is.getLast? = some (fragmentCount img.length - 1)) :
    HandedOut buf₀ img is b := by
  refine ⟨hlast, h.first, h.length_eq, ?_, ?_⟩
  · intro hmem hcount p hp hmissing
    rw [h.cells hmem hcount, mask_getElem?, List.getElem?_eq_getElem hp, Option.map_some,
      if_neg fun hcov => hmissing ((covers_eq_true_iff _ p).mp hcov).1]
  · intro hmem hcount p hp hpresent hmod
    rw [h.cells hmem hcount, mask_getElem?, List.getElem?_eq_getElem hp, Option.map_some,
      if_pos ((covers_eq_true_iff _ p).mpr ⟨hpresent, hmod⟩)]

theorem handedOut_of_completes {α : Type} {hand : List UInt8 → α} {es er : Endian}
    {img : List UInt8} (hn : img.length + 1471 < 2 ^ 32) {is : List ℕ}
    (his : ∀ i ∈ is, i < fragmentCount img.length) {r r' : UdpReceiver}
    {os : List (UdpEffect α)} {o : UdpEffect α} {x : α} (ho : o.handed? = some x)
    (h : Completes (UdpReceiver.receive (processDatagram hand er)) r
      (is.map fun i => (fragment UdpData.DataTypes.image img i).serialize es) r' (os ++ [o])) :
    ∃ b, x = hand b ∧ HandedOut r.assembly.assemblyBuffer img is b := by
  by_cases he : es = er
  · subst he
    rcases List.eq_nil_or_concat' is with rfl | ⟨is, i, rfl⟩
    · exact absurd ((completes_nil_iff _ _ _ _).mp h).2 (by simp)
    · rw [List.map_append, completes_append_iff] at h
      obtain ⟨r₁, os₁, os₂, h₁, h₂, hos⟩ := h
      obtain ⟨o₂, hstep, rfl⟩ := (completes_singleton_iff _ _ _ _ _).mp h₂
      obtain ⟨-, rfl⟩ := List.concat_inj.mp (by simpa using hos)
      have hinv := holding_of_completes hn (fun j hj => his j (List.mem_append_left _ hj)) h₁
      obtain ⟨buf, hold, ⟨hi, -, rfl⟩ | ⟨-, rfl⟩⟩ :=
        exists_holding_of_receive hn (his i (by simp)) hinv hstep
      · rw [handed?_ofHanded, Option.map_some, Option.some.injEq] at ho
        refine ⟨buf, ho.symm, handedOut_of_holding hold ?_⟩
        rw [List.getLast?_concat, ← hi, Nat.add_sub_cancel]
      · rw [handed?_ofHanded] at ho
        exact absurd ho (by simp)
  · obtain ⟨r₁, os₁, hrun₁, hos₁⟩ :=
      completes_foreign hand he _ (isImage_of_mem_map_fragment img is) r
    rw [List.map_map] at hrun₁
    rw [← (completes_unique h hrun₁).2] at hos₁
    exact absurd hos₁ (by simp [ho])

/-! ## What is missing -/

theorem isTail_imageBlock (img : List UInt8) (h : Storable img.length) (mid : List ℕ)
    (hmid : ∀ j ∈ mid, 0 < j ∧ j + 1 < fragmentCount img.length)
    (hcount : 2 ≤ fragmentCount img.length) :
    IsTail ((mid ++ [fragmentCount img.length - 1]).map (imageBlock img)) := by
  induction mid with
  | nil =>
      refine .last _ ?_ ?_ (imageBlock_data_ne_nil img h _ (by omega))
      · exact decide_eq_false (by omega)
      · exact decide_eq_true (by omega)
  | cons j mid ih =>
      obtain ⟨hj, hmid⟩ := List.forall_mem_cons.mp hmid
      refine .cons _ _ ?_ ?_ (imageBlock_data_ne_nil img h j (by omega)) (ih hmid)
      · exact decide_eq_false (by omega)
      · exact decide_eq_false (by omega)

/-- The first of `n` fragments, any of those in the middle, in any order and as often as they
come, and the last one. -/
def FirstToLast (n : ℕ) (is : List ℕ) : Prop :=
  2 ≤ n ∧ ∃ mid : List ℕ, (∀ j ∈ mid, 0 < j ∧ j + 1 < n) ∧ is = 0 :: (mid ++ [n - 1])

theorem FirstToLast.lt {n : ℕ} {is : List ℕ} (h : FirstToLast n is) : ∀ i ∈ is, i < n := by
  obtain ⟨hcount, mid, hmid, rfl⟩ := h
  intro i hi
  rcases List.mem_cons.mp hi with rfl | hi
  · omega
  · rcases List.mem_append.mp hi with hi | hi
    · exact lt_trans (Nat.lt_succ_self i) (hmid i hi).2
    · rw [List.mem_singleton.mp hi]
      omega

theorem FirstToLast.isMessage {img : List UInt8} (h : Storable img.length) {is : List ℕ}
    (his : FirstToLast (fragmentCount img.length) is) : IsMessage (is.map (imageBlock img)) := by
  obtain ⟨hcount, mid, hmid, rfl⟩ := his
  refine .cons _ _ rfl ?_ (imageBlock_data_ne_nil img h 0 (by omega))
    (isTail_imageBlock img h mid hmid hcount)
  exact decide_eq_false (by omega)

theorem FirstToLast.fitsTotal {img : List UInt8} (h : Storable img.length) {is : List ℕ}
    (his : FirstToLast (fragmentCount img.length) is) : FitsTotal (is.map (imageBlock img)) := by
  have hlt := his.lt
  obtain ⟨-, mid, -, rfl⟩ := his
  rw [List.map_cons, FitsTotal, ← List.map_cons]
  intro b hb
  obtain ⟨i, hi, rfl⟩ := List.mem_map.mp hb
  exact imageBlock_fits img h i (hlt i hi)

/-- The receiver hands a buffer out, whatever is missing in the middle. -/
theorem exists_completes_lossy {α : Type} (hand : List UInt8 → α) (e : Endian)
    (r : UdpReceiver) (img : List UInt8) (hn : img.length < 2 ^ 32) (h : Storable img.length)
    {is : List ℕ} (his : FirstToLast (fragmentCount img.length) is) :
    ∃ r' os b, Completes (UdpReceiver.receive (processDatagram hand e)) r
      (is.map fun i => (fragment UdpData.DataTypes.image img i).serialize e) r'
      (os ++ [.image (hand b)]) := by
  have hxs : ∀ x ∈ is.map (Prod.mk img),
      x.1.length < 2 ^ 32 ∧ Storable x.1.length ∧ x.2 < fragmentCount x.1.length := by
    intro x hx
    obtain ⟨i, hi, rfl⟩ := List.mem_map.mp hx
    exact ⟨hn, h, his.lt i hi⟩
  obtain ⟨buf, os', hrun⟩ := exists_completes_message (a := (0 : UInt8)) (his.isMessage h)
    (his.fitsTotal h) r.assembly.assemblyBuffer
  obtain ⟨hcount, mid, -, rfl⟩ := his
  have hrun' := hrun
  rw [← List.cons_append, List.map_append, completes_append_iff] at hrun'
  obtain ⟨buf₁, os₁, os₂, -, hlast, rfl⟩ := hrun'
  obtain ⟨o, hstep, rfl⟩ := (completes_singleton_iff _ _ _ _ _).mp hlast
  have ho := ((accept_eq_ok_iff _ _ _ _).mp hstep).2
  have hflag : (imageBlock img (fragmentCount img.length - 1)).last = true :=
    decide_eq_true (by omega)
  rw [if_pos hflag] at ho
  obtain ⟨r', hreceive, -⟩ := (completes_datagram_iff hand e hxs r buf _).mpr
    ⟨_, by rwa [List.map_map], rfl⟩
  rw [List.map_map, List.map_append, ← (Prod.mk.inj ho).2] at hreceive
  exact ⟨r', _, _, hreceive⟩

/-! ## Both receivers -/

/-- The datagrams with the indices `js` of what the client has sent. -/
theorem map_get_snd {e : Endian} {img : List UInt8} {sent : List (ClientInfo × List UInt8)}
    (h : packets e UdpData.DataTypes.image img = .ok (sent.map Prod.snd))
    (js : List (Fin sent.length)) :
    (js.map fun j => (sent.get j).2) = (js.map Fin.val).map fun i =>
      (fragment UdpData.DataTypes.image (counted img) i).serialize e := by
  rw [List.map_map]
  refine List.map_congr_left fun j _ => ?_
  simpa using packets_get h (j.cast (List.length_map _).symm)

theorem map_get {e : Endian} {img : List UInt8} {datagrams : List (List UInt8)}
    (h : packets e UdpData.DataTypes.image img = .ok datagrams)
    (js : List (Fin datagrams.length)) :
    js.map datagrams.get = (js.map Fin.val).map fun i =>
      (fragment UdpData.DataTypes.image (counted img) i).serialize e := by
  rw [List.map_map]
  exact List.map_congr_left fun j _ => packets_get h j

/-- Whatever arrives of an image, in whatever order and how often, at either receiver. If its
copies fit, then a buffer is handed out although fragments in the middle are missing. -/
theorem handedOut_of_arrivals (asio : Asio) (es er : Endian) (img : List UInt8)
    (r : UdpReceiver) :
    (∀ addr sent,
      BoostUdpConnection.sendData asio es true addr UdpData.DataTypes.image img = .ok sent →
      (∀ (js : List (Fin sent.length)) r' os dataType b,
        Completes (AsioUdpManager.listen er) r (js.map fun j => (sent.get j).2) r'
          (os ++ [.image (dataType, b)]) →
        HandedOut r.assembly.assemblyBuffer (counted img) (js.map Fin.val) b) ∧
      (es = er → Storable (counted img).length → ∀ js : List (Fin sent.length),
        FirstToLast sent.length (js.map Fin.val) →
        ∃ r' os b, Completes (AsioUdpManager.listen er) r (js.map fun j => (sent.get j).2) r'
          (os ++ [.image (UdpData.DataTypes.image, b)]))) ∧
    ∀ cl sent info datagrams,
      AsioUdpManager.broadCast asio es true cl UdpData.DataTypes.image img = .ok sent →
      (info, datagrams) ∈ sent →
      (∀ (js : List (Fin datagrams.length)) r' os b,
        Completes (BoostUdpConnection.listen er) r (js.map datagrams.get) r'
          (os ++ [.image b]) →
        HandedOut r.assembly.assemblyBuffer (counted img) (js.map Fin.val) b) ∧
      (es = er → Storable (counted img).length → ∀ js : List (Fin datagrams.length),
        FirstToLast datagrams.length (js.map Fin.val) →
        ∃ r' os b, Completes (BoostUdpConnection.listen er) r (js.map datagrams.get) r'
          (os ++ [.image b])) := by
  have hn := counted_length_lt img
  constructor
  · intro addr sent hsent
    have hpackets := BoostUdpConnection.packets_of_sendData hsent
    have hlen : sent.length = fragmentCount (counted img).length := by
      rw [← packets_length hpackets, List.length_map]
    constructor
    · intro js r' os dataType b hrun
      rw [map_get_snd hpackets] at hrun
      obtain ⟨b', heq, hb⟩ := handedOut_of_completes hn (fun i hi => by
        obtain ⟨j, -, rfl⟩ := List.mem_map.mp hi
        exact hlen ▸ j.isLt) rfl hrun
      rw [(Prod.mk.inj heq).2]
      exact hb
    · rintro rfl hstorable js hjs
      rw [map_get_snd hpackets]
      refine exists_completes_lossy _ es r _ (by omega) hstorable ?_
      rw [← hlen]
      exact hjs
  · intro cl sent info datagrams hsent hmem
    have hpackets := AsioUdpManager.packets_of_mem_broadCast hsent hmem
    have hlen := packets_length hpackets
    constructor
    · intro js r' os b hrun
      rw [map_get hpackets] at hrun
      obtain ⟨b', rfl, hb⟩ := handedOut_of_completes hn (fun i hi => by
        obtain ⟨j, -, rfl⟩ := List.mem_map.mp hi
        exact hlen ▸ j.isLt) rfl hrun
      exact hb
    · rintro rfl hstorable js hjs
      rw [map_get hpackets]
      refine exists_completes_lossy (fun buffer => buffer) es r _ (by omega) hstorable ?_
      rw [← hlen]
      exact hjs

/-! ## Holes -/

/-- An image of three fragments. -/
def threeFragments : List UInt8 := List.replicate 4399 7

theorem threeFragments_length : threeFragments.length = 4399 := List.length_replicate

theorem threeFragments_sent : ∃ sent, BoostUdpConnection.sendData .loopback .little true localhost
    UdpData.DataTypes.image threeFragments = .ok sent ∧ sent.length = 3 := by
  have hlt : threeFragments.length < 2 ^ 31 := by
    rw [threeFragments_length]
    decide
  refine ⟨_, BoostUdpConnection.sendData_of_lt .little Asio.makeAddress_loopback _ _ hlt, ?_⟩
  rw [List.length_map, fragments_length, threeFragments_length]
  decide

theorem threeFragments_broadCast : ∃ sent datagrams,
    AsioUdpManager.broadCast .loopback .little true [(0, localClient)] UdpData.DataTypes.image
      threeFragments = .ok sent ∧ (localClient, datagrams) ∈ sent ∧ datagrams.length = 3 := by
  have hlt : threeFragments.length < 2 ^ 31 := by
    rw [threeFragments_length]
    decide
  refine ⟨_, _, AsioUdpManager.broadCast_of_lt .little
    (List.forall_mem_singleton.mpr Asio.makeAddress_loopback) _ _ hlt,
    List.mem_singleton_self _, ?_⟩
  rw [fragments_length, threeFragments_length]
  decide

theorem storable_threeFragments : Storable (counted threeFragments).length := by
  rw [counted_of_lt _ (by rw [threeFragments_length]; decide), threeFragments_length]
  exact ⟨by decide, by decide⟩

/-- Its second fragment is lost. -/
theorem firstToLast_hole : FirstToLast 3 [0, 2] :=
  ⟨by decide, [], nofun, rfl⟩

/-- A buffer is handed out although the second fragment has not arrived. -/
theorem handed_out_with_hole :
    (∃ sent, BoostUdpConnection.sendData .loopback .little true localhost UdpData.DataTypes.image
        threeFragments = .ok sent ∧
      ∃ (js : List (Fin sent.length)) (k : Fin sent.length) (r' : UdpReceiver)
        (os : List (UdpEffect (UInt16 × List UInt8))) (b : List UInt8),
        k ∉ js ∧ Completes (AsioUdpManager.listen .little) .start
          (js.map fun j => (sent.get j).2) r' (os ++ [.image (UdpData.DataTypes.image, b)])) ∧
    ∃ sent datagrams,
      AsioUdpManager.broadCast .loopback .little true [(0, localClient)] UdpData.DataTypes.image
        threeFragments = .ok sent ∧ (localClient, datagrams) ∈ sent ∧
      ∃ (js : List (Fin datagrams.length)) (k : Fin datagrams.length) (r' : UdpReceiver)
        (os : List (UdpEffect (List UInt8))) (b : List UInt8),
        k ∉ js ∧ Completes (BoostUdpConnection.listen .little) .start (js.map datagrams.get) r'
          (os ++ [.image b]) := by
  have hcount : fragmentCount (counted threeFragments).length = 3 := by
    rw [counted_of_lt _ (by rw [threeFragments_length]; decide), threeFragments_length]
    decide
  have hlossy {α : Type} (hand : List UInt8 → α) := exists_completes_lossy hand .little .start
    (counted threeFragments) (Nat.lt_of_add_right_lt (counted_length_lt _))
    storable_threeFragments (hcount ▸ firstToLast_hole)
  constructor
  · obtain ⟨sent, hsent, hlen⟩ := threeFragments_sent
    obtain ⟨r', os, b, hrun⟩ := hlossy fun buffer => (UdpData.DataTypes.image, buffer)
    refine ⟨sent, hsent, [⟨0, by omega⟩, ⟨2, by omega⟩], ⟨1, by omega⟩, r', os, b, by simp, ?_⟩
    rw [map_get_snd (BoostUdpConnection.packets_of_sendData hsent)]
    exact hrun
  · obtain ⟨sent, datagrams, hsent, hmem, hlen⟩ := threeFragments_broadCast
    obtain ⟨r', os, b, hrun⟩ := hlossy fun buffer => buffer
    refine ⟨sent, datagrams, hsent, hmem, [⟨0, by omega⟩, ⟨2, by omega⟩], ⟨1, by omega⟩, r', os,
      b, by simp, ?_⟩
    rw [map_get (AsioUdpManager.packets_of_mem_broadCast hsent hmem)]
    exact hrun

/-- What is handed out has the second fragment missing. -/
theorem handedOut_threeFragments : ∃ b, HandedOut [] (counted threeFragments) [0, 2] b := by
  obtain ⟨sent, hsent, hlen⟩ := threeFragments_sent
  obtain ⟨hhanded, hlossy⟩ :=
    (handedOut_of_arrivals .loopback .little .little threeFragments .start).1 localhost sent hsent
  obtain ⟨r', os, b, hrun⟩ := hlossy rfl storable_threeFragments
    [⟨0, by omega⟩, ⟨2, by omega⟩] (hlen ▸ firstToLast_hole)
  exact ⟨b, hhanded _ r' os _ b hrun⟩

end P2PWatcher
