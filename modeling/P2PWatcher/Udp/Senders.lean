import P2PWatcher.Udp.Image

/-!
# Two senders

The assembly buffer of the server is one for all clients and keyed by nothing.
Two clients who send images at the same time therefore exclude one another:
`broadCasts_perm_iff` says that an interleaving of their datagrams gives the
same broadcasts as the two sequences one after the other if and only if it keeps
the fragments of every image together.
-/

namespace P2PWatcher

open Memory Machine Sequence Reassembly

/-- The datagrams of some images, image by image. -/
def sequences (e : Endian) (imgs : List (List UInt8)) : List (List (List UInt8)) :=
  imgs.map (fragments e UdpData.DataTypes.image)

theorem sequences_flatten (e : Endian) (imgs : List (List UInt8)) :
    (sequences e imgs).flatten = (imgs.map indexed).flatten.map (datagram e) := by
  rw [sequences, List.map_flatten, List.map_map]
  congr 1
  exact List.map_congr_left fun img _ => (indexed_map_datagram e img).symm

theorem storable_of_completes_sequences {α : Type} {hand : List UInt8 → α} {e : Endian}
    {r r' : UdpReceiver} {imgs : List (List UInt8)}
    (hn : ∀ img ∈ imgs, img.length + 1471 < 2 ^ 32) {os : List (UdpEffect α)}
    (h : Completes (UdpReceiver.receive (processDatagram hand e)) r (sequences e imgs).flatten
      r' os) : ∀ img ∈ imgs, Storable img.length := by
  induction imgs generalizing r os with
  | nil => exact fun img himg => absurd himg List.not_mem_nil
  | cons img imgs ih =>
      obtain ⟨himg, hn⟩ := List.forall_mem_cons.mp hn
      obtain ⟨r₁, os₁, os₂, h₁, h₂, -⟩ := (completes_append_iff _ _ _ _ _ _).mp h
      exact List.forall_mem_cons.mpr ⟨storable_of_completes himg h₁, ih hn h₂⟩

theorem isMessage_indexed {imgs : List (List UInt8)}
    (h : ∀ img ∈ imgs, Storable img.length) : ∀ m ∈ imgs.map indexed,
      IsMessage (m.map fun x => imageBlock x.1 x.2) := by
  rw [List.forall_mem_map]
  intro img himg
  rw [indexed_map_imageBlock]
  exact isMessage_imageBlocks img (h img himg)

theorem fitsTotal_indexed {imgs : List (List UInt8)}
    (h : ∀ img ∈ imgs, Storable img.length) : ∀ m ∈ imgs.map indexed,
      FitsTotal (m.map fun x => imageBlock x.1 x.2) := by
  rw [List.forall_mem_map]
  intro img himg
  rw [indexed_map_imageBlock]
  exact fitsTotal_imageBlocks img (h img himg)

theorem forall_mem_indexed_flatten {imgs : List (List UInt8)}
    (hn : ∀ img ∈ imgs, img.length + 1471 < 2 ^ 32) (h : ∀ img ∈ imgs, Storable img.length) :
    ∀ x ∈ (imgs.map indexed).flatten, x.1.length < 2 ^ 32 ∧ Storable x.1.length ∧
      x.2 < fragmentCount x.1.length := by
  intro x hx
  obtain ⟨m, hm, hxm⟩ := List.mem_flatten.mp hx
  obtain ⟨img, himg, rfl⟩ := List.mem_map.mp hm
  have hlt := hn img himg
  exact forall_mem_indexed img (by omega) (h img himg) x hxm

/-- An interleaving that runs through keeps the fragments of every image together. -/
theorem exists_interleave_of_completes {α : Type} (hand : List UInt8 → α) (e : Endian)
    {r r₁ : UdpReceiver} {xs ys : List (List UInt8)}
    (hn : ∀ img ∈ xs ++ ys, img.length + 1471 < 2 ^ 32)
    (hstorable : ∀ img ∈ xs ++ ys, Storable img.length) {w : List (List UInt8)}
    (hw : Interleave (sequences e xs).flatten (sequences e ys).flatten w)
    {os₁ : List (UdpEffect α)}
    (h : Completes (UdpReceiver.receive (processDatagram hand e)) r w r₁ os₁) :
    ∃ g, Interleave (sequences e xs) (sequences e ys) g ∧ w = g.flatten := by
  obtain ⟨hx, hy⟩ := List.forall_mem_append.mp hstorable
  have hitems := forall_mem_indexed_flatten hn hstorable
  rw [List.map_append, List.flatten_append] at hitems
  rw [sequences_flatten, sequences_flatten] at hw
  obtain ⟨ws, hws, rfl⟩ := Interleave.exists_of_map (datagram e) hw
  obtain ⟨os', hrun, -⟩ := (completes_datagram_iff hand e
    (fun x hx => hitems x (hws.perm.mem_iff.mp hx)) r r₁.assembly.assemblyBuffer os₁).mp
      ⟨r₁, h, rfl⟩
  obtain ⟨g, hg, rfl⟩ := serial_of_completes (isMessage_indexed hx) (isMessage_indexed hy)
    hws hrun
  refine ⟨g.map (List.map (datagram e)), ?_, List.map_flatten ..⟩
  have hgm := hg.map (List.map (datagram e))
  rw [List.map_map, List.map_map] at hgm
  simpa only [sequences, Function.comp_def, indexed_map_datagram] using hgm

/-- Images whose fragments stay together are handed out whatever their order is. -/
theorem exists_perm_of_interleave {α : Type} (hand : List UInt8 → α) (e : Endian)
    (r : UdpReceiver) {xs ys : List (List UInt8)}
    (hn : ∀ img ∈ xs ++ ys, img.length + 1471 < 2 ^ 32)
    (hstorable : ∀ img ∈ xs ++ ys, Storable img.length) {g : List (List (List UInt8))}
    (hg : Interleave (sequences e xs) (sequences e ys) g) :
    ∃ r₁ os₁ r₂ os₂,
      Completes (UdpReceiver.receive (processDatagram hand e)) r g.flatten r₁ os₁ ∧
      Completes (UdpReceiver.receive (processDatagram hand e)) r
        ((sequences e xs).flatten ++ (sequences e ys).flatten) r₂ os₂ ∧
      (os₁.filterMap UdpEffect.handed?).Perm (os₂.filterMap UdpEffect.handed?) := by
  obtain ⟨hx, hy⟩ := List.forall_mem_append.mp hstorable
  have hitems := forall_mem_indexed_flatten hn hstorable
  have hfits := fitsTotal_indexed hstorable
  rw [List.map_append] at hitems hfits
  rw [List.flatten_append] at hitems
  obtain ⟨gi, hgi, rfl⟩ := Interleave.exists_of_map _ hg
  have hws := (hgi.map indexed).flatten
  obtain ⟨buf₁, os₁, buf₂, os₂, h₁, h₂, hperm⟩ :=
    (interleave_handouts_iff (a := (0 : UInt8)) (fun x => imageBlock x.1 x.2)
      r.assembly.assemblyBuffer (isMessage_indexed hx) (isMessage_indexed hy) hws).mpr
        ⟨hfits, _, hgi.map indexed, rfl⟩
  obtain ⟨r₁, hrun₁, -⟩ := (completes_datagram_iff hand e
    (fun x hx => hitems x (hws.perm.mem_iff.mp hx)) r buf₁ _).mpr ⟨os₁, h₁, rfl⟩
  obtain ⟨r₂, hrun₂, -⟩ := (completes_datagram_iff hand e hitems r buf₂ _).mpr ⟨os₂, h₂, rfl⟩
  rw [← sequences_flatten] at hrun₁
  rw [List.map_append, ← sequences_flatten, ← sequences_flatten] at hrun₂
  refine ⟨r₁, _, r₂, _, hrun₁, hrun₂, ?_⟩
  rw [filterMap_handed?, filterMap_handed?]
  exact hperm.map hand

/-- The images `xs` of one sender and `ys` of another at one receiver. -/
theorem interleave_sequences_iff {α : Type} (hand : List UInt8 → α) (e : Endian)
    (r : UdpReceiver) {xs ys : List (List UInt8)}
    (hxs : ∀ img ∈ xs, img.length + 1471 < 2 ^ 32)
    (hys : ∀ img ∈ ys, img.length + 1471 < 2 ^ 32) {w : List (List UInt8)}
    (hw : Interleave (sequences e xs).flatten (sequences e ys).flatten w) :
    (∃ r₁ os₁ r₂ os₂,
        Completes (UdpReceiver.receive (processDatagram hand e)) r w r₁ os₁ ∧
        Completes (UdpReceiver.receive (processDatagram hand e)) r
          ((sequences e xs).flatten ++ (sequences e ys).flatten) r₂ os₂ ∧
        (os₁.filterMap UdpEffect.handed?).Perm (os₂.filterMap UdpEffect.handed?)) ↔
      (∃ r₂ os₂, Completes (UdpReceiver.receive (processDatagram hand e)) r
          ((sequences e xs).flatten ++ (sequences e ys).flatten) r₂ os₂) ∧
        ∃ g, Interleave (sequences e xs) (sequences e ys) g ∧ w = g.flatten := by
  have hn : ∀ img ∈ xs ++ ys, img.length + 1471 < 2 ^ 32 := List.forall_mem_append.mpr ⟨hxs, hys⟩
  -- a sequential run that completes tells that the images have room for all copies
  have hstorable : (∃ r₂ os₂, Completes (UdpReceiver.receive (processDatagram hand e)) r
      ((sequences e xs).flatten ++ (sequences e ys).flatten) r₂ os₂) →
        ∀ img ∈ xs ++ ys, Storable img.length := by
    rintro ⟨r₂, os₂, hrun⟩
    rw [← List.flatten_append, sequences, sequences, ← List.map_append] at hrun
    exact storable_of_completes_sequences hn hrun
  constructor
  · rintro ⟨r₁, os₁, r₂, os₂, h₁, h₂, -⟩
    exact ⟨⟨r₂, os₂, h₂⟩,
      exists_interleave_of_completes hand e hn (hstorable ⟨r₂, os₂, h₂⟩) hw h₁⟩
  · rintro ⟨hrun, g, hg, rfl⟩
    exact exists_perm_of_interleave hand e r hn (hstorable hrun) hg

theorem exists_completes_sequences {α : Type} (hand : List UInt8 → α) (e : Endian)
    (r : UdpReceiver) {imgs : List (List UInt8)}
    (h : ∀ img ∈ imgs, img.length + 1471 < 2 ^ 32 ∧ Storable img.length) :
    ∃ r' os, Completes (UdpReceiver.receive (processDatagram hand e)) r
      (sequences e imgs).flatten r' os := by
  induction imgs generalizing r with
  | nil => exact ⟨r, [], (completes_nil_iff _ _ _ _).mpr ⟨rfl, rfl⟩⟩
  | cons img imgs ih =>
      obtain ⟨⟨hn, hstorable⟩, himgs⟩ := List.forall_mem_cons.mp h
      obtain ⟨r₁, os₁, h₁, -⟩ :=
        (exists_completes_fragments_iff hand e r img hn _).mpr ⟨hstorable, rfl⟩
      obtain ⟨r', os₂, h₂⟩ := ih r₁ himgs
      exact ⟨r', os₁ ++ os₂, (completes_append_iff _ _ _ _ _ _).mpr
        ⟨r₁, os₁, os₂, h₁, h₂, rfl⟩⟩

/-- What a client sends for a list of images. -/
theorem map_snd_of_mapM_sendData {asio : Asio} {e : Endian} {addr : List UInt8}
    {imgs : List (List UInt8)} {sent : List (List (ClientInfo × List UInt8))}
    (h : imgs.mapM (BoostUdpConnection.sendData asio e true addr UdpData.DataTypes.image) =
      .ok sent) : sent.map (List.map Prod.snd) = sequences e (imgs.map counted) := by
  have hsent := ((mapM_eq_ok_iff imgs (fun img _ sent => BoostUdpConnection.sendData_eq_ok_iff
    asio e addr UdpData.DataTypes.image img sent) sent).mp h).2
  rw [← hsent, sequences, List.map_map, List.map_map]
  refine List.map_congr_left fun img _ => ?_
  rw [Function.comp_apply, List.map_map]
  exact List.map_id _

theorem forall_mem_map_counted (imgs : List (List UInt8)) :
    ∀ img ∈ imgs.map counted, img.length + 1471 < 2 ^ 32 :=
  List.forall_mem_map.mpr fun img _ => counted_length_lt img

/-- The broadcasts of the server while two clients send images. -/
theorem broadCasts_perm_iff (asioA asioB : Asio) (e : Endian) (r : UdpReceiver)
    {addrA addrB : List UInt8} {imgsA imgsB : List (List UInt8)}
    {sentA sentB : List (List (ClientInfo × List UInt8))}
    (hA : imgsA.mapM (BoostUdpConnection.sendData asioA e true addrA UdpData.DataTypes.image) =
      .ok sentA)
    (hB : imgsB.mapM (BoostUdpConnection.sendData asioB e true addrB UdpData.DataTypes.image) =
      .ok sentB)
    {w : List (List UInt8)}
    (hw : Interleave (sentA.map (List.map Prod.snd)).flatten
      (sentB.map (List.map Prod.snd)).flatten w) :
    (∃ r₁ os₁ r₂ os₂, Completes (AsioUdpManager.listen e) r w r₁ os₁ ∧
        Completes (AsioUdpManager.listen e) r ((sentA.map (List.map Prod.snd)).flatten ++
          (sentB.map (List.map Prod.snd)).flatten) r₂ os₂ ∧
        (os₁.filterMap UdpEffect.handed?).Perm (os₂.filterMap UdpEffect.handed?)) ↔
      (∃ r₂ os₂, Completes (AsioUdpManager.listen e) r
        ((sentA.map (List.map Prod.snd)).flatten ++
          (sentB.map (List.map Prod.snd)).flatten) r₂ os₂) ∧
      ∃ g, Interleave (sentA.map (List.map Prod.snd)) (sentB.map (List.map Prod.snd)) g ∧
        w = g.flatten := by
  rw [map_snd_of_mapM_sendData hA, map_snd_of_mapM_sendData hB] at *
  exact interleave_sequences_iff _ e r (forall_mem_map_counted imgsA)
    (forall_mem_map_counted imgsB) hw

/-! ## Two images of two fragments -/

/-- An image of two fragments of the byte `v`. -/
def twoFragments (v : UInt8) : List UInt8 := List.replicate 2927 v

theorem twoFragments_length (v : UInt8) : (twoFragments v).length = 2927 :=
  List.length_replicate

theorem counted_twoFragments (v : UInt8) : counted (twoFragments v) = twoFragments v :=
  counted_of_lt _ (by rw [twoFragments_length]; decide)

theorem storable_twoFragments (v : UInt8) : Storable (twoFragments v).length := by
  rw [twoFragments_length]
  exact ⟨by decide, by decide⟩

theorem sequences_twoFragments (e : Endian) (v : UInt8) :
    sequences e ([twoFragments v].map counted) =
      [[datagram e (twoFragments v, 0), datagram e (twoFragments v, 1)]] := by
  rw [List.map_singleton, counted_twoFragments, sequences, List.map_singleton, fragments,
    twoFragments_length]
  rfl

theorem twoFragments_sent (v : UInt8) : ∃ sent,
    [twoFragments v].mapM (BoostUdpConnection.sendData .loopback .little true localhost
      UdpData.DataTypes.image) = .ok sent := by
  have hsent := BoostUdpConnection.sendData_of_lt .little Asio.makeAddress_loopback
    UdpData.DataTypes.image (twoFragments v) (by rw [twoFragments_length]; decide)
  exact ⟨_, by rw [List.mapM_cons, hsent]; rfl⟩

/-- The second fragment of an image is not the first one of another. -/
theorem datagram_one_ne_zero (e : Endian) (img img' : List UInt8) :
    datagram e (img, 1) ≠ datagram e (img', 0) := by
  intro h
  have hnumber := congrArg (fun pkt => pkt.header.curPacketNumber)
    (Packet.serialize_injective e h)
  exact absurd hnumber (by decide : UInt16.ofNat (1 + 1) ≠ UInt16.ofNat (0 + 1))

theorem completes_twoFragments : ∃ r' os, Completes (AsioUdpManager.listen .little) .start
    ((sequences .little ([twoFragments 1].map counted)).flatten ++
      (sequences .little ([twoFragments 2].map counted)).flatten) r' os := by
  have himgs : ∀ img ∈ [twoFragments 1, twoFragments 2],
      img.length + 1471 < 2 ^ 32 ∧ Storable img.length := by
    intro img himg
    rcases List.mem_pair.mp himg with rfl | rfl <;>
      exact ⟨by rw [twoFragments_length]; decide, storable_twoFragments _⟩
  have hrun := exists_completes_sequences
    (fun buffer : List UInt8 => (UdpData.DataTypes.image, buffer)) .little .start himgs
  rw [List.map_singleton, List.map_singleton, counted_twoFragments, counted_twoFragments,
    ← List.flatten_append]
  exact hrun

/-- The fragments of two images in turn: the server does not broadcast what it does
for one image after the other. -/
theorem broadCasts_perm_fails : ∃ sentA sentB w,
    [twoFragments 1].mapM (BoostUdpConnection.sendData .loopback .little true localhost
      UdpData.DataTypes.image) = .ok sentA ∧
    [twoFragments 2].mapM (BoostUdpConnection.sendData .loopback .little true localhost
      UdpData.DataTypes.image) = .ok sentB ∧
    Interleave (sentA.map (List.map Prod.snd)).flatten
      (sentB.map (List.map Prod.snd)).flatten w ∧
    (∃ r₂ os₂, Completes (AsioUdpManager.listen .little) .start
      ((sentA.map (List.map Prod.snd)).flatten ++ (sentB.map (List.map Prod.snd)).flatten)
      r₂ os₂) ∧
    ¬ ∃ r₁ os₁ r₂ os₂, Completes (AsioUdpManager.listen .little) .start w r₁ os₁ ∧
      Completes (AsioUdpManager.listen .little) .start
        ((sentA.map (List.map Prod.snd)).flatten ++ (sentB.map (List.map Prod.snd)).flatten)
        r₂ os₂ ∧
      (os₁.filterMap UdpEffect.handed?).Perm (os₂.filterMap UdpEffect.handed?) := by
  obtain ⟨sentA, hA⟩ := twoFragments_sent 1
  obtain ⟨sentB, hB⟩ := twoFragments_sent 2
  let w := [datagram .little (twoFragments 1, 0), datagram .little (twoFragments 2, 0),
    datagram .little (twoFragments 1, 1), datagram .little (twoFragments 2, 1)]
  refine ⟨sentA, sentB, w, hA, hB, ?_⟩
  rw [map_snd_of_mapM_sendData hA, map_snd_of_mapM_sendData hB]
  have hw : Interleave (sequences .little ([twoFragments 1].map counted)).flatten
      (sequences .little ([twoFragments 2].map counted)).flatten w := by
    rw [sequences_twoFragments, sequences_twoFragments]
    exact .left (.right (.left (.right .nil)))
  refine ⟨hw, completes_twoFragments, ?_⟩
  intro hsame
  obtain ⟨-, g, hg, hcut⟩ := (interleave_sequences_iff _ .little .start
    (forall_mem_map_counted _) (forall_mem_map_counted _) hw).mp hsame
  rw [sequences_twoFragments, sequences_twoFragments] at hg
  cases hg with
  | left hg =>
      rw [hg.eq_of_nil_left] at hcut
      obtain ⟨-, hsecond, -⟩ := List.cons_eq_cons.mp hcut |>.imp id List.cons_eq_cons.mp
      exact datagram_one_ne_zero _ _ _ hsecond.symm
  | right hg =>
      rw [hg.eq_of_nil_right] at hcut
      obtain ⟨-, hsecond, -⟩ := List.cons_eq_cons.mp hcut |>.imp id List.cons_eq_cons.mp
      exact datagram_one_ne_zero _ _ _ hsecond.symm

/-- One image after the other is an interleaving that keeps the images together. -/
theorem broadCasts_perm_sequential : ∃ sentA sentB r₁ os₁ r₂ os₂,
    [twoFragments 1].mapM (BoostUdpConnection.sendData .loopback .little true localhost
      UdpData.DataTypes.image) = .ok sentA ∧
    [twoFragments 2].mapM (BoostUdpConnection.sendData .loopback .little true localhost
      UdpData.DataTypes.image) = .ok sentB ∧
    Completes (AsioUdpManager.listen .little) .start
      ((sentA.map (List.map Prod.snd)).flatten ++ (sentB.map (List.map Prod.snd)).flatten)
      r₁ os₁ ∧
    Completes (AsioUdpManager.listen .little) .start
      ((sentA.map (List.map Prod.snd)).flatten ++ (sentB.map (List.map Prod.snd)).flatten)
      r₂ os₂ ∧
    (os₁.filterMap UdpEffect.handed?).Perm (os₂.filterMap UdpEffect.handed?) := by
  obtain ⟨sentA, hA⟩ := twoFragments_sent 1
  obtain ⟨sentB, hB⟩ := twoFragments_sent 2
  have hrun := completes_twoFragments
  rw [← map_snd_of_mapM_sendData hA, ← map_snd_of_mapM_sendData hB] at hrun
  obtain ⟨r₁, os₁, r₂, os₂, h₁, h₂, hperm⟩ :=
    (broadCasts_perm_iff .loopback .loopback .little .start hA hB (Interleave.append _ _)).mpr
      ⟨hrun, _, Interleave.append _ _, List.flatten_append.symm⟩
  exact ⟨sentA, sentB, r₁, os₁, r₂, os₂, hA, hB, h₁, h₂, hperm⟩

end P2PWatcher
