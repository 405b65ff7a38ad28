import P2PWatcher.Udp.Image

/-!
# One image from one program to the other

The datagrams of one image arrive in order and nothing else arrives in between.
Then the other side hands out the image if and only if both hosts have the same
byte order, the last fragment has at least 1455 bytes, and every byte that lies
among the last 17 of a full fragment is zero. The same holds in both directions,
since both programs have the same sender and the same receiver.
-/

namespace P2PWatcher

open Memory Machine

/-- The server, in the state `r`, gets the datagrams that the client's `sendData`
makes of `img`, and hands exactly one buffer to `broadCast`, namely `img`. -/
def ServerReceives (asio : Asio) (es er : Endian) (r : UdpReceiver) (addr img : List UInt8) :
    Prop :=
  ∃ sent r' os,
    BoostUdpConnection.sendData asio es true addr UdpData.DataTypes.image img = .ok sent ∧
    Completes (AsioUdpManager.listen er) r (sent.map Prod.snd) r' os ∧
    os.filterMap UdpEffect.handed? = [(UdpData.DataTypes.image, img)]

/-- The client `info` among the clients `cl`, in the state `r`, gets the datagrams
that the server's `broadCast` makes of `img` for it, and `signal_update_image_`
fires exactly once, with `img`. -/
def ClientReceives (asio : Asio) (es er : Endian) (r : UdpReceiver)
    (cl : List (UInt32 × ClientInfo)) (info : ClientInfo) (img : List UInt8) : Prop :=
  ∃ sent datagrams r' os,
    AsioUdpManager.broadCast asio es true cl UdpData.DataTypes.image img = .ok sent ∧
    (info, datagrams) ∈ sent ∧ Completes (BoostUdpConnection.listen er) r datagrams r' os ∧
    os.filterMap UdpEffect.handed? = [img]

/-- The last fragment has 1455 bytes or more, and the bytes behind the first 1455 of
every fragment are zero. -/
def Survives (img : List UInt8) : Prop :=
  1454 ≤ (img.length - 1) % 1472 ∧
    ∀ p (h : p < img.length), 1455 ≤ p % 1472 → img[p] = 0

theorem storable_iff (n : ℕ) (hpos : 0 < n) (hle : n ≤ 65535 * 1472) :
    Storable n ↔ 1454 ≤ (n - 1) % 1472 := by
  simp only [Storable, lt_fragmentCount_iff]
  constructor
  · rintro ⟨-, h⟩
    have hlast := h ((n - 1) / 1472) (by omega)
    omega
  · intro h
    exact ⟨by rw [fragmentCount]; omega, fun i hi => by omega⟩

theorem arrived_eq_self_iff (img : List UInt8) :
    arrived img = img ↔ ∀ p (h : p < img.length), 1455 ≤ p % 1472 → img[p] = 0 := by
  rw [arrived, mask_eq_self_iff]
  simp only [decide_eq_false_iff_not, Nat.not_lt]

/-- The fragments of an image, in order, at a receiver in any state. -/
theorem hands_out_iff {α : Type} {hand : List UInt8 → α} (hhand : hand.Injective)
    (es er : Endian) (r : UdpReceiver) (img : List UInt8) (hpos : 0 < img.length)
    (hle : img.length ≤ 65535 * 1472) :
    (∃ r' os, Completes (UdpReceiver.receive (processDatagram hand er)) r
        (fragments es UdpData.DataTypes.image img) r' os ∧
          os.filterMap UdpEffect.handed? = [hand img]) ↔
      es = er ∧ Survives img := by
  by_cases he : es = er
  · subst he
    have hne : img ≠ [] := List.length_pos_iff.mp hpos
    rw [exists_completes_fragments_iff hand es r img (by omega), Survives, arrivals, if_neg hne,
      storable_iff _ hpos hle, ← arrived_eq_self_iff, List.map_singleton, List.singleton_inj,
      hhand.eq_iff]
    exact (and_iff_right rfl).symm
  · have himage : ∀ pkt ∈ imagePackets img, pkt.IsImage := isImage_of_mem_map_fragment img _
    obtain ⟨r₁, os₁, hrun₁, hos₁⟩ := completes_foreign hand he _ himage r
    rw [← fragments_image] at hrun₁
    constructor
    · rintro ⟨r', os, hrun, hos⟩
      rw [(completes_unique hrun hrun₁).2, hos₁] at hos
      exact absurd hos (List.cons_ne_nil _ _).symm
    · rintro ⟨heq, -⟩
      exact absurd heq he

theorem serverReceives_iff {asio : Asio} (es er : Endian) (r : UdpReceiver) {addr : List UInt8}
    (haddr : asio.makeAddress addr = true) (img : List UInt8) (hpos : 0 < img.length)
    (hle : img.length ≤ 65535 * 1472) :
    ServerReceives asio es er r addr img ↔ es = er ∧ Survives img := by
  have hhand : Function.Injective fun buffer : List UInt8 => (UdpData.DataTypes.image, buffer) :=
    Prod.mk_right_injective _
  rw [← hands_out_iff hhand es er r img hpos hle]
  have hsent := BoostUdpConnection.sendData_of_lt es haddr UdpData.DataTypes.image img (by omega)
  have hsnd : ((fragments es UdpData.DataTypes.image img).map fun datagram =>
      (({ addr, port := Constants.serverPort } : ClientInfo), datagram)).map Prod.snd =
        fragments es UdpData.DataTypes.image img := by
    rw [List.map_map]
    exact List.map_id _
  constructor
  · rintro ⟨sent, r', os, hsent', hrun, hos⟩
    rw [hsent, Except.ok.injEq] at hsent'
    rw [← hsent', hsnd] at hrun
    exact ⟨r', os, hrun, hos⟩
  · rintro ⟨r', os, hrun, hos⟩
    rw [← hsnd] at hrun
    exact ⟨_, r', os, hsent, hrun, hos⟩

theorem clientReceives_iff {asio : Asio} (es er : Endian) (r : UdpReceiver)
    {cl : List (UInt32 × ClientInfo)} (hcl : ∀ client ∈ cl, asio.makeAddress client.2.addr = true)
    {id : UInt32} {info : ClientInfo} (hmem : (id, info) ∈ cl) (img : List UInt8)
    (hpos : 0 < img.length) (hle : img.length ≤ 65535 * 1472) :
    ClientReceives asio es er r cl info img ↔ es = er ∧ Survives img := by
  rw [← hands_out_iff Function.injective_id es er r img hpos hle]
  have hsent := AsioUdpManager.broadCast_of_lt es hcl UdpData.DataTypes.image img (by omega)
  constructor
  · rintro ⟨sent, datagrams, r', os, hsent', hin, hrun, hos⟩
    rw [hsent, Except.ok.injEq] at hsent'
    rw [← hsent'] at hin
    obtain ⟨client, -, heq⟩ := List.mem_map.mp hin
    rw [← (Prod.mk.inj heq).2] at hrun
    exact ⟨r', os, hrun, hos⟩
  · rintro ⟨r', os, hrun, hos⟩
    exact ⟨_, _, r', os, hsent, List.mem_map.mpr ⟨(id, info), hmem, rfl⟩, hrun, hos⟩

/-- Exactly when an image arrives, in either direction, if the addresses it is sent to are
addresses. -/
theorem image_received_iff (asio : Asio) (es er : Endian) (r : UdpReceiver) (img : List UInt8)
    (hpos : 0 < img.length) (hle : img.length ≤ 65535 * 1472) :
    (∀ addr, asio.makeAddress addr = true →
      (ServerReceives asio es er r addr img ↔ es = er ∧ Survives img)) ∧
      ∀ cl, (∀ client ∈ cl, asio.makeAddress client.2.addr = true) →
        ∀ id info, (id, info) ∈ cl →
          (ClientReceives asio es er r cl info img ↔ es = er ∧ Survives img) :=
  ⟨fun _ haddr => serverReceives_iff es er r haddr img hpos hle,
    fun _ hcl _ _ hmem => clientReceives_iff es er r hcl hmem img hpos hle⟩

theorem not_survives_replicate : ¬ Survives (List.replicate 1472 1) := by
  rintro ⟨-, h⟩
  have hlast := h 1455 (by rw [List.length_replicate]; decide) (by decide)
  rw [List.getElem_replicate] at hlast
  exact absurd hlast (by decide)

theorem makeAddress_localClient : ∀ client ∈ [((0 : UInt32), localClient)],
    Asio.loopback.makeAddress client.2.addr = true :=
  List.forall_mem_singleton.mpr Asio.makeAddress_loopback

/-- An image of one full fragment of ones loses its last 17 bytes. -/
theorem image_received_fails :
    ¬ ServerReceives .loopback .little .little .start localhost (List.replicate 1472 1) ∧
      ¬ ClientReceives .loopback .little .little .start [(0, localClient)] localClient
        (List.replicate 1472 1) := by
  have hlen : (List.replicate 1472 (1 : UInt8)).length = 1472 := List.length_replicate
  constructor
  · rw [serverReceives_iff _ _ _ Asio.makeAddress_loopback _ (by rw [hlen]; decide)
      (by rw [hlen]; decide)]
    exact fun h => not_survives_replicate h.2
  · rw [clientReceives_iff _ _ _ makeAddress_localClient (List.mem_singleton_self _) _
      (by rw [hlen]; decide) (by rw [hlen]; decide)]
    exact fun h => not_survives_replicate h.2

/-- An image of 1455 ones arrives, in both directions. -/
theorem image_received_ones :
    ServerReceives .loopback .little .little .start localhost (List.replicate 1455 1) ∧
      ClientReceives .loopback .little .little .start [(0, localClient)] localClient
        (List.replicate 1455 1) := by
  have hlen : (List.replicate 1455 (1 : UInt8)).length = 1455 := List.length_replicate
  have hsurvives : Survives (List.replicate 1455 1) := by
    refine ⟨by rw [hlen], fun p hp hmod => ?_⟩
    rw [hlen] at hp
    rw [Nat.mod_eq_of_lt (by omega)] at hmod
    omega
  obtain ⟨hserver, hclient⟩ := image_received_iff .loopback .little .little .start
    (List.replicate 1455 1) (by rw [hlen]; decide) (by rw [hlen]; decide)
  exact ⟨(hserver localhost Asio.makeAddress_loopback).mpr ⟨rfl, hsurvives⟩,
    (hclient _ makeAddress_localClient 0 _ (List.mem_singleton_self _)).mpr ⟨rfl, hsurvives⟩⟩

end P2PWatcher
