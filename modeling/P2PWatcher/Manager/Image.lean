import P2PWatcher.Manager.Alive
import P2PWatcher.Udp.Origin
import P2PWatcher.Udp.Transfer

/-!
# One image through the server

A turn of `listen` takes a loop two steps: the receive completes, and its handler runs. So
the datagrams of an image that reach the server in order, with nothing in between, make the process
relay the image once, to everybody who is in the map. What arrives there is the
image with the last 17 of every 1472 bytes set to zero. The clients that get these
datagrams in order hand out just that: the second hop loses nothing more (`relayed_image`).

The turns are also all that a run of the process comes to for its receiver, whatever the
sessions and the timer do in between (`relayed_of_completes`). So if images come one after the
other, each is relayed once (`relayed_of_images`).
-/

namespace P2PWatcher

open Memory Machine Sequence

/-! ## The turns of a loop -/

namespace ReceiveLoop

/-- The socket is open and there is one receive, which is pending. -/
structure Listening (s : ReceiveLoop) : Prop where
  isOpen : s.isOpen = true
  receives : s.receives = [{ opening := s.opening }]

/-- The datagram has come. -/
def withDatagram (s : ReceiveLoop) (d : List UInt8) : ReceiveLoop :=
  { s with
    receives := [{ opening := s.opening, result := some (.ok (min d.length Constants.bufferSize)) }]
    receiver := { s.receiver with buffer := s.receiver.buffer.receive d } }

section

variable {α : Type} (start : ReceiveLoop → List UInt8 → UInt16 → Except LoopStop ReceiveLoop)
  {process : Assembly → List UInt8 → Except Fault (Assembly × UdpEffect α)} {s : ReceiveLoop}

theorem Listening.step_received (hs : s.Listening) (d : List UInt8) :
    ReceiveLoop.step start process s (.received 0 (.ok d)) = .ok (s.withDatagram d, .quiet) := by
  rw [ReceiveLoop.step, complete, hs.receives]
  rfl

theorem Listening.step_handled (hs : s.Listening) {d : List UInt8} {r : UdpReceiver}
    {effect : UdpEffect α} (h : UdpReceiver.receive process s.receiver d = .ok (r, effect)) :
    ReceiveLoop.step start process (s.withDatagram d) (.handled 0) =
      .ok ({ s with receiver := r }, .turn effect) := by
  have hrearm : ∀ receiver, rearm { s with receives := [], receiver } =
      { s with receiver } := fun receiver => by
    rw [rearm_eq]
    simp only [List.nil_append, hs.isOpen, if_true, ← hs.receives]
  rw [UdpReceiver.receive] at h
  rw [ReceiveLoop.step, handle, withDatagram]
  simp only [List.getElem?_cons_zero, List.eraseIdx_cons_zero]
  split at h
  · next hpos =>
      obtain ⟨⟨assembly, effect⟩, hprocess, heq⟩ := (bind_eq_ok_iff _ _ _).mp h
      obtain ⟨rfl, rfl⟩ := Prod.mk.inj (Except.ok.inj heq)
      rw [if_pos hpos, hprocess]
      simp only [hrearm]
  · next hzero =>
      obtain ⟨rfl, rfl⟩ := Prod.mk.inj (Except.ok.inj h)
      rw [if_neg hzero, hrearm]

end

/-- The datagram comes, and its handler runs. -/
def turnEvents (d : List UInt8) : List LoopEvent := [.received 0 (.ok d), .handled 0]

def turnOutputs {α : Type} (effect : UdpEffect α) : List (LoopOutput α) := [.quiet, .turn effect]

/-- A turn of `listen`. -/
theorem realizes_receive {α : Type}
    (start : ReceiveLoop → List UInt8 → UInt16 → Except LoopStop ReceiveLoop)
    (process : Assembly → List UInt8 → Except Fault (Assembly × UdpEffect α)) :
    Realizes (UdpReceiver.receive process) (ReceiveLoop.step start process)
      (fun r s => s.Listening ∧ s.receiver = r) turnEvents turnOutputs fun _ => True := by
  rintro r d r' effect s ⟨hs, rfl⟩ hstep -
  exact ⟨{ s with receiver := r' }, ⟨⟨hs.isOpen, hs.receives⟩, rfl⟩,
    (completes_cons_iff _ _ _ _ _ _).mpr ⟨_, _, _, hs.step_received start d,
      (completes_singleton_iff _ _ _ _ _).mpr ⟨_, hs.step_handled start hstep, rfl⟩, rfl⟩⟩

theorem effectsOf_turnOutputs {α : Type} (effects : List (UdpEffect α)) :
    effectsOf (effects.flatMap turnOutputs) = effects := by
  induction effects with
  | nil => rfl
  | cons effect effects ih =>
      rw [List.flatMap_cons, effectsOf, List.filterMap_append, ← effectsOf, ← effectsOf, ih]
      rfl

end ReceiveLoop

/-! ## The turns of the process -/

namespace Manager

/-- A datagram comes, and its handler runs. -/
def turnEvents (walk : Walk) (d : List UInt8) : List ManagerEvent :=
  [.received 0 (.ok d), .datagramHandled 0 walk]

/-- What the handler puts out. -/
def turnOutput (e : Endian) (walk : Walk) : UdpEffect (UInt16 × List UInt8) → ManagerOutput
  | .image handed => .relayed (toAll e walk handed.1 handed.2)
  | effect => .udp (.turn effect)

def turnOutputs (e : Endian) (walk : Walk) (effect : UdpEffect (UInt16 × List UInt8)) :
    List ManagerOutput := [.quiet, turnOutput e walk effect]

/-- What has been relayed. -/
def relayed? : ManagerOutput → Option BroadCast
  | .relayed b => some b
  | _ => none

theorem filterMap_relayed? (e : Endian) (walk : Walk)
    (effects : List (UdpEffect (UInt16 × List UInt8))) :
    (effects.flatMap (turnOutputs e walk)).filterMap relayed? =
      (effects.filterMap UdpEffect.handed?).map fun handed => toAll e walk handed.1 handed.2 := by
  induction effects with
  | nil => rfl
  | cons effect effects ih =>
      rw [List.flatMap_cons, List.filterMap_append, ih]
      cases effect <;> rfl

/-- The datagram that is received, if any. -/
def ManagerEvent.datagram? : ManagerEvent → Option (List UInt8)
  | .received _ (.ok d) => some d
  | _ => none

/-- The datagrams that have been received. -/
def datagrams (events : List ManagerEvent) : List (List UInt8) :=
  events.filterMap ManagerEvent.datagram?

/-- The buffers that have been relayed, and their types. -/
def relayed (os : List ManagerOutput) : List (UInt16 × List UInt8) :=
  (os.filterMap relayed?).map fun b => (b.dataType, b.buf)

/-- The state `s`, up to its receiver, which is `r`. -/
structure SameButReceiver (s : Manager) (r : UdpReceiver) (t : Manager) : Prop where
  listening : t.udp.Listening
  receiver : t.udp.receiver = r
  server : t.server = s.server

/-- A turn of `listen`, whose image is not too long. -/
theorem realizes_listen {asio : Asio} (e : Endian) (s : Manager) (walk : Walk)
    (hwalk : walk.Perm s.server.udpCl.entries)
    (haddr : ∀ x ∈ walk, asio.makeAddress x.2.addr = true) :
    Realizes (AsioUdpManager.listen e) (step asio e) (SameButReceiver s) (turnEvents walk)
      (turnOutputs e walk) fun effect => ∀ handed, effect.handed? = some handed →
        handed.2.length < 2 ^ 31 := by
  rintro r d r' effect t ht hstep hshort
  obtain rfl := ht.receiver
  have hreceived : step asio e t (.received 0 (.ok d)) =
      .ok ({ t with udp := t.udp.withDatagram d }, .quiet) := by
    rw [step, AsioUdpManager.loop, ht.listening.step_received]
  have hhandled : step asio e { t with udp := t.udp.withDatagram d } (.datagramHandled 0 walk) =
      .ok ({ t with udp := { t.udp with receiver := r' } }, turnOutput e walk effect) := by
    rw [step, datagramHandler, AsioUdpManager.loop, ht.listening.step_handled _ hstep]
    cases effect with
    | image handed =>
        have hsend := broadCast_of_lt (e := e) (s := { t with udp := t.udp.withDatagram d })
          (ht.server ▸ hwalk) haddr ht.listening.isOpen handed.1 (hshort handed rfl)
        simp only [hsend]
        rfl
    | _ => rfl
  exact ⟨{ t with udp := { t.udp with receiver := r' } },
    ⟨⟨ht.listening.isOpen, ht.listening.receives⟩, rfl, ht.server⟩,
    (completes_cons_iff _ _ _ _ _ _).mpr ⟨_, _, _, hreceived,
      (completes_singleton_iff _ _ _ _ _).mpr ⟨_, hhandled, rfl⟩, rfl⟩⟩

end Manager

/-! ## One image -/

theorem arrived_length (img : List UInt8) : (arrived img).length = img.length :=
  mask_length ..

/-- What has arrived once arrives. -/
theorem arrived_arrived (img : List UInt8) : arrived (arrived img) = arrived img := by
  rw [arrived_eq_self_iff]
  intro p hp hmod
  have hget := mask_getElem? (0 : UInt8) (fun p => decide (p % 1472 < 1455)) img p
  rw [← arrived, List.getElem?_eq_getElem hp,
    List.getElem?_eq_getElem (by rwa [arrived_length] at hp), Option.map_some,
    if_neg (by simpa using hmod)] at hget
  exact Option.some.inj hget

/-- The datagrams of an image, at a receiver in any state. -/
theorem exists_completes_arrived {α : Type} (hand : List UInt8 → α) (e : Endian)
    (r : UdpReceiver) (img : List UInt8) (hpos : 0 < img.length)
    (hle : img.length ≤ 65535 * 1472) (hfit : 1454 ≤ (img.length - 1) % 1472) :
    ∃ r' os, Completes (UdpReceiver.receive (processDatagram hand e)) r
      (fragments e UdpData.DataTypes.image img) r' os ∧
        os.filterMap UdpEffect.handed? = [hand (arrived img)] := by
  refine (exists_completes_fragments_iff hand e r img (by omega) _).mpr
    ⟨(storable_iff _ hpos hle).mpr hfit, ?_⟩
  rw [arrivals, if_neg (List.length_pos_iff.mp hpos)]
  rfl

theorem short_of_handed {effects : List (UdpEffect (UInt16 × List UInt8))} {dataType : UInt16}
    {img : List UInt8}
    (h : effects.filterMap UdpEffect.handed? = [(dataType, arrived img)])
    (hlt : img.length < 2 ^ 31) :
    ∀ effect ∈ effects, ∀ handed, effect.handed? = some handed → handed.2.length < 2 ^ 31 := by
  intro effect heffect handed hhanded
  have hmem := List.mem_filterMap.mpr ⟨effect, heffect, hhanded⟩
  rw [h, List.mem_singleton] at hmem
  rwa [hmem, arrived_length]

namespace Manager

theorem makeAddress_of_mem_localClient :
    ∀ x ∈ ([⟨0, localClient⟩] : Walk), Asio.loopback.makeAddress x.2.addr = true :=
  List.forall_mem_singleton.mpr Asio.makeAddress_loopback

end Manager

/-- An image with a last fragment of 1455 bytes or more, sent by a client to a server that
listens, is relayed once, and every client that listens and gets the datagrams hands it out, up
to the bytes that the first hop has lost. -/
theorem relayed_image (sender asio : Asio) (e : Endian) (s : Manager) (hs : s.udp.Listening)
    (walk : Walk) (hwalk : walk.Perm s.server.udpCl.entries)
    (haddrs : ∀ x ∈ walk, asio.makeAddress x.2.addr = true) (addr img : List UInt8)
    (haddr : sender.makeAddress addr = true) (hpos : 0 < img.length)
    (hle : img.length ≤ 65535 * 1472) (hfit : 1454 ≤ (img.length - 1) % 1472) :
    ∃ sent s' os b,
      BoostUdpConnection.sendData sender e true addr UdpData.DataTypes.image img = .ok sent ∧
      Completes (Manager.step asio e) s (sent.flatMap fun x => Manager.turnEvents walk x.2) s'
        os ∧
      os.filterMap Manager.relayed? = [b] ∧ b.buf = arrived img ∧
      s'.udp.Listening ∧ s'.server = s.server ∧
      ∀ x ∈ walk, ∃ ds, (x.2, ds) ∈ b.sent ∧ ∀ (receiver : Asio) (c : ReceiveLoop),
        c.Listening → ∃ c' os', Completes (BoostUdpConnection.loop receiver e) c
          (ds.flatMap ReceiveLoop.turnEvents) c' os' ∧
          handedOf os' = [arrived img] ∧ c'.Listening := by
  have hsent := BoostUdpConnection.sendData_of_lt e haddr UdpData.DataTypes.image img (by omega)
  obtain ⟨r, effects, hrun, hhanded⟩ := exists_completes_arrived
    (fun buffer => (UdpData.DataTypes.image, buffer)) e s.udp.receiver img hpos hle hfit
  obtain ⟨s', hs', hcompletes⟩ := (Manager.realizes_listen e s walk hwalk haddrs).completes hrun
    ⟨hs, rfl, rfl⟩ (short_of_handed hhanded (by omega))
  refine ⟨_, s', effects.flatMap (Manager.turnOutputs e walk),
    Manager.toAll e walk UdpData.DataTypes.image (arrived img), hsent, ?_, ?_, rfl, hs'.listening,
    hs'.server, ?_⟩
  · rw [List.flatMap_map]
    exact hcompletes
  · rw [Manager.filterMap_relayed?, hhanded, List.map_singleton]
  · intro x hx
    refine ⟨_, List.mem_map.mpr ⟨x, hx, rfl⟩, fun receiver c hc => ?_⟩
    obtain ⟨r', effects', hrun', hhanded'⟩ := exists_completes_arrived (fun buffer => buffer) e
      c.receiver (arrived img) (by rwa [arrived_length]) (by rwa [arrived_length])
      (by rwa [arrived_length])
    obtain ⟨c', ⟨hc', -⟩, hloop⟩ := (ReceiveLoop.realizes_receive
      (BoostTcpConnection.firstData receiver) _).completes hrun' ⟨hc, rfl⟩ fun _ _ => trivial
    refine ⟨c', _, hloop, ?_, hc'⟩
    rw [handedOf, ReceiveLoop.effectsOf_turnOutputs, hhanded', arrived_arrived]

/-- An image of 1455 bytes, to a server with one client. -/
theorem relayed_image_small : ∃ s os sent s' os' b,
    Completes (Manager.step .loopback .little) Manager.start
      ((Manager.visit localClient).take 2) s os ∧
    BoostUdpConnection.sendData .loopback .little true Constants.serverAddr
      UdpData.DataTypes.image (List.replicate 1455 7) = .ok sent ∧
    Completes (Manager.step .loopback .little) s
      (sent.flatMap fun x => Manager.turnEvents [⟨0, localClient⟩] x.2) s' os' ∧
    os'.filterMap Manager.relayed? = [b] ∧ b.buf = arrived (List.replicate 1455 7) := by
  obtain ⟨s, os, h, hs, hentries⟩ : ∃ s os, Completes (Manager.step .loopback .little)
      Manager.start ((Manager.visit localClient).take 2) s os ∧
        s.udp.Listening ∧ s.server.udpCl.entries = [⟨0, localClient⟩] :=
    ⟨_, _, rfl, ⟨rfl, rfl⟩, rfl⟩
  have hlen : (List.replicate 1455 (7 : UInt8)).length = 1455 := List.length_replicate
  obtain ⟨sent, s', os', b, hsent, hrun, hrelayed, hbuf, -⟩ :=
    relayed_image .loopback .loopback .little s hs [⟨0, localClient⟩] (by rw [hentries])
      Manager.makeAddress_of_mem_localClient Constants.serverAddr (List.replicate 1455 7)
      Asio.makeAddress_loopback (by rw [hlen]; decide) (by rw [hlen]; decide) (by rw [hlen])
  exact ⟨s, os, sent, s', os', b, h, hsent, hrun, hrelayed, hbuf⟩

end P2PWatcher
