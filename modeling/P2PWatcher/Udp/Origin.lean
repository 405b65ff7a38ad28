import P2PWatcher.Udp.Leftover
import P2PWatcher.Udp.ReceiveLoop

/-!
# Where the bytes of an image come from

Nothing is assumed of the datagrams, nor of the order in which receives complete and are handled.
A byte of the receive buffer that is not zero is the byte at this place of some datagram that
was received, and a block goes from there to a multiple of 1472 in the assembly buffer, or to
`2^32 - 1472` if it has the number 0. So the bytes of an image that is handed out, whoever
has sent what, are zero or stand at the place in their block of 1472 bytes at which they came
(`placed_of_completes`). Below that last place, 17 of every 1472 bytes are always zero.
-/

namespace P2PWatcher

open Memory Machine Sequence Reassembly

/-- The byte `c` is the byte `i` of some of the datagrams. -/
def CameAt (ds : List (List UInt8)) (i : ℕ) (c : UInt8) : Prop := ∃ d ∈ ds, d[i]? = some c

/-- The bytes of an image are zero or have come in the datagrams, each at its place. -/
def Placed (ds : List (List UInt8)) (b : List UInt8) : Prop :=
  ∀ p c, b[p]? = some c → c = 0 ∨
    ∃ q < 1455, (p % 1472 = q ∨ p = 2 ^ 32 - 1472 + q) ∧ CameAt ds (17 + q) c

/-- The receiver behind the datagrams `ds`. -/
structure Origin (ds : List (List UInt8)) (r : UdpReceiver) : Prop where
  buffer : ∀ i c, r.buffer.cells[i]? = some c → c = 0 ∨ CameAt ds i c
  assembly : Placed ds r.assembly.assemblyBuffer

theorem CameAt.concat {ds : List (List UInt8)} {i : ℕ} {c : UInt8} (h : CameAt ds i c)
    (d : List UInt8) : CameAt (ds ++ [d]) i c := by
  obtain ⟨d', hd', hc⟩ := h
  exact ⟨d', List.mem_append_left _ hd', hc⟩

theorem Placed.concat {ds : List (List UInt8)} {b : List UInt8} (h : Placed ds b)
    (d : List UInt8) : Placed (ds ++ [d]) b := by
  intro p c hc
  rcases h p c hc with hzero | ⟨q, hq, hplace, hcame⟩
  · exact .inl hzero
  · exact .inr ⟨q, hq, hplace, hcame.concat d⟩

theorem placed_nil (ds : List (List UInt8)) : Placed ds [] := by
  intro p c hc
  rw [List.getElem?_nil] at hc
  exact nomatch hc

theorem placed_replicate (ds : List (List UInt8)) (n : ℕ) : Placed ds (List.replicate n 0) := by
  intro p c hc
  rw [List.getElem?_replicate] at hc
  split at hc
  · exact .inl (Option.some.inj hc).symm
  · exact nomatch hc

/-! ## One turn -/

theorem overlay_getElem? {bs xs : List UInt8} {i : ℕ} {c : UInt8}
    (h : (overlay bs xs)[i]? = some c) : xs[i]? = some c ∨ bs[i]? = some c := by
  rw [overlay, List.getElem?_append, List.length_take] at h
  split at h
  · next hlt =>
      rw [List.getElem?_take_of_lt (by omega)] at h
      exact .inl h
  · next hge =>
      rw [List.getElem?_drop] at h
      have hlt : xs.length + (i - min bs.length xs.length) < bs.length :=
        (List.getElem?_eq_some_iff.mp h).1
      rw [Nat.min_eq_right (by omega)] at h hge
      rw [Nat.add_sub_cancel' (by omega)] at h
      exact .inr h

theorem accept_of_processImage {st st' : Assembly} {pkt : Packet} {o : Option (List UInt8)}
    (h : st.processImage pkt = .ok (st', o)) :
    accept 0 st.assemblyBuffer pkt.block = .ok (st'.assemblyBuffer, o) := by
  rw [← processImage_map, h]
  rfl

/-- A packet that is no image leaves the assembly as it is. -/
theorem processDatagram_of_not_isImage {α : Type} {hand : List UInt8 → α} {e : Endian}
    {st st' : Assembly} {pkt : Packet} {o : UdpEffect α} (hpkt : ¬ pkt.IsImage)
    (h : processDatagram hand e st (pkt.serialize e) = .ok (st', o)) :
    st' = st ∧ o.handed? = none := by
  rw [processDatagram_cases hand e st pkt hpkt] at h
  split at h
  · obtain ⟨rfl, rfl⟩ := Prod.mk.inj (Except.ok.inj h)
    exact ⟨rfl, rfl⟩
  · split at h
    · obtain ⟨m, -, heq⟩ := (map_eq_ok_iff _ _ _).mp h
      obtain ⟨rfl, rfl⟩ := Prod.mk.inj heq
      exact ⟨rfl, rfl⟩
    · obtain ⟨rfl, rfl⟩ := Prod.mk.inj (Except.ok.inj h)
      exact ⟨rfl, rfl⟩

/-- A handler copies the block of an image packet, or leaves the assembly as it is. -/
theorem processDatagram_ok_cases {α : Type} {hand : List UInt8 → α} {e : Endian}
    {st st' : Assembly} {buf : List UInt8} {o : UdpEffect α} (hbuf : buf.length = 1472)
    (h : processDatagram hand e st buf = .ok (st', o)) :
    (∃ (pkt : Packet) (o' : Option (List UInt8)), buf = pkt.serialize e ∧
        accept 0 st.assemblyBuffer pkt.block = .ok (st'.assemblyBuffer, o') ∧
        o = .ofHanded hand o') ∨
      st' = st ∧ o.handed? = none := by
  obtain ⟨pkt, hparse⟩ := Packet.exists_parse_eq_ok e buf (by rw [hbuf]; decide)
  obtain rfl := (Packet.parse_eq_ok_iff e _ pkt).mp hparse
  by_cases himage : pkt.IsImage
  · rw [processDatagram_serialize hand e _ pkt himage] at h
    obtain ⟨⟨st'', handed⟩, himageCase, heq⟩ := (map_eq_ok_iff _ _ _).mp h
    obtain ⟨rfl, rfl⟩ := Prod.mk.inj heq
    exact .inl ⟨pkt, handed, rfl, accept_of_processImage himageCase, rfl⟩
  · exact .inr (processDatagram_of_not_isImage himage h)

theorem origin_start : Origin [] .start := by
  refine ⟨fun i c hc => .inl ?_, placed_nil []⟩
  change (List.replicate 1472 (0 : UInt8))[i]? = some c at hc
  rw [List.getElem?_replicate] at hc
  split at hc
  · exact (Option.some.inj hc).symm
  · exact nomatch hc

/-- A datagram comes into the buffer. -/
theorem Origin.receive {ds : List (List UInt8)} {r : UdpReceiver} (h : Origin ds r)
    (d : List UInt8) : Origin (ds ++ [d]) { r with buffer := r.buffer.receive d } := by
  refine ⟨fun i c hc => ?_, h.assembly.concat d⟩
  rcases overlay_getElem? hc with hnew | hold
  · exact .inr ⟨d, by simp, hnew⟩
  · exact (h.buffer i c hold).imp_right fun hcame => hcame.concat d

/-- The place of a byte in the block of a packet. -/
theorem place_of_chunkOffset (number : UInt16) {p q : ℕ} (hq : q < 1455)
    (hp : (chunkOffset number).toNat + q = p) : p % 1472 = q ∨ p = 2 ^ 32 - 1472 + q := by
  rw [chunkOffset_toNat] at hp
  split at hp
  · exact .inr hp.symm
  · exact .inl (by omega)

/-- A block is copied to a buffer. -/
theorem Placed.splice {ds : List (List UInt8)} {b : List UInt8} {pkt : Packet} (hb : Placed ds b)
    (hlen : pkt.buffer.length = 1455)
    (hpkt : ∀ q c, pkt.buffer[q]? = some c → c = 0 ∨ CameAt ds (17 + q) c)
    (hfits : pkt.block.offset + pkt.block.data.length ≤ b.length) :
    Placed ds (splice b pkt.block.offset pkt.block.data) := by
  intro p c hc
  rw [splice_getElem? _ _ _ hfits] at hc
  split at hc
  · next hinside =>
      obtain ⟨hlo, hhi⟩ := hinside
      have hq : p - pkt.block.offset < 1455 := by
        rw [← hlen]
        exact Nat.sub_lt_left_of_lt_add hlo hhi
      rcases hpkt _ c hc with hzero | hcame
      · exact .inl hzero
      · exact .inr ⟨_, hq, place_of_chunkOffset pkt.header.curPacketNumber hq
          (Nat.add_sub_cancel' hlo), hcame⟩
  · exact hb p c hc

/-- The payload of a packet stands behind the header. -/
theorem Packet.serialize_getElem? (e : Endian) (pkt : Packet) (q : ℕ) :
    (pkt.serialize e)[17 + q]? = pkt.buffer[q]? := by
  rw [serialize, List.getElem?_append_right (by rw [preamble_length]; omega), preamble_length,
    Nat.add_sub_cancel_left]

/-- A handler runs: the next assembly, and what is handed out. -/
theorem Origin.of_processDatagram {α : Type} {hand : List UInt8 → α} {e : Endian}
    {ds : List (List UInt8)} {r : UdpReceiver} {st : Assembly} {o : UdpEffect α}
    (hr : Origin ds r) (h : processDatagram hand e r.assembly r.buffer.cells = .ok (st, o)) :
    Origin ds { r with assembly := st } ∧
      ∀ x, o.handed? = some x → ∃ b, x = hand b ∧ Placed ds b := by
  rcases processDatagram_ok_cases r.buffer.length_eq h with
    ⟨pkt, o', hcells, haccept, rfl⟩ | ⟨rfl, hnone⟩
  · obtain ⟨hfits, heq⟩ := (accept_eq_ok_iff _ _ _ _).mp haccept
    rw [Fits, ← setUp_length 0] at hfits
    have hset : Placed ds (setUp 0 r.assembly.assemblyBuffer pkt.block) := by
      rw [setUp]
      split
      · exact placed_replicate ds _
      · exact hr.assembly
    have hlen : pkt.buffer.length = 1455 := by
      have hcount := r.buffer.length_eq
      rw [hcells, Packet.serialize_length, Constants.bufferSize] at hcount
      omega
    have hplaced := hset.splice hlen (fun q c hc => hr.buffer (17 + q) c
      (by rw [hcells, Packet.serialize_getElem?, hc])) hfits
    split at heq
    · obtain ⟨hnil, rfl⟩ := Prod.mk.inj heq
      refine ⟨⟨hr.buffer, ?_⟩, fun x hx => ⟨_, (Option.some.inj hx).symm, hplaced⟩⟩
      rw [← hnil]
      exact placed_nil ds
    · obtain ⟨hbuf, rfl⟩ := Prod.mk.inj heq
      refine ⟨⟨hr.buffer, ?_⟩, by simp [UdpEffect.ofHanded, UdpEffect.handed?]⟩
      rw [← hbuf]
      exact hplaced
  · refine ⟨hr, fun x hx => ?_⟩
    rw [hnone] at hx
    cases hx

/-! ## Whole runs -/

/-- The buffers that have been handed out. -/
def handedOf {α : Type} (os : List (LoopOutput α)) : List α :=
  (effectsOf os).filterMap UdpEffect.handed?

theorem handedOf_concat {α : Type} (os : List (LoopOutput α)) (o : LoopOutput α) :
    handedOf (os ++ [o]) = handedOf os ++ (o.effect?.bind UdpEffect.handed?).toList := by
  rw [handedOf, effectsOf_concat, List.filterMap_append, handedOf]
  cases o.effect? with
  | none => rfl
  | some effect => cases h : effect.handed? <;> simp [h]

theorem Origin.close {ds : List (List UInt8)} {s : ReceiveLoop} (h : Origin ds s.receiver) :
    Origin ds s.close.receiver := by
  rw [ReceiveLoop.close]
  split <;> exact h

section

variable {α : Type}
  {start : ReceiveLoop → List UInt8 → UInt16 → Except LoopStop ReceiveLoop}
  {hand : List UInt8 → α} {e : Endian}
  (hstart : ∀ s addr port s', start s addr port = .ok s' → ReceiveLoop.Starts s s')

include hstart

theorem Origin.of_step {ds : List (List UInt8)} {s s' : ReceiveLoop} {event : LoopEvent}
    {o : LoopOutput α} (hs : Origin ds s.receiver)
    (h : ReceiveLoop.step start (processDatagram hand e) s event = .ok (s', o)) :
    Origin (ds ++ event.datagram?.toList) s'.receiver ∧
      ∀ x, o.effect?.bind UdpEffect.handed? = some x → ∃ b, x = hand b ∧ Placed ds b := by
  rcases ReceiveLoop.step_cases h with ⟨addr, port, rfl, hopen, rfl⟩ |
    ⟨i, result, rfl, hreceived, rfl⟩ | ⟨i, rfl, hfailed⟩ | ⟨i, rfl, hturn⟩ | ⟨rfl, rfl, rfl⟩
  · rw [(hstart s addr port s' hopen).receiver]
    exact ⟨by simpa [LoopEvent.datagram?] using hs, by simp [LoopOutput.effect?]⟩
  · rw [hreceived.receiver]
    cases result with
    | error ec => exact ⟨by simpa [LoopEvent.datagram?] using hs, by simp [LoopOutput.effect?]⟩
    | ok d => exact ⟨hs.receive d, by simp [LoopOutput.effect?]⟩
  · have hreceiver := hfailed.receiver
    obtain ⟨-, -, -, -, -, -, -, -, rfl⟩ := hfailed.receives
    rw [hreceiver]
    exact ⟨by simpa [LoopEvent.datagram?] using hs, by simp [LoopOutput.effect?]⟩
  · have hreceiver : s'.receiver = ⟨s.receiver.buffer, s'.receiver.assembly⟩ := by
      rw [← hturn.buffer]
    obtain ⟨-, -, -, n, -, -, -, -, effect, rfl, hprocess⟩ := hturn.receives
    rw [hreceiver]
    split at hprocess
    · obtain ⟨hs', ho⟩ := hs.of_processDatagram hprocess
      exact ⟨by simpa [LoopEvent.datagram?] using hs', ho⟩
    · obtain ⟨hsame, rfl⟩ := hprocess
      rw [hsame]
      exact ⟨by simpa [LoopEvent.datagram?] using hs,
        by simp [LoopOutput.effect?, UdpEffect.handed?]⟩
  · exact ⟨by simpa [LoopEvent.datagram?] using hs.close, by simp [LoopOutput.effect?]⟩

theorem origin_of_completes {events : List LoopEvent} {s : ReceiveLoop}
    {os : List (LoopOutput α)}
    (h : Completes (ReceiveLoop.step start (processDatagram hand e)) {} events s os) :
    Origin (datagramsOf events) s.receiver ∧
      ∀ x ∈ handedOf os, ∃ b, x = hand b ∧ Placed (datagramsOf events) b := by
  refine history_of_completes (P := fun events (s : ReceiveLoop) os =>
    Origin (datagramsOf events) s.receiver ∧
      ∀ x ∈ handedOf os, ∃ b, x = hand b ∧ Placed (datagramsOf events) b) ?_ ?_ h
  · exact ⟨origin_start, nofun⟩
  · rintro events s os event s' o - ⟨hs, hos⟩ hstep
    obtain ⟨hs', ho⟩ := hs.of_step hstart hstep
    rw [datagramsOf_concat, handedOf_concat]
    refine ⟨hs', fun x hx => ?_⟩
    have hmono : ∀ b, Placed (datagramsOf events) b →
        Placed (datagramsOf events ++ event.datagram?.toList) b := by
      intro b hb
      cases event.datagram? with
      | none => rwa [Option.toList_none, List.append_nil]
      | some d => exact hb.concat d
    rcases List.mem_append.mp hx with hx | hx
    · obtain ⟨b, rfl, hb⟩ := hos x hx
      exact ⟨b, rfl, hmono b hb⟩
    · obtain ⟨b, rfl, hb⟩ := ho x (Option.mem_toList.mp hx)
      exact ⟨b, rfl, hmono b hb⟩

end

/-- Whatever the server or a client receives, and however often it is opened and closed: what
it hands out is made of bytes of the datagrams, each at its place in a block. -/
theorem placed_of_completes (asio : Asio) (e : Endian) (events : List LoopEvent)
    (s : ReceiveLoop) :
    (∀ os, Completes (AsioUdpManager.loop asio e) {} events s os → ∀ x ∈ handedOf os,
      x.1 = UdpData.DataTypes.image ∧ Placed (datagramsOf events) x.2) ∧
    ∀ os, Completes (BoostUdpConnection.loop asio e) {} events s os → ∀ b ∈ handedOf os,
      Placed (datagramsOf events) b := by
  constructor
  · intro os h x hx
    obtain ⟨b, rfl, hb⟩ := (origin_of_completes
      (fun _ _ _ _ hs => AsioTcpManager.starts_openUdp hs) h).2 x hx
    exact ⟨rfl, hb⟩
  · intro os h b hb
    obtain ⟨b, rfl, hplaced⟩ := (origin_of_completes
      (fun _ _ _ _ hs => BoostTcpConnection.starts_firstData hs) h).2 b hb
    exact hplaced

/-- A datagram with one byte of payload that announces an image of 1455 bytes. -/
def forged : Packet where
  header := { totalDataSize := 1455, curPacketNumber := 1, isFirst := 1, isLast := 1 }
  dType := UdpData.DataTypes.image
  buffer := [7]

def forgedEvents : List LoopEvent :=
  [.opened localhost 50000, .received 0 (.ok (forged.serialize .little)), .handled 0]

set_option maxRecDepth 8000 in
theorem placed_forged : ∃ s b,
    Completes (BoostUdpConnection.loop .loopback .little) {} forgedEvents s
      [.quiet, .quiet, .turn (.image b)] ∧ Placed [forged.serialize .little] b := by
  obtain ⟨s, b, h⟩ : ∃ s b, Completes (BoostUdpConnection.loop .loopback .little) {}
      forgedEvents s [.quiet, .quiet, .turn (.image b)] := ⟨_, _, rfl⟩
  exact ⟨s, b, h, (placed_of_completes .loopback .little forgedEvents s).2 _ h b
    (List.mem_singleton_self b)⟩

end P2PWatcher
