import P2PWatcher.Udp.Message
import P2PWatcher.Udp.Origin
import P2PWatcher.Udp.Transfer
import P2PWatcher.Memory.Mosaic

/-!
# What goes between the programs

The two programs send messages and fragments of images. A receiver that gets nothing
else, but gets it in any order, as often as the network likes, and with losses, logs no
message that was not sent and rejects nothing. If all images have room for their
copies (`Roomy`), then it hands out mosaics of them. If they all have one size, then it hands
out buffers of this size, and only if the size has room for the last copy (`Finished`).
`Receiving` is the invariant of the loop, also of one with several receives at a time, which
share the buffer.
-/

namespace P2PWatcher

open Memory Machine Sequence Reassembly

/-- Every copy of a fragment lies inside the image. -/
def Roomy (images : Set (List UInt8)) : Prop := ∀ img ∈ images, Storable img.length

/-- All images have `n` bytes. -/
def OneSize (n : ℕ) (images : Set (List UInt8)) : Prop := ∀ img ∈ images, img.length = n

/-- The buffer is made of the images, if the copies do not leave them, and has their size. -/
structure MadeOf (images : Set (List UInt8)) (b : List UInt8) : Prop where
  mosaic : Roomy images → Mosaic 0 images b
  length_eq : ∀ n < 2 ^ 32, OneSize n images → b.length = n

/-- A buffer that is handed out has got a last fragment. -/
structure Finished (images : Set (List UInt8)) (b : List UInt8) : Prop
    extends MadeOf images b where
  storable : ∀ n ≤ 65535 * 1472, OneSize n images → 0 < n ∧ Storable n

/-- A datagram of a message in `texts` or of an image in `images`. -/
inductive Carries (e : Endian) (texts images : Set (List UInt8)) : List UInt8 → Prop
  | message (m : UdpData.TestMessage) (hm : m.message ∈ texts) (hlen : m.message.length ≤ 1451) :
      Carries e texts images (m.datagram e)
  | fragment (img : List UInt8) (himg : img ∈ images) (i : ℕ)
      (hi : i < fragmentCount img.length) :
      Carries e texts images (datagram e (img, i))

/-- What a handler may come to: no datagram is rejected. -/
inductive Expected {α : Type} (hand : List UInt8 → α) (texts images : Set (List UInt8)) :
    UdpEffect α → Prop
  | idle : Expected hand texts images .idle
  | message (m : List UInt8) (hm : m ∈ texts) : Expected hand texts images (.message m)
  | fragment : Expected hand texts images .fragment
  | image (b : List UInt8) (hb : Finished images b) : Expected hand texts images (.image (hand b))

/-- A loop that has received only such datagrams. A datagram whose handler has not run is in
the buffer, unless a later one is. -/
structure Receiving (e : Endian) (texts images : Set (List UInt8)) (s : ReceiveLoop) : Prop where
  buffer : ∀ t ∈ s.receives, ∀ n, t.result = some (.ok n) →
    ∃ (b : Fixed UInt8 Constants.bufferSize) (d : List UInt8), Carries e texts images d ∧
      s.receiver.buffer = b.receive d
  assembly : s.receiver.assembly.assemblyBuffer = [] ∨
    MadeOf images s.receiver.assembly.assemblyBuffer

section

variable {α : Type} {hand : List UInt8 → α} {e : Endian} {texts images : Set (List UInt8)}

theorem Carries.length_pos {d : List UInt8} (h : Carries e texts images d) : 0 < d.length := by
  cases h with
  | message m _ hlen =>
      rw [m.datagram_length e hlen]
      omega
  | fragment img _ i _ =>
      rw [datagram, Packet.serialize_length]
      omega

theorem carries_message {m : UdpData.TestMessage} (hm : m.message ∈ texts)
    (hlen : m.message.length ≤ 1451) {d : List UInt8}
    (hd : d ∈ fragments e UdpData.DataTypes.testMessage (m.serialize e)) :
    Carries e texts images d := by
  rw [UdpData.TestMessage.fragments_eq e hlen, List.mem_singleton] at hd
  rw [hd]
  exact .message m hm hlen

theorem carries_image {img : List UInt8} (himg : img ∈ images) {d : List UInt8}
    (hd : d ∈ fragments e UdpData.DataTypes.image img) : Carries e texts images d := by
  obtain ⟨i, hi, rfl⟩ := List.mem_map.mp hd
  exact .fragment img himg i (List.mem_range.mp hi)

/-- The block of a fragment goes to a mosaic, or begins one. -/
theorem mosaic_of_accept {buf buf' img : List UInt8} (himg : img ∈ images)
    (hstorable : Storable img.length) {i : ℕ} (hi : i < fragmentCount img.length)
    (hbuf : buf = [] ∨ Mosaic 0 images buf) {o : Option (List UInt8)}
    (h : accept 0 buf (imageBlock img i) = .ok (buf', o)) :
    (buf' = [] ∨ Mosaic 0 images buf') ∧ ∀ b, o = some b → Mosaic 0 images b := by
  obtain ⟨hfits, heq⟩ := (accept_eq_ok_iff _ _ _ _).mp h
  rw [Fits, ← setUp_length 0] at hfits
  have hlen := imageBlock_data_length img hstorable i hi
  have hset : Mosaic 0 images (setUp 0 buf (imageBlock img i)) := by
    cases hfirst : (imageBlock img i).first with
    | true =>
        rw [setUp, hfirst, if_pos rfl]
        exact mosaic_replicate himg
    | false =>
        rw [setUp, hfirst, if_neg (by simp)] at hfits ⊢
        refine hbuf.resolve_left ?_
        rintro rfl
        rw [hlen] at hfits
        exact absurd hfits (by simp)
  have hsplice := hset.splice himg (1472 * i) 1455 hfits
  split at heq
  · obtain ⟨hnil, rfl⟩ := Prod.mk.inj heq
    refine ⟨.inl hnil.symm, fun b hb => ?_⟩
    rw [← Option.some.inj hb]
    exact hsplice
  · obtain ⟨hcopy, rfl⟩ := Prod.mk.inj heq
    refine ⟨.inr ?_, by simp⟩
    rw [← hcopy]
    exact hsplice

/-- With one size, the last fragment gets to its place only in an image that has room for it. -/
theorem length_of_accept {n i : ℕ} {b : Block UInt8} (hdata : b.data.length = 1455)
    (htotal : b.total = n) (hlast : b.last = decide (i + 1 = fragmentCount n))
    (hoffset : i < 65535 → b.offset = 1472 * i) {buf buf' : List UInt8}
    (hbuf : buf = [] ∨ buf.length = n) {o : Option (List UInt8)}
    (h : accept 0 buf b = .ok (buf', o)) :
    (buf' = [] ∨ buf'.length = n) ∧ ∀ c, o = some c → c.length = n ∧
      (n ≤ 65535 * 1472 → 0 < n ∧ Storable n) := by
  obtain ⟨hfits, heq⟩ := (accept_eq_ok_iff _ _ _ _).mp h
  rw [Fits, ← setUp_length 0] at hfits
  have hset : (setUp 0 buf b).length = n := by
    cases hfirst : b.first with
    | true => rw [setUp, hfirst, if_pos rfl, List.length_replicate, htotal]
    | false =>
        rw [setUp, hfirst, if_neg (by simp)] at hfits ⊢
        refine hbuf.resolve_left ?_
        rintro rfl
        rw [hdata, List.length_nil] at hfits
        omega
  have hsplice : (splice (setUp 0 buf b) b.offset b.data).length = n := by
    rw [splice_length _ _ _ hfits, hset]
  split at heq
  · next hislast =>
      obtain ⟨hnil, rfl⟩ := Prod.mk.inj heq
      refine ⟨.inl hnil.symm, fun c hc => ?_⟩
      obtain rfl := Option.some.inj hc
      refine ⟨hsplice, fun hle => ?_⟩
      have hend := of_decide_eq_true (hlast.symm.trans hislast)
      rw [fragmentCount] at hend
      rw [hset, hdata, hoffset (by omega)] at hfits
      have hpos : 0 < n := by omega
      exact ⟨hpos, (storable_iff n hpos hle).mpr (by omega)⟩
  · obtain ⟨hcopy, rfl⟩ := Prod.mk.inj heq
    exact ⟨.inr (by rw [← hcopy, hsplice]), by simp⟩

/-- One turn on a fragment. -/
theorem madeOf_of_receive {img : List UInt8} (himg : img ∈ images) {i : ℕ}
    (hi : i < fragmentCount img.length) {r r' : UdpReceiver}
    (hr : r.assembly.assemblyBuffer = [] ∨ MadeOf images r.assembly.assemblyBuffer)
    {effect : UdpEffect α}
    (h : UdpReceiver.receive (processDatagram hand e) r (datagram e (img, i)) =
      .ok (r', effect)) :
    (r'.assembly.assemblyBuffer = [] ∨ MadeOf images r'.assembly.assemblyBuffer) ∧
      Expected hand texts images effect := by
  obtain ⟨o, haccept, rfl⟩ :=
    UdpReceiver.exists_accept_of_receive (fragment_isImage img i) h
  have hmosaic : Roomy images → (r'.assembly.assemblyBuffer = [] ∨
      Mosaic 0 images r'.assembly.assemblyBuffer) ∧ ∀ b, o = some b → Mosaic 0 images b := by
    intro hroomy
    have hs := hroomy img himg
    have hcount := hs.1
    rw [Packet.received_of_le _ _ r.buffer.length_eq (fragment_full img hs i hi),
      block_fragment_full img (by rw [fragmentCount] at hcount; omega) hs i hi] at haccept
    exact mosaic_of_accept himg hs hi (hr.imp_right fun hmade => hmade.mosaic hroomy) haccept
  have hlength : ∀ n < 2 ^ 32, OneSize n images →
      (r'.assembly.assemblyBuffer = [] ∨ r'.assembly.assemblyBuffer.length = n) ∧
        ∀ b, o = some b → b.length = n ∧ (n ≤ 65535 * 1472 → 0 < n ∧ Storable n) := by
    intro n hn hsize
    obtain rfl := hsize img himg
    have hblock := block_fragment img i hn
      (Packet.received r.buffer.cells (fragment UdpData.DataTypes.image img i)).buffer
    refine length_of_accept (i := i) ?_ ?_ ?_ ?_ (hr.imp_right fun hmade =>
      hmade.length_eq _ hn hsize) haccept
    · exact Packet.received_buffer_length _ _ r.buffer.length_eq
    · exact congrArg Block.total hblock
    · exact congrArg Block.last hblock
    · intro hlt
      exact (congrArg Block.offset hblock).trans (chunkOffset_ofNat_succ i hlt)
  constructor
  · by_cases hnil : r'.assembly.assemblyBuffer = []
    · exact .inl hnil
    · exact .inr ⟨fun hroomy => (hmosaic hroomy).1.resolve_left hnil,
        fun n hn hsize => (hlength n hn hsize).1.resolve_left hnil⟩
  · cases o with
    | none => exact .fragment
    | some b =>
        exact .image b ⟨⟨fun hroomy => (hmosaic hroomy).2 b rfl,
          fun n hn hsize => ((hlength n hn hsize).2 b rfl).1⟩,
          fun n hle hsize => ((hlength n (by omega) hsize).2 b rfl).2 hle⟩

/-- A handler finds the datagram that came last. -/
theorem expected_of_processDatagram {b : Fixed UInt8 Constants.bufferSize} {d : List UInt8}
    (hd : Carries e texts images d) {st st' : Assembly}
    (hst : st.assemblyBuffer = [] ∨ MadeOf images st.assemblyBuffer) {effect : UdpEffect α}
    (h : processDatagram hand e st (b.receive d).cells = .ok (st', effect)) :
    (st'.assemblyBuffer = [] ∨ MadeOf images st'.assemblyBuffer) ∧
      Expected hand texts images effect := by
  have hreceive : UdpReceiver.receive (processDatagram hand e) ⟨b, st⟩ d =
      .ok (⟨b.receive d, st'⟩, effect) := by
    rw [UdpReceiver.receive_of_length_pos _ _ _ hd.length_pos]
    change (processDatagram hand e st (b.receive d).cells).map _ = _
    rw [h]
    rfl
  cases hd with
  | message m hm hlen =>
      obtain ⟨r', hr', hsame⟩ := UdpReceiver.receive_datagram hand e ⟨b, st⟩ hlen
      obtain ⟨rfl, rfl⟩ := Prod.mk.inj (Except.ok.inj (hreceive.symm.trans hr'))
      have hassembly : st' = st := hsame
      exact ⟨hassembly ▸ hst, .message m.message hm⟩
  | fragment img himg i hi => exact madeOf_of_receive himg hi hst hreceive

/-! ## The steps of a loop -/

theorem receiving_start : Receiving e texts images {} := ⟨nofun, .inl rfl⟩

variable {s s' : ReceiveLoop} {i : ℕ}

theorem Receiving.starts (h : Receiving e texts images s) (hstarts : ReceiveLoop.Starts s s') :
    Receiving e texts images s' := by
  constructor
  · intro t ht n hn
    rw [hstarts.receives, List.mem_append, List.mem_singleton] at ht
    rw [hstarts.receiver]
    rcases ht with ht | rfl
    · exact h.buffer t ht n hn
    · exact nomatch hn
  · rw [hstarts.receiver]
    exact h.assembly

/-- Closing keeps the results of the receives that have completed. -/
theorem Receiving.close (h : Receiving e texts images s) : Receiving e texts images s.close := by
  rw [ReceiveLoop.close]
  split
  · refine ⟨fun t ht n hn => ?_, h.assembly⟩
    obtain ⟨t', ht', rfl⟩ := List.mem_map.mp ht
    refine h.buffer t' ht' n ?_
    cases hresult : t'.result with
    | none =>
        rw [hresult] at hn
        exact absurd hn (by simp)
    | some result => rwa [hresult, Option.some_or] at hn
  · exact h

theorem Receiving.received (h : Receiving e texts images s)
    {result : Except ErrorCode (List UInt8)} (hreceived : ReceiveLoop.Received s i result s')
    (hresult : ∀ d, result = .ok d → Carries e texts images d) :
    Receiving e texts images s' := by
  obtain ⟨pre, r, post, hsplit, -, -, hreceives⟩ := hreceived.receives
  have hreceiver := hreceived.receiver
  cases result with
  | ok d =>
      constructor
      · intro _ _ _ _
        exact ⟨s.receiver.buffer, d, hresult d rfl, by rw [hreceiver]⟩
      · rw [hreceiver]
        exact h.assembly
  | error ec =>
      constructor
      · intro t ht n hn
        rw [hreceives, List.mem_append, List.mem_cons] at ht
        rw [hreceiver]
        rcases ht with ht | rfl | ht
        · exact h.buffer t (by simp [hsplit, ht]) n hn
        · exact absurd hn (by simp [Except.map])
        · exact h.buffer t (by simp [hsplit, ht]) n hn
      · rw [hreceiver]
        exact h.assembly

theorem Receiving.failed {o : LoopOutput α} (h : Receiving e texts images s)
    (hfailed : ReceiveLoop.Failed s i s' o) : Receiving e texts images s' := by
  obtain ⟨pre, r, post, ec, hsplit, -, -, hreceives, -⟩ := hfailed.receives
  constructor
  · intro t ht n hn
    rw [hreceives, List.mem_append] at ht
    rw [hfailed.receiver]
    refine h.buffer t ?_ n hn
    rcases ht with ht | ht <;> simp [hsplit, ht]
  · rw [hfailed.receiver]
    exact h.assembly

theorem Receiving.turn {o : LoopOutput α} (h : Receiving e texts images s)
    (hturn : ReceiveLoop.Turn (processDatagram hand e) s i s' o) :
    Receiving e texts images s' ∧ ∃ effect, o = .turn effect ∧
      Expected hand texts images effect := by
  obtain ⟨pre, r, post, n, hsplit, -, hn, hreceives, effect, rfl, hprocess⟩ := hturn.receives
  have hbuffer : ∀ t ∈ s'.receives, ∀ n, t.result = some (.ok n) →
      ∃ (b : Fixed UInt8 Constants.bufferSize) (d : List UInt8), Carries e texts images d ∧
        s'.receiver.buffer = b.receive d := by
    intro t ht n hn
    rw [hreceives, List.mem_append, List.mem_append] at ht
    rw [hturn.buffer]
    rcases ht with (ht | ht) | ht
    · exact h.buffer t (by simp [hsplit, ht]) n hn
    · exact h.buffer t (by simp [hsplit, ht]) n hn
    · split at ht
      · rw [List.mem_singleton.mp ht] at hn
        exact nomatch hn
      · exact nomatch ht
  split at hprocess
  · obtain ⟨b, d, hd, hshows⟩ := h.buffer r (by simp [hsplit]) n hn
    rw [hshows] at hprocess
    obtain ⟨hassembly, hexpected⟩ :=
      expected_of_processDatagram hd h.assembly hprocess
    exact ⟨⟨hbuffer, hassembly⟩, effect, rfl, hexpected⟩
  · obtain ⟨hsame, rfl⟩ := hprocess
    refine ⟨⟨hbuffer, ?_⟩, _, rfl, .idle⟩
    rw [hsame]
    exact h.assembly

/-- A receive completes or a handler runs. -/
theorem Receiving.of_step
    {start : ReceiveLoop → List UInt8 → UInt16 → Except LoopStop ReceiveLoop}
    (hstart : ∀ s addr port s', start s addr port = .ok s' → ReceiveLoop.Starts s s')
    {event : LoopEvent}
    {o : LoopOutput α} (h : Receiving e texts images s)
    (hstep : ReceiveLoop.step start (processDatagram hand e) s event = .ok (s', o))
    (hevent : ∀ d, event.datagram? = some d → Carries e texts images d) :
    Receiving e texts images s' ∧
      ∀ effect, o = .turn effect → Expected hand texts images effect := by
  rcases ReceiveLoop.step_cases hstep with ⟨addr, port, rfl, hopen, rfl⟩ |
    ⟨i, result, rfl, hreceived, rfl⟩ | ⟨i, rfl, hfailed⟩ | ⟨i, rfl, hturn⟩ | ⟨rfl, rfl, rfl⟩
  · exact ⟨h.starts (hstart s addr port s' hopen), nofun⟩
  · refine ⟨h.received hreceived fun d hd => hevent d ?_, nofun⟩
    rw [hd]
    rfl
  · refine ⟨h.failed hfailed, fun effect heq => ?_⟩
    obtain ⟨_, _, _, _, _, _, _, _, rfl⟩ := hfailed.receives
    exact nomatch heq
  · obtain ⟨hs', effect, rfl, hexpected⟩ := h.turn hturn
    refine ⟨hs', fun effect' heq => ?_⟩
    rw [← LoopOutput.turn.inj heq]
    exact hexpected
  · exact ⟨h.close, nofun⟩

end

/-! ## A last fragment without room -/

/-- The handler of the receive `i` finds a last fragment in the buffer. -/
def ReceiveLoop.FindsLast (e : Endian) (s : ReceiveLoop) (i : ℕ) : Prop :=
  ∃ t n pkt, s.receives[i]? = some t ∧ t.result = some (.ok n) ∧ 0 < n ∧
    Packet.parse e s.receiver.buffer.cells = .ok pkt ∧ pkt.IsImage ∧ pkt.header.isLast = 1

/-- The copy for the last fragment of an image without room for it leaves the buffer. -/
theorem not_fits_of_last {img : List UInt8} (hle : img.length ≤ 65535 * 1472)
    (hshort : (img.length - 1) % 1472 < 1454) {i : ℕ}
    (hlast : i + 1 = fragmentCount img.length) {b : Block UInt8} (htotal : b.total = img.length)
    (hdata : b.data.length = 1455) (hoffset : b.offset = 1472 * i) {buf : List UInt8}
    (hbuf : buf = [] ∨ buf.length = img.length) : ¬ Fits buf.length b := by
  have hsize : sizeFor buf.length b ≤ img.length := by
    rw [sizeFor]
    split
    · exact htotal.le
    · rcases hbuf with rfl | hlen
      · exact Nat.zero_le _
      · exact hlen.le
  rw [fragmentCount] at hlast
  rw [Fits, hdata, hoffset]
  omega

/-- The last fragment of an image without room for its copy, whatever the rest of the receive
buffer shows. -/
theorem processDatagram_of_last {α : Type} (hand : List UInt8 → α) (e : Endian)
    {img : List UInt8} (hle : img.length ≤ 65535 * 1472)
    (hshort : (img.length - 1) % 1472 < 1454) {i : ℕ}
    (hlast : i + 1 = fragmentCount img.length) (b : Fixed UInt8 Constants.bufferSize)
    {assembly : Assembly} (hbuf : assembly.assemblyBuffer = [] ∨
      assembly.assemblyBuffer.length = img.length) :
    processDatagram hand e assembly (b.receive (datagram e (img, i))).cells = .error .write := by
  have hblock := block_fragment img i (by omega)
    (Packet.received b.cells (fragment UdpData.DataTypes.image img i)).buffer
  have hcells := UdpReceiver.receive_cells_serialize e { buffer := b, assembly }
    (fragment UdpData.DataTypes.image img i)
  have hoffset := chunkOffset_ofNat_succ i (by rw [fragmentCount] at hlast; omega)
  have himage : (Packet.received b.cells (fragment UdpData.DataTypes.image img i)).IsImage :=
    fragment_isImage img i
  rw [datagram, hcells, processDatagram_serialize hand e _ _ himage, processImage_of_not_fits]
  · rfl
  · exact not_fits_of_last hle hshort hlast (congrArg Block.total hblock)
      (Packet.received_buffer_length _ _ b.length_eq)
      ((congrArg Block.offset hblock).trans hoffset) hbuf

/-- A handler that finds a last fragment faults, if no image has room for its last copy. -/
theorem Receiving.write_of_findsLast {α : Type} {hand : List UInt8 → α} {e : Endian}
    {texts images : Set (List UInt8)} {s : ReceiveLoop} {i n : ℕ} (h : Receiving e texts images s)
    (hsize : OneSize n images) (hle : n ≤ 65535 * 1472) (hshort : (n - 1) % 1472 < 1454)
    (hlast : s.FindsLast e i) :
    s.handle (processDatagram hand e) i = .error (.fault .write) := by
  obtain ⟨⟨opening, result⟩, k, pkt, hfound, hresult, hpos, hparse, himage, hislast⟩ := hlast
  obtain rfl : result = some (.ok k) := hresult
  obtain ⟨b, d, hd, hbuffer⟩ := h.buffer _ (List.mem_of_getElem? hfound) k rfl
  have hprocess : processDatagram hand e s.receiver.assembly s.receiver.buffer.cells =
      .error .write := by
    rw [hbuffer] at hparse ⊢
    cases hd with
    | message m hm hlen =>
        rw [UdpData.TestMessage.datagram, UdpReceiver.parse_receive_serialize] at hparse
        rw [← Except.ok.inj hparse] at himage
        have hne : UdpData.DataTypes.testMessage ≠ UdpData.DataTypes.image := by decide
        exact absurd himage.2 hne
    | fragment img himg j hj =>
        obtain rfl := hsize img himg
        rw [datagram, UdpReceiver.parse_receive_serialize] at hparse
        obtain rfl := Except.ok.inj hparse
        have hend : j + 1 = fragmentCount img.length := by
          by_contra hne
          rw [Packet.received_header, fragment, if_neg hne] at hislast
          exact absurd hislast (by simp)
        exact processDatagram_of_last hand e hle hshort hend b
          (h.assembly.imp_right fun hmade => hmade.length_eq _ (by omega) hsize)
  rw [ReceiveLoop.handle, hfound]
  simp only [if_pos hpos, hprocess]

section

variable {asio : Asio} {e : Endian} {texts images : Set (List UInt8)} {s s' : ReceiveLoop}
  {event : LoopEvent}

theorem AsioUdpManager.receiving_of_loop {o : LoopOutput (UInt16 × List UInt8)}
    (h : Receiving e texts images s) (hstep : AsioUdpManager.loop asio e s event = .ok (s', o))
    (hevent : ∀ d, event.datagram? = some d → Carries e texts images d) :
    Receiving e texts images s' ∧ ∀ effect, o = .turn effect →
      Expected (fun buffer => (UdpData.DataTypes.image, buffer)) texts images effect :=
  h.of_step (fun _ _ _ _ => AsioTcpManager.starts_openUdp) hstep hevent

theorem BoostUdpConnection.receiving_of_loop {o : LoopOutput (List UInt8)}
    (h : Receiving e texts images s)
    (hstep : BoostUdpConnection.loop asio e s event = .ok (s', o))
    (hevent : ∀ d, event.datagram? = some d → Carries e texts images d) :
    Receiving e texts images s' ∧ ∀ effect, o = .turn effect →
      Expected (fun buffer => buffer) texts images effect :=
  h.of_step (fun _ _ _ _ => BoostTcpConnection.starts_firstData) hstep hevent

end

end P2PWatcher
