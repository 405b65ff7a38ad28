import P2PWatcher.Udp.Bounds
import P2PWatcher.Wire.Copies

/-!
# What an earlier datagram leaves behind

The handler of a receive is told how many bytes have come, but it passes the whole buffer on,
and behind a short datagram this still holds what earlier datagrams have put there. Two
histories may leave the same assembly state and different bytes in the buffer.
`SameEffect` says that the next datagram cannot tell them apart and `OneEffect` that
besides it has an effect at all. The exact condition is one on the datagram and the size of
the assembly buffer (`leftover_iff`): what the handler looks at has been received.
-/

namespace P2PWatcher

open Memory Machine Sequence

namespace UdpReceiver

/-- What a turn does besides the receive buffer. -/
def effect {α : Type}
    (listen : UdpReceiver → List UInt8 → Except Fault (UdpReceiver × UdpEffect α))
    (r : UdpReceiver) (d : List UInt8) : Except Fault (Assembly × UdpEffect α) :=
  (listen r d).map fun x => (x.1.assembly, x.2)

/-- Some history of datagrams leaves the receiver in the state `r`. -/
def Reached {α : Type}
    (listen : UdpReceiver → List UInt8 → Except Fault (UdpReceiver × UdpEffect α))
    (r : UdpReceiver) : Prop :=
  ∃ ds os, Completes listen UdpReceiver.start ds r os

/-- After any two histories that leave the assembly state `st` the datagram `d` has the same
effect. -/
def SameEffect {α : Type}
    (listen : UdpReceiver → List UInt8 → Except Fault (UdpReceiver × UdpEffect α))
    (st : Assembly) (d : List UInt8) : Prop :=
  ∀ r₁ r₂, Reached listen r₁ → Reached listen r₂ → r₁.assembly = st → r₂.assembly = st →
    effect listen r₁ d = effect listen r₂ d

/-- The datagram `d` is processed without a memory fault, and with one effect after all these
histories. -/
def OneEffect {α : Type}
    (listen : UdpReceiver → List UInt8 → Except Fault (UdpReceiver × UdpEffect α))
    (st : Assembly) (d : List UInt8) : Prop :=
  ∃ x, ∀ r, Reached listen r → r.assembly = st → effect listen r d = .ok x

end UdpReceiver

/-- What the handler looks at has been received: it gets no further than the hash, or no
further than the type, or it finds a whole message in the bytes received, or the
datagram fills the receive buffer and its image bytes fit into the assembly buffer. -/
def OwnBytes (e : Endian) (st : Assembly) (d : List UInt8) : Prop :=
  d = [] ∨ ¬ d.take 2 <+: put16 e Constants.serverHash ∨
  (¬ (d.drop 15).take 2 <+: put16 e UdpData.DataTypes.testMessage ∧
    ¬ (d.drop 15).take 2 <+: put16 e UdpData.DataTypes.image) ∨
  ∃ pkt : Packet, d.take 1472 = pkt.serialize e ∧
    (pkt.dType = UdpData.DataTypes.testMessage ∧
        (∃ (m : UdpData.TestMessage) (t : List UInt8), pkt.buffer = m.serialize e ++ t) ∨
      pkt.dType = UdpData.DataTypes.image ∧ 1472 ≤ d.length ∧
        (chunkOffset pkt.header.curPacketNumber).toNat + 1455 ≤
          pkt.header.sizeFor st.assemblyBuffer.length)

/-- The handler leaves its buffers, whatever bytes lie behind the datagram: the message is
longer than the buffer, also if the bytes of its length that have not come are 0, or the
image bytes do not fit into the assembly buffer. -/
def AlwaysFaults (e : Endian) (st : Assembly) (d : List UInt8) : Prop :=
  ∃ pkt : Packet, d.take 1472 = pkt.serialize e ∧
    pkt.header.serverHash = Constants.serverHash ∧
    (pkt.dType = UdpData.DataTypes.testMessage ∧
        1451 < (get32 .big (resize 0 pkt.buffer 4)).toNat ∨
      pkt.dType = UdpData.DataTypes.image ∧ pkt.header.sizeFor st.assemblyBuffer.length <
        (chunkOffset pkt.header.curPacketNumber).toNat + 1455)

/-! ## The handler on a packet -/

theorem Packet.serialize_take_two (e : Endian) (pkt : Packet) :
    (pkt.serialize e).take 2 = put16 e pkt.header.serverHash := by
  simp only [serialize, preamble, List.append_assoc]
  exact List.take_left' (put16_length ..)

theorem Packet.serialize_drop_fifteen (e : Endian) (pkt : Packet) :
    ((pkt.serialize e).drop 15).take 2 = put16 e pkt.dType := by
  rw [serialize, preamble, List.append_assoc, List.drop_left' (by simp),
    List.take_left' (put16_length ..)]

theorem Packet.not_isImage_of_testMessage {pkt : Packet}
    (h : pkt.dType = UdpData.DataTypes.testMessage) : ¬ pkt.IsImage := by
  rintro ⟨-, himage⟩
  rw [h] at himage
  exact absurd himage (by decide)

/-- A packet that is not an image. -/
theorem processDatagram_cases {α : Type} (hand : List UInt8 → α) (e : Endian) (st : Assembly)
    (pkt : Packet) (h : ¬ pkt.IsImage) :
    processDatagram hand e st (pkt.serialize e) =
      if pkt.header.serverHash ≠ Constants.serverHash then .ok (st, .rejected)
      else if pkt.dType = UdpData.DataTypes.testMessage then
        (UdpData.TestMessage.deserialize e pkt.buffer).map fun m => (st, .message m.message)
      else .ok (st, .unknown) := by
  simp only [processDatagram, Packet.parse_serialize, bind, Except.bind]
  by_cases hhash : pkt.header.serverHash = Constants.serverHash
  · rw [if_neg (not_not.mpr hhash), if_neg (not_not.mpr hhash)]
    by_cases htype : pkt.dType = UdpData.DataTypes.testMessage
    · rw [if_pos htype, if_pos htype]
      cases UdpData.TestMessage.deserialize e pkt.buffer <;> rfl
    · rw [if_neg htype, if_neg htype, if_neg fun himage => h ⟨hhash, himage⟩]
  · rw [if_pos hhash, if_pos hhash]

/-! ## Which buffers a history can leave -/

theorem processDatagram_of_hash_ne {α : Type} (hand : List UInt8 → α) (e : Endian)
    (st : Assembly) {buf : List UInt8} (hlen : 17 ≤ buf.length)
    (h : buf.take 2 ≠ put16 e Constants.serverHash) :
    processDatagram hand e st buf = .ok (st, .rejected) := by
  obtain ⟨pkt, hparse⟩ := Packet.exists_parse_eq_ok e buf hlen
  obtain rfl := (Packet.parse_eq_ok_iff e buf pkt).mp hparse
  rw [Packet.serialize_take_two] at h
  have hhash : pkt.header.serverHash ≠ Constants.serverHash := fun heq => h (by rw [heq])
  rw [processDatagram_cases hand e st pkt fun himage => hhash himage.1, if_pos hhash]

namespace UdpReceiver

theorem effect_nil {α : Type} (hand : List UInt8 → α) (e : Endian) (r : UdpReceiver) :
    effect (receive (processDatagram hand e)) r [] = .ok (r.assembly, .idle) := rfl

theorem effect_of_ne_nil {α : Type} (hand : List UInt8 → α) (e : Endian) (r : UdpReceiver)
    {d : List UInt8} (hd : d ≠ []) :
    effect (receive (processDatagram hand e)) r d =
      processDatagram hand e r.assembly (overlay r.buffer.cells d) := by
  rw [effect, receive_of_length_pos _ r d (List.length_pos_iff.mpr hd)]
  show Except.map _ (Except.map _ (processDatagram hand e r.assembly
    (overlay r.buffer.cells d))) = _
  cases processDatagram hand e r.assembly (overlay r.buffer.cells d) <;> rfl

/-- Any bytes can lie behind a datagram: a full datagram with a wrong hash has put them there
and changed nothing else. -/
theorem exists_reached {α : Type} (hand : List UInt8 → α) (e : Endian) {r : UdpReceiver}
    (hr : Reached (receive (processDatagram hand e)) r) {d : List UInt8} (hd : d ≠ [])
    (bs : List UInt8) (hbs : bs.length = 1472) :
    ∃ r', Reached (receive (processDatagram hand e)) r' ∧ r'.assembly = r.assembly ∧
      overlay r'.buffer.cells d = overlay bs d := by
  obtain ⟨b, bs, rfl⟩ := List.exists_cons_of_ne_nil (List.ne_nil_of_length_eq_add_one hbs)
  have hq : (0 :: bs : List UInt8).length = r.buffer.cells.length := by
    rw [r.buffer.length_eq]
    exact hbs
  have hcells : (r.buffer.receive (0 :: bs)).cells = 0 :: bs := overlay_of_length_eq hq
  have hreject : processDatagram hand e r.assembly (0 :: bs) = .ok (r.assembly, .rejected) := by
    have hzero : some 0 ≠ (put16 e Constants.serverHash).head? := by cases e <;> decide
    refine processDatagram_of_hash_ne hand e _ (by rw [hq, r.buffer.length_eq]; decide) ?_
    exact fun h => hzero (congrArg List.head? h)
  obtain ⟨ds, os, hrun⟩ := hr
  let r' : UdpReceiver := { buffer := r.buffer.receive (0 :: bs), assembly := r.assembly }
  have hstep : receive (processDatagram hand e) r (0 :: bs) = .ok (r', .rejected) := by
    rw [receive_of_length_pos _ r _ (by simp), hcells, hreject]
    rfl
  refine ⟨r', ⟨ds ++ [0 :: bs], os ++ [.rejected],
    (completes_concat_iff _ _ _ _ _ _).mpr ⟨r, os, .rejected, hrun, hstep, rfl⟩⟩, rfl, ?_⟩
  -- the first byte of the buffer is one of `d` in any case
  obtain ⟨x, d, rfl⟩ := List.exists_cons_of_ne_nil hd
  show overlay (r.buffer.receive (0 :: bs)).cells (x :: d) = _
  rw [hcells]
  rfl

end UdpReceiver

/-! ## A datagram with a whole header -/

/-- Behind such a datagram the buffer shows its packet, with what the buffer held before
behind the payload. -/
theorem overlay_eq_received {e : Endian} {d : List UInt8} {pkt : Packet}
    (hd : d.take 1472 = pkt.serialize e) {bs : List UInt8} (hbs : bs.length = 1472) :
    overlay bs d = (pkt.received bs).serialize e := by
  rw [← overlay_take bs d, hbs, hd, Packet.overlay_serialize e bs pkt (by omega)]

theorem buffer_length_of_take {e : Endian} {d : List UInt8} {pkt : Packet}
    (hd : d.take 1472 = pkt.serialize e) : pkt.buffer.length = min 1472 d.length - 17 := by
  have hlen := congrArg List.length hd
  rw [List.length_take, Packet.serialize_length] at hlen
  omega

theorem UdpData.TestMessage.serialize_eq (e : Endian) (m : TestMessage) :
    m.serialize e = put32 .big (UInt32.ofNat m.message.length) ++ m.message := by
  rw [serialize, putStr, put32_htonl]

/-- The buffer of the receiver has room for a message of 1451 bytes. -/
theorem exists_message_iff (e : Endian) {buf : List UInt8} (hbuf : buf.length = 1455) :
    (∃ m, UdpData.TestMessage.deserialize e buf = .ok m) ↔
      (get32 .big (buf.take 4)).toNat ≤ 1451 := by
  have hlt : buf.length < 2 ^ 32 := by omega
  simp only [UdpData.TestMessage.deserialize_eq_ok_iff e buf hlt,
    UdpData.TestMessage.serialize_eq]
  constructor
  · rintro ⟨m, t, rfl⟩
    simp only [List.length_append, put32_length] at hbuf
    rw [List.append_assoc, List.take_left' (put32_length ..), get32_put32,
      UInt32.toNat_ofNat_of_lt' (show m.message.length < UInt32.size by
        rw [UInt32.size]; omega)]
    omega
  · intro hle
    have hlen : ((buf.drop 4).take (get32 .big (buf.take 4)).toNat).length =
        (get32 .big (buf.take 4)).toNat := by
      rw [List.length_take, List.length_drop]
      omega
    refine ⟨{ message := (buf.drop 4).take (get32 .big (buf.take 4)).toNat },
      (buf.drop 4).drop (get32 .big (buf.take 4)).toNat, ?_⟩
    rw [hlen, UInt32.ofNat_toNat, put32_get32 .big _ (List.length_take_of_le (by omega)),
      List.append_assoc, List.take_append_drop, List.take_append_drop]

/-- The least length of a message that begins with `xs`. -/
theorem get32_resize_le {xs c : List UInt8} (hc : 4 ≤ c.length) :
    (get32 .big (resize 0 xs 4)).toNat ≤ (get32 .big ((overlay c xs).take 4)).toNat := by
  have hlen : ((overlay c xs).take 4).length = 4 :=
    List.length_take_of_le (by rw [overlay_length]; exact hc)
  rw [get32_toNat .big _ (resize_length ..), get32_toNat .big _ hlen]
  obtain ⟨ys, hys⟩ := isPrefix_overlay_block (show 0 + 4 ≤ c.length by omega) xs
  rw [List.drop_zero, List.drop_zero] at hys
  rw [← hys, resize]
  have hrest : 4 - xs.length = ys.length := by
    have hsum := congrArg List.length hys
    rw [List.length_append, List.length_take, hlen] at hsum
    omega
  rw [hrest]
  exact Endian.decode_big_replicate_zero_le _ ys

/-- The zeros behind the datagram make the least length. -/
theorem take_overlay_replicate {xs : List UInt8} (hxs : xs.length ≤ 1455) :
    (overlay (List.replicate 1455 0) xs).take 4 = resize 0 xs 4 := by
  rw [overlay_of_length_le (by rwa [List.length_replicate]), List.take_append,
    List.drop_replicate, List.take_replicate, resize]
  congr 2
  omega

theorem processImage_eq (st : Assembly) (pkt : Packet) (h : pkt.buffer.length = 1455) :
    st.processImage pkt =
      if (chunkOffset pkt.header.curPacketNumber).toNat + 1455 ≤
          pkt.header.sizeFor st.assemblyBuffer.length then
        let buffer := splice (st.setUp pkt).assemblyBuffer
          (chunkOffset pkt.header.curPacketNumber).toNat pkt.buffer
        if pkt.header.isLast = 1 then .ok ({}, some buffer)
        else .ok ({ st.setUp pkt with assemblyBuffer := buffer }, none)
      else .error .write := by
  rw [← sizeFor_block, ← Reassembly.setUp_length 0, setUp_block]
  simp only [Assembly.processImage, Assembly.imageWrite, writeAt, h]
  split
  · rfl
  · rfl

/-! ## Where all leftovers have one effect -/

theorem take_two_ne {e : Endian} {d bs : List UInt8} (hbs : bs.length = 1472)
    (h : ¬ d.take 2 <+: put16 e Constants.serverHash) :
    (overlay bs d).take 2 ≠ put16 e Constants.serverHash := by
  intro heq
  have hprefix := isPrefix_overlay_block (show 0 + 2 ≤ bs.length by omega) d
  rw [List.drop_zero, List.drop_zero, heq] at hprefix
  exact h hprefix

theorem dType_ne {e : Endian} {d bs : List UInt8} (hbs : bs.length = 1472) {pkt : Packet}
    (hpkt : overlay bs d = pkt.serialize e) {t : UInt16} (h : ¬ (d.drop 15).take 2 <+: put16 e t) :
    pkt.dType ≠ t := by
  rintro rfl
  have hprefix := isPrefix_overlay_block (show 15 + 2 ≤ bs.length by omega) d
  rw [hpkt, Packet.serialize_drop_fifteen] at hprefix
  exact h hprefix

/-- A datagram with which the handler gets no further than the type. -/
theorem exists_ok_of_type {α : Type} (hand : List UInt8 → α) (e : Endian) (st : Assembly)
    {d : List UInt8}
    (hmessage : ¬ (d.drop 15).take 2 <+: put16 e UdpData.DataTypes.testMessage)
    (himage : ¬ (d.drop 15).take 2 <+: put16 e UdpData.DataTypes.image) :
    ∃ x, ∀ bs : List UInt8, bs.length = 1472 →
      processDatagram hand e st (overlay bs d) = .ok x := by
  -- so much has come that the hash is among it
  have hlen : 15 < d.length := by
    by_contra hle
    rw [List.drop_eq_nil_of_le (Nat.not_lt.mp hle)] at hmessage
    exact hmessage List.nil_prefix
  have htwo : ∀ bs : List UInt8, bs.length = 1472 → (overlay bs d).take 2 = d.take 2 := by
    intro bs hbs
    have hpre := isPrefix_overlay_block (show 0 + 2 ≤ bs.length by omega) d
    rw [List.drop_zero, List.drop_zero] at hpre
    refine (hpre.eq_of_length ?_).symm
    rw [List.length_take, List.length_take, overlay_length]
    omega
  by_cases hhash : d.take 2 = put16 e Constants.serverHash
  · refine ⟨(st, .unknown), fun bs hbs => ?_⟩
    obtain ⟨pkt, hparse⟩ := Packet.exists_parse_eq_ok e (overlay bs d)
      (by rw [overlay_length]; omega)
    have hpkt := (Packet.parse_eq_ok_iff e _ pkt).mp hparse
    have hserver : pkt.header.serverHash = Constants.serverHash := by
      apply put16_injective e
      rw [← hhash, ← htwo bs hbs, hpkt, Packet.serialize_take_two]
    rw [hpkt, processDatagram_cases hand e st pkt fun h => dType_ne hbs hpkt himage h.2,
      if_neg (not_not.mpr hserver), if_neg (dType_ne hbs hpkt hmessage)]
  · refine ⟨(st, .rejected), fun bs hbs => ?_⟩
    refine processDatagram_of_hash_ne hand e st (by rw [overlay_length]; omega) ?_
    rwa [htwo bs hbs]

/-- The message is read from the buffer without what lies behind it. -/
theorem processDatagram_message {α : Type} (hand : List UInt8 → α) (e : Endian) (st : Assembly)
    {d : List UInt8} {pkt : Packet} (hd : d.take 1472 = pkt.serialize e)
    (hhash : pkt.header.serverHash = Constants.serverHash)
    (htype : pkt.dType = UdpData.DataTypes.testMessage) {m : UdpData.TestMessage}
    {t : List UInt8} (hm : pkt.buffer = m.serialize e ++ t) {bs : List UInt8}
    (hbs : bs.length = 1472) :
    processDatagram hand e st (overlay bs d) = .ok (st, .message m.message) := by
  have hlen := buffer_length_of_take hd
  have hread : UdpData.TestMessage.deserialize e pkt.buffer = .ok m :=
    (UdpData.TestMessage.deserialize_eq_ok_iff e _ (by omega) m).mpr ⟨t, hm⟩
  have hbuffer : (pkt.received bs).buffer = pkt.buffer ++ (bs.drop 17).drop pkt.buffer.length := by
    refine overlay_of_length_le ?_
    rw [List.length_drop]
    omega
  rw [overlay_eq_received hd hbs, processDatagram_cases hand e st (pkt.received bs)
      (Packet.not_isImage_of_testMessage htype), pkt.received_header, pkt.received_dType,
    if_neg (not_not.mpr hhash), if_pos htype, hbuffer,
    UdpData.TestMessage.deserialize_append hread]
  rfl

/-- A datagram with a whole message. -/
theorem exists_ok_of_message {α : Type} (hand : List UInt8 → α) (e : Endian) (st : Assembly)
    {d : List UInt8} {pkt : Packet} (hd : d.take 1472 = pkt.serialize e)
    (htype : pkt.dType = UdpData.DataTypes.testMessage) {m : UdpData.TestMessage}
    {t : List UInt8} (hm : pkt.buffer = m.serialize e ++ t) :
    ∃ x, ∀ bs : List UInt8, bs.length = 1472 →
      processDatagram hand e st (overlay bs d) = .ok x := by
  have himage := Packet.not_isImage_of_testMessage htype
  by_cases hhash : pkt.header.serverHash = Constants.serverHash
  · exact ⟨(st, .message m.message), fun bs hbs =>
      processDatagram_message hand e st hd hhash htype hm hbs⟩
  · refine ⟨(st, .rejected), fun bs hbs => ?_⟩
    rw [overlay_eq_received hd hbs, processDatagram_cases hand e st (pkt.received bs) himage,
      pkt.received_header, if_pos hhash]

/-- A full datagram with an image whose bytes fit. -/
theorem exists_ok_of_image {α : Type} (hand : List UInt8 → α) (e : Endian) (st : Assembly)
    {d : List UInt8} {pkt : Packet} (hd : d.take 1472 = pkt.serialize e)
    (htype : pkt.dType = UdpData.DataTypes.image) (hfull : 1472 ≤ d.length)
    (hfits : (chunkOffset pkt.header.curPacketNumber).toNat + 1455 ≤
      pkt.header.sizeFor st.assemblyBuffer.length) :
    ∃ x, ∀ bs : List UInt8, bs.length = 1472 →
      processDatagram hand e st (overlay bs d) = .ok x := by
  have hlen := buffer_length_of_take hd
  have hbytes : ∀ bs : List UInt8, bs.length = 1472 → overlay bs d = pkt.serialize e := by
    intro bs hbs
    rw [overlay_of_le bs d (by omega), hbs, hd]
  by_cases hhash : pkt.header.serverHash = Constants.serverHash
  · have hok := processImage_eq st pkt (by omega)
    rw [if_pos hfits] at hok
    cases hx : st.processImage pkt with
    | error f =>
        rw [hx] at hok
        simp only at hok
        split at hok <;> exact absurd hok (by simp)
    | ok x =>
        refine ⟨(x.1, .ofHanded hand x.2), fun bs hbs => ?_⟩
        rw [hbytes bs hbs, processDatagram_serialize hand e st pkt ⟨hhash, htype⟩, hx]
        rfl
  · refine ⟨(st, .rejected), fun bs hbs => ?_⟩
    rw [hbytes bs hbs, processDatagram_cases hand e st pkt fun h => hhash h.1, if_pos hhash]

theorem exists_ok_of_ownBytes {α : Type} (hand : List UInt8 → α) {e : Endian} {st : Assembly}
    {d : List UInt8} (hd : d ≠ []) (h : OwnBytes e st d) :
    ∃ x, ∀ bs : List UInt8, bs.length = 1472 →
      processDatagram hand e st (overlay bs d) = .ok x := by
  rcases h with hnil | hhash | ⟨hmessage, himage⟩ |
    ⟨pkt, htake, ⟨htype, m, t, hm⟩ | ⟨htype, hfull, hfits⟩⟩
  · exact absurd hnil hd
  · exact ⟨(st, .rejected), fun bs hbs => processDatagram_of_hash_ne hand e st
      (by rw [overlay_length]; omega) (take_two_ne hbs hhash)⟩
  · exact exists_ok_of_type hand e st hmessage himage
  · exact exists_ok_of_message hand e st htake htype hm
  · exact exists_ok_of_image hand e st htake htype hfull hfits

/-! ## Where all leftovers lead to a fault -/

theorem exists_error_of_alwaysFaults {α : Type} (hand : List UInt8 → α) {e : Endian}
    {st : Assembly} {d : List UInt8} (h : AlwaysFaults e st d) :
    ∃ f, ∀ bs : List UInt8, bs.length = 1472 →
      processDatagram hand e st (overlay bs d) = .error f := by
  obtain ⟨pkt, hd, hhash, ⟨htype, hlong⟩ | ⟨htype, hshort⟩⟩ := h
  · have himage := Packet.not_isImage_of_testMessage htype
    refine ⟨.read, fun bs hbs => ?_⟩
    have hle : 4 ≤ (bs.drop 17).length := by
      rw [List.length_drop]
      omega
    have hnone := (exists_message_iff e (pkt.received_buffer_length bs hbs)).not.mpr
      (Nat.not_le.mpr (hlong.trans_le (get32_resize_le hle)))
    rw [overlay_eq_received hd hbs, processDatagram_cases hand e st (pkt.received bs) himage,
      pkt.received_header, pkt.received_dType, if_neg (not_not.mpr hhash), if_pos htype]
    cases hread : UdpData.TestMessage.deserialize e (pkt.received bs).buffer with
    | ok m => exact absurd ⟨m, hread⟩ hnone
    | error f =>
        rw [UdpData.TestMessage.onlyReads_deserialize e _ f hread]
        rfl
  · refine ⟨.write, fun bs hbs => ?_⟩
    rw [overlay_eq_received hd hbs,
      processDatagram_serialize hand e st (pkt.received bs) ⟨hhash, htype⟩,
      processImage_eq st _ (pkt.received_buffer_length bs hbs), pkt.received_header,
      if_neg (Nat.not_le.mpr hshort)]
    rfl

/-! ## Where two leftovers differ -/

/-- The preamble of an accepted packet of the type `t`, in a buffer. -/
def template (e : Endian) (t : UInt16) : List UInt8 :=
  put16 e Constants.serverHash ++ (List.replicate 13 0 ++ (put16 e t ++ List.replicate 1455 0))

theorem template_length (e : Endian) (t : UInt16) : (template e t).length = 1472 := by
  simp only [template, List.length_append, put16_length, List.length_replicate]

/-- As long as a short datagram leaves it open, what was in the buffer decides the type. -/
theorem exists_shown_of_open {e : Endian} {d : List UInt8} (hd : d.length < 17)
    (hhash : d.take 2 <+: put16 e Constants.serverHash) {t : UInt16}
    (htype : (d.drop 15).take 2 <+: put16 e t) :
    ∃ pkt : Packet, overlay (template e t) d = pkt.serialize e ∧
      pkt.header.serverHash = Constants.serverHash ∧ pkt.dType = t := by
  have hlen := template_length e t
  have hfront : ((template e t).drop 0).take 2 = put16 e Constants.serverHash :=
    List.take_left' (put16_length ..)
  have hback : ((template e t).drop 15).take 2 = put16 e t := by
    rw [template, ← List.append_assoc, List.drop_left' (by simp), List.take_left' (by simp)]
  obtain ⟨pkt, hparse⟩ := Packet.exists_parse_eq_ok e (overlay (template e t) d)
    (by rw [overlay_length]; omega)
  have hpkt := (Packet.parse_eq_ok_iff e _ pkt).mp hparse
  refine ⟨pkt, hpkt, put16_injective e ?_, put16_injective e ?_⟩
  · rw [← Packet.serialize_take_two, ← hpkt, ← hfront]
    exact overlay_block (show 0 + 2 ≤ _ by omega) (by omega) (by rw [hfront]; exact hhash)
  · rw [← Packet.serialize_drop_fifteen, ← hpkt, ← hback]
    exact overlay_block (by omega) (by omega) (by rw [hback]; exact htype)

theorem processDatagram_ne_unknown {α : Type} (hand : List UInt8 → α) (e : Endian)
    (st : Assembly) {pkt : Packet} (hhash : pkt.header.serverHash = Constants.serverHash)
    (htype : pkt.dType = UdpData.DataTypes.testMessage ∨ pkt.dType = UdpData.DataTypes.image) :
    processDatagram hand e st (pkt.serialize e) ≠ .ok (st, .unknown) := by
  rcases htype with htype | htype
  · have himage := Packet.not_isImage_of_testMessage htype
    rw [processDatagram_cases hand e st pkt himage, if_neg (not_not.mpr hhash), if_pos htype]
    cases UdpData.TestMessage.deserialize e pkt.buffer <;> simp [Except.map]
  · rw [processDatagram_serialize hand e st pkt ⟨hhash, htype⟩]
    cases st.processImage pkt with
    | error f => simp [Except.map]
    | ok x => obtain ⟨st', _ | buffer⟩ := x <;> simp [Except.map, UdpEffect.ofHanded]

/-- The type that a short datagram shows in front of the byte 255 has no case. -/
theorem open_unknown {d : List UInt8} (hd : d.length < 17) (e : Endian) :
    (d.drop 15).take 2 <+: put16 e (get16 e [d.getD 15 0, 255]) := by
  rw [put16_get16 e _ rfl]
  rcases Nat.lt_or_ge 15 d.length with hlt | hle
  · rw [List.drop_eq_getElem_cons hlt, List.drop_eq_nil_of_le (by omega),
      List.getD_eq_getElem?_getD, List.getElem?_eq_getElem hlt]
    exact ⟨[255], rfl⟩
  · rw [List.drop_eq_nil_of_le hle]
    exact List.nil_prefix

theorem get16_ne {e : Endian} (x : UInt8) {t : UInt16} (ht : (put16 e t).getLast? ≠ some 255) :
    get16 e [x, 255] ≠ t := by
  rintro rfl
  rw [put16_get16 e _ rfl] at ht
  exact ht rfl

/-- A datagram without a whole type. -/
theorem not_constant_of_short {α : Type} (hand : List UInt8 → α) (e : Endian) (st : Assembly)
    {d : List UInt8} (hd : d.length < 17) (hhash : d.take 2 <+: put16 e Constants.serverHash)
    {t : UInt16} (htype : (d.drop 15).take 2 <+: put16 e t)
    (ht : t = UdpData.DataTypes.testMessage ∨ t = UdpData.DataTypes.image) :
    ∃ bs bs' : List UInt8, bs.length = 1472 ∧ bs'.length = 1472 ∧
      processDatagram hand e st (overlay bs d) ≠ processDatagram hand e st (overlay bs' d) := by
  obtain ⟨pkt, hpkt, hserver, hknown⟩ := exists_shown_of_open hd hhash htype
  obtain ⟨pkt', hpkt', hserver', hunknown⟩ := exists_shown_of_open hd hhash (open_unknown hd e)
  have hmessage : pkt'.dType ≠ UdpData.DataTypes.testMessage := by
    rw [hunknown]
    exact get16_ne _ (by cases e <;> decide)
  have himage : pkt'.dType ≠ UdpData.DataTypes.image := by
    rw [hunknown]
    exact get16_ne _ (by cases e <;> decide)
  refine ⟨template e t, template e (get16 e [d.getD 15 0, 255]), template_length e t,
    template_length e _, ?_⟩
  rw [hpkt, hpkt', processDatagram_cases hand e st pkt' fun h => himage h.2,
    if_neg (not_not.mpr hserver'), if_neg hmessage]
  exact processDatagram_ne_unknown hand e st hserver (by rw [hknown]; exact ht)

/-- With a header in front of it every payload can be behind the datagram. -/
theorem received_replicate (pkt : Packet) (c : List UInt8) :
    (pkt.received (List.replicate 17 0 ++ c)).buffer = overlay c pkt.buffer := by
  rw [Packet.received, List.drop_left' List.length_replicate]

theorem length_behind {c : List UInt8} (hc : c.length = 1455) :
    (List.replicate 17 0 ++ c).length = 1472 := by
  rw [List.length_append, List.length_replicate, hc]

/-- A message that is the same behind all leftovers has been received. -/
theorem exists_message_of_constant {α : Type} (hand : List UInt8 → α) {e : Endian}
    {st : Assembly} {d : List UInt8} {pkt : Packet} (hd : d.take 1472 = pkt.serialize e)
    (hhash : pkt.header.serverHash = Constants.serverHash)
    (htype : pkt.dType = UdpData.DataTypes.testMessage)
    (hlong : (get32 .big (resize 0 pkt.buffer 4)).toNat ≤ 1451)
    (hsame : ∀ bs bs' : List UInt8, bs.length = 1472 → bs'.length = 1472 →
      processDatagram hand e st (overlay bs d) = processDatagram hand e st (overlay bs' d)) :
    ∃ (m : UdpData.TestMessage) (t : List UInt8), pkt.buffer = m.serialize e ++ t := by
  have hlen : pkt.buffer.length ≤ 1455 := by
    rw [buffer_length_of_take hd]
    omega
  have himage := Packet.not_isImage_of_testMessage htype
  have hbehind : ∀ c : List UInt8, c.length = 1455 →
      processDatagram hand e st (overlay (List.replicate 17 0 ++ c) d) =
        (UdpData.TestMessage.deserialize e (overlay c pkt.buffer)).map
          fun m => (st, .message m.message) := by
    intro c hc
    rw [overlay_eq_received hd (length_behind hc),
      processDatagram_cases hand e st (pkt.received _) himage, pkt.received_header,
      pkt.received_dType, if_neg (not_not.mpr hhash), if_pos htype, received_replicate]
  have hzero : (List.replicate 1455 (0 : UInt8)).length = 1455 := List.length_replicate
  have hbuf : (overlay (List.replicate 1455 0) pkt.buffer).length = 1455 := by
    rw [overlay_length, hzero]
  obtain ⟨m, hm⟩ := (exists_message_iff e hbuf).mpr (by rwa [take_overlay_replicate hlen])
  have hprefix : m.serialize e <+: pkt.buffer := by
    refine isPrefix_of_forall_overlay (show (0 : UInt8) ≠ 1 by decide) hlen fun c hc => ?_
    have hc' := hsame _ _ (length_behind hc) (length_behind hzero)
    rw [hbehind c hc, hbehind _ hzero, hm] at hc'
    obtain ⟨m', hm', heq⟩ := (map_eq_ok_iff _ _ _).mp hc'
    have hmessage : m' = m := by
      cases m'
      cases m
      simpa using heq
    rw [hmessage] at hm'
    obtain ⟨t, ht⟩ := (UdpData.TestMessage.deserialize_eq_ok_iff e _
      (by rw [overlay_length, hc]; decide) m).mp hm'
    exact ⟨t, ht.symm⟩
  obtain ⟨t, ht⟩ := hprefix
  exact ⟨m, t, ht.symm⟩

/-- An image packet that fits, with a constant leftover behind it. -/
theorem processDatagram_image_replicate {α : Type} (hand : List UInt8 → α) {e : Endian}
    {st : Assembly} {d : List UInt8} {pkt : Packet} (hd : d.take 1472 = pkt.serialize e)
    (himage : pkt.IsImage) (hfits : (chunkOffset pkt.header.curPacketNumber).toNat + 1455 ≤
      pkt.header.sizeFor st.assemblyBuffer.length) (x : UInt8) :
    processDatagram hand e st (overlay (List.replicate 17 0 ++ List.replicate 1455 x) d) =
      let buffer := splice (st.setUp pkt).assemblyBuffer
        (chunkOffset pkt.header.curPacketNumber).toNat
        (overlay (List.replicate 1455 x) pkt.buffer)
      if pkt.header.isLast = 1 then .ok ({}, .image (hand buffer))
      else .ok ({ st.setUp pkt with assemblyBuffer := buffer }, .fragment) := by
  have hbs := length_behind (List.length_replicate (n := 1455) (a := x))
  rw [overlay_eq_received hd hbs, processDatagram_serialize hand e st (pkt.received _) himage,
    processImage_eq st _ (pkt.received_buffer_length _ hbs), pkt.received_header, if_pos hfits,
    received_replicate]
  by_cases hlast : pkt.header.isLast = 1
  · simp only [if_pos hlast]
    rfl
  · simp only [if_neg hlast]
    rfl

/-- An image packet whose copy is the same behind all leftovers fills the buffer. -/
theorem full_of_constant {α : Type} {hand : List UInt8 → α} (hhand : hand.Injective)
    {e : Endian} {st : Assembly} {d : List UInt8} {pkt : Packet}
    (hd : d.take 1472 = pkt.serialize e)
    (hhash : pkt.header.serverHash = Constants.serverHash)
    (htype : pkt.dType = UdpData.DataTypes.image)
    (hfits : (chunkOffset pkt.header.curPacketNumber).toNat + 1455 ≤
      pkt.header.sizeFor st.assemblyBuffer.length)
    (hsame : ∀ bs bs' : List UInt8, bs.length = 1472 → bs'.length = 1472 →
      processDatagram hand e st (overlay bs d) = processDatagram hand e st (overlay bs' d)) :
    1472 ≤ d.length := by
  have hold : (st.setUp pkt).assemblyBuffer.length =
      pkt.header.sizeFor st.assemblyBuffer.length := by
    rw [← sizeFor_block, ← Reassembly.setUp_length 0, setUp_block]
  have hx := hsame _ _ (length_behind (List.length_replicate (n := 1455) (a := 0)))
    (length_behind (List.length_replicate (n := 1455) (a := 1)))
  rw [processDatagram_image_replicate hand hd ⟨hhash, htype⟩ hfits 0,
    processDatagram_image_replicate hand hd ⟨hhash, htype⟩ hfits 1] at hx
  -- the image that is handed over, or the assembly buffer, shows the leftover
  have hle : 1455 ≤ pkt.buffer.length := by
    refine length_le_of_splice_replicate (show (0 : UInt8) ≠ 1 by decide) (hfits.trans hold.ge) ?_
    by_cases hlast : pkt.header.isLast = 1
    · simp only [if_pos hlast, Except.ok.injEq, Prod.mk.injEq] at hx
      exact hhand (UdpEffect.image.inj hx.2)
    · simp only [if_neg hlast, Except.ok.injEq, Prod.mk.injEq] at hx
      exact (Assembly.mk.inj hx.1).1
  rw [buffer_length_of_take hd] at hle
  omega

/-! ## The exact condition -/

theorem ownBytes_or_alwaysFaults {α : Type} {hand : List UInt8 → α} (hhand : hand.Injective)
    {e : Endian} {st : Assembly} {d : List UInt8}
    (hsame : ∀ bs bs' : List UInt8, bs.length = 1472 → bs'.length = 1472 →
      processDatagram hand e st (overlay bs d) = processDatagram hand e st (overlay bs' d)) :
    OwnBytes e st d ∨ AlwaysFaults e st d := by
  by_cases hhash : d.take 2 <+: put16 e Constants.serverHash
  swap
  · exact .inl (.inr (.inl hhash))
  by_cases hopen : ∃ t, (d.drop 15).take 2 <+: put16 e t ∧
      (t = UdpData.DataTypes.testMessage ∨ t = UdpData.DataTypes.image)
  swap
  · exact .inl (.inr (.inr (.inl ⟨fun h => hopen ⟨_, h, .inl rfl⟩,
      fun h => hopen ⟨_, h, .inr rfl⟩⟩)))
  obtain ⟨t, htype, ht⟩ := hopen
  rcases Nat.lt_or_ge d.length 17 with hshort | hlong
  · obtain ⟨bs, bs', hbs, hbs', hne⟩ := not_constant_of_short hand e st hshort hhash htype ht
    exact absurd (hsame bs bs' hbs hbs') hne
  -- the hash and the type have come, so they are those of the packet
  obtain ⟨pkt, hparse⟩ := Packet.exists_parse_eq_ok e (d.take 1472)
    (by rw [List.length_take]; omega)
  have hd := (Packet.parse_eq_ok_iff e _ pkt).mp hparse
  have hserver : pkt.header.serverHash = Constants.serverHash := by
    apply put16_injective e
    rw [← Packet.serialize_take_two, ← hd, List.take_take]
    exact hhash.eq_of_length (by rw [List.length_take, put16_length]; omega)
  have hdType : pkt.dType = t := by
    apply put16_injective e
    rw [← Packet.serialize_drop_fifteen, ← hd, List.drop_take, List.take_take]
    exact htype.eq_of_length (by rw [List.length_take, List.length_drop, put16_length]; omega)
  rcases ht with rfl | rfl
  · rcases Nat.lt_or_ge 1451 (get32 .big (resize 0 pkt.buffer 4)).toNat with hlt | hle
    · exact .inr ⟨pkt, hd, hserver, .inl ⟨hdType, hlt⟩⟩
    · exact .inl (.inr (.inr (.inr ⟨pkt, hd, .inl ⟨hdType,
        exists_message_of_constant hand hd hserver hdType hle hsame⟩⟩)))
  · rcases Nat.lt_or_ge (pkt.header.sizeFor st.assemblyBuffer.length)
      ((chunkOffset pkt.header.curPacketNumber).toNat + 1455) with hlt | hle
    · exact .inr ⟨pkt, hd, hserver, .inr ⟨hdType, hlt⟩⟩
    · exact .inl (.inr (.inr (.inr ⟨pkt, hd, .inr ⟨hdType,
        full_of_constant hhand hd hserver hdType hle hsame, hle⟩⟩)))

namespace UdpReceiver

/-- A state of the receiver is as good as any other bytes in its buffer. -/
theorem processDatagram_of_sameEffect {α : Type} {hand : List UInt8 → α} {e : Endian}
    {r : UdpReceiver} (hr : Reached (receive (processDatagram hand e)) r) {d : List UInt8}
    (hd : d ≠ []) (hsame : SameEffect (receive (processDatagram hand e)) r.assembly d)
    (bs bs' : List UInt8) (hbs : bs.length = 1472) (hbs' : bs'.length = 1472) :
    processDatagram hand e r.assembly (overlay bs d) =
      processDatagram hand e r.assembly (overlay bs' d) := by
  obtain ⟨r₁, hr₁, hst₁, hover₁⟩ := exists_reached hand e hr hd bs hbs
  obtain ⟨r₂, hr₂, hst₂, hover₂⟩ := exists_reached hand e hr hd bs' hbs'
  have heq := hsame r₁ r₂ hr₁ hr₂ hst₁ hst₂
  rwa [effect_of_ne_nil hand e r₁ hd, effect_of_ne_nil hand e r₂ hd, hst₁, hst₂, hover₁,
    hover₂] at heq

theorem oneEffect_of_ownBytes {α : Type} (hand : List UInt8 → α) {e : Endian} {st : Assembly}
    {d : List UInt8} (h : OwnBytes e st d) :
    OneEffect (receive (processDatagram hand e)) st d := by
  by_cases hd : d = []
  · subst hd
    exact ⟨(st, .idle), fun r _ hst => by rw [effect_nil, hst]⟩
  · obtain ⟨x, hx⟩ := exists_ok_of_ownBytes hand hd h
    refine ⟨x, fun r _ hst => ?_⟩
    rw [effect_of_ne_nil hand e r hd, hst, hx _ r.buffer.length_eq]

theorem sameEffect_of_oneEffect {α : Type}
    {listen : UdpReceiver → List UInt8 → Except Fault (UdpReceiver × UdpEffect α)}
    {st : Assembly} {d : List UInt8} (h : OneEffect listen st d) : SameEffect listen st d := by
  obtain ⟨x, hx⟩ := h
  intro r₁ r₂ hr₁ hr₂ hst₁ hst₂
  rw [hx r₁ hr₁ hst₁, hx r₂ hr₂ hst₂]

/-- What decides about a datagram, for a receiver that can get to the state `st`. -/
theorem leftover_receive_iff {α : Type} {hand : List UInt8 → α} (hhand : hand.Injective)
    (e : Endian) (r : UdpReceiver) (hr : Reached (receive (processDatagram hand e)) r)
    (d : List UInt8) :
    (SameEffect (receive (processDatagram hand e)) r.assembly d ↔
      OwnBytes e r.assembly d ∨ AlwaysFaults e r.assembly d) ∧
    (OneEffect (receive (processDatagram hand e)) r.assembly d ↔ OwnBytes e r.assembly d) := by
  have hto : SameEffect (receive (processDatagram hand e)) r.assembly d →
      OwnBytes e r.assembly d ∨ AlwaysFaults e r.assembly d := by
    intro hsame
    by_cases hd : d = []
    · exact .inl (.inl hd)
    · exact ownBytes_or_alwaysFaults hhand (processDatagram_of_sameEffect hr hd hsame)
  have hfault : AlwaysFaults e r.assembly d → ∃ f, ∀ r', r'.assembly = r.assembly →
      effect (receive (processDatagram hand e)) r' d = .error f := by
    intro hfaults
    obtain ⟨f, hf⟩ := exists_error_of_alwaysFaults hand hfaults
    have hd : d ≠ [] := by
      rintro rfl
      obtain ⟨pkt, hpkt, -⟩ := hfaults
      have hlen := congrArg List.length hpkt
      rw [List.take_nil, List.length_nil, Packet.serialize_length] at hlen
      omega
    refine ⟨f, fun r' hst => ?_⟩
    rw [effect_of_ne_nil hand e r' hd, hst, hf _ r'.buffer.length_eq]
  refine ⟨⟨hto, ?_⟩, ?_, oneEffect_of_ownBytes hand⟩
  · rintro (hown | hfaults)
    · exact sameEffect_of_oneEffect (oneEffect_of_ownBytes hand hown)
    · obtain ⟨f, hf⟩ := hfault hfaults
      intro r₁ r₂ _ _ hst₁ hst₂
      rw [hf r₁ hst₁, hf r₂ hst₂]
  · intro hone
    refine (hto (sameEffect_of_oneEffect hone)).resolve_right fun hfaults => ?_
    obtain ⟨x, hx⟩ := hone
    obtain ⟨f, hf⟩ := hfault hfaults
    exact absurd ((hx r hr rfl).symm.trans (hf r rfl)) (by simp)

end UdpReceiver

/-- Exactly when a datagram is processed without a look at what was in the buffer before, in
both programs and every state that a history can lead to. -/
theorem leftover_iff (e : Endian) (d : List UInt8) :
    (∀ r, UdpReceiver.Reached (AsioUdpManager.listen e) r →
      (UdpReceiver.SameEffect (AsioUdpManager.listen e) r.assembly d ↔
        OwnBytes e r.assembly d ∨ AlwaysFaults e r.assembly d) ∧
      (UdpReceiver.OneEffect (AsioUdpManager.listen e) r.assembly d ↔
        OwnBytes e r.assembly d)) ∧
    ∀ r, UdpReceiver.Reached (BoostUdpConnection.listen e) r →
      (UdpReceiver.SameEffect (BoostUdpConnection.listen e) r.assembly d ↔
        OwnBytes e r.assembly d ∨ AlwaysFaults e r.assembly d) ∧
      (UdpReceiver.OneEffect (BoostUdpConnection.listen e) r.assembly d ↔
        OwnBytes e r.assembly d) :=
  ⟨fun r hr => UdpReceiver.leftover_receive_iff (fun _ _ h => (Prod.mk.inj h).2) e r hr d,
    fun r hr => UdpReceiver.leftover_receive_iff Function.injective_id e r hr d⟩

/-- A datagram with a message of one character, which does not come with it. -/
def withoutText : List UInt8 :=
  ({ buffer := [0, 0, 0, 1] } : Packet).serialize .little

/-- A datagram of another client, with the message `7`. -/
def withText : List UInt8 :=
  ({ buffer := UdpData.TestMessage.serialize .little { message := [7] } } : Packet).serialize
    .little

/-- The datagram without its text is processed by a fresh receiver, and by one that has had
the message of the other client. -/
def LogsLeftover {α : Type}
    (listen : UdpReceiver → List UInt8 → Except Fault (UdpReceiver × UdpEffect α)) : Prop :=
  ∃ r : UdpReceiver, Completes listen UdpReceiver.start [withText] r [.message [7]] ∧
    r.assembly = UdpReceiver.start.assembly ∧
    UdpReceiver.effect listen UdpReceiver.start withoutText = .ok ({}, .message [0]) ∧
    UdpReceiver.effect listen r withoutText = .ok ({}, .message [7])

theorem logsLeftover_of_processDatagram {α : Type} {hand : List UInt8 → α}
    (hfirst : processDatagram hand .little {} (overlay UdpReceiver.start.buffer.cells withText) =
      .ok ({}, .message [7]))
    (hfresh : processDatagram hand .little {}
      (overlay UdpReceiver.start.buffer.cells withoutText) = .ok ({}, .message [0]))
    (hthen : processDatagram hand .little {}
      (overlay (overlay UdpReceiver.start.buffer.cells withText) withoutText) =
        .ok ({}, .message [7])) :
    LogsLeftover (UdpReceiver.receive (processDatagram hand .little)) := by
  have hstep : UdpReceiver.receive (processDatagram hand .little) UdpReceiver.start withText =
      .ok ({ buffer := UdpReceiver.start.buffer.receive withText, assembly := {} },
        .message [7]) := by
    rw [UdpReceiver.receive_of_length_pos _ _ _ (by decide)]
    exact congrArg (Except.map _) hfirst
  refine ⟨_, (completes_singleton_iff _ _ _ _ _).mpr ⟨_, hstep, rfl⟩, rfl, ?_, ?_⟩
  · rw [UdpReceiver.effect_of_ne_nil _ _ _ (by decide)]
    exact hfresh
  · rw [UdpReceiver.effect_of_ne_nil _ _ _ (by decide)]
    exact hthen

theorem LogsLeftover.not_sameEffect {α : Type}
    {listen : UdpReceiver → List UInt8 → Except Fault (UdpReceiver × UdpEffect α)}
    (h : LogsLeftover listen) : ¬ UdpReceiver.SameEffect listen {} withoutText := by
  obtain ⟨r, hrun, hst, hfresh, hthen⟩ := h
  intro hsame
  have heq := hsame UdpReceiver.start r ⟨[], [], rfl⟩ ⟨_, _, hrun⟩ rfl hst
  rw [hfresh, hthen] at heq
  exact absurd heq (by simp)

/-- Both programs log the character of the other client. -/
theorem leftover_logged :
    (LogsLeftover (AsioUdpManager.listen .little) ∧
      ¬ UdpReceiver.SameEffect (AsioUdpManager.listen .little) {} withoutText) ∧
    LogsLeftover (BoostUdpConnection.listen .little) ∧
      ¬ UdpReceiver.SameEffect (BoostUdpConnection.listen .little) {} withoutText := by
  have hserver : LogsLeftover (AsioUdpManager.listen .little) :=
    logsLeftover_of_processDatagram (by decide +kernel) (by decide +kernel) (by decide +kernel)
  have hclient : LogsLeftover (BoostUdpConnection.listen .little) :=
    logsLeftover_of_processDatagram (by decide +kernel) (by decide +kernel) (by decide +kernel)
  exact ⟨⟨hserver, hserver.not_sameEffect⟩, hclient, hclient.not_sameEffect⟩

/-- An image of one fragment, which fills the receive buffer. -/
def fullFragment : Packet where
  header := { totalDataSize := 1455, curPacketNumber := 1, isFirst := 1, isLast := 1 }
  dType := UdpData.DataTypes.image
  buffer := List.replicate 1455 7

theorem fullFragment_length : (fullFragment.serialize .little).length = 1472 := by
  rw [Packet.serialize_length, fullFragment, List.length_replicate]

theorem ownBytes_withText : OwnBytes .little {} withText :=
  .inr (.inr (.inr ⟨{ buffer := UdpData.TestMessage.serialize .little { message := [7] } },
    by decide, .inl ⟨rfl, { message := [7] }, [], (List.append_nil _).symm⟩⟩))

theorem ownBytes_fullFragment : OwnBytes .little {} (fullFragment.serialize .little) :=
  .inr (.inr (.inr ⟨fullFragment, List.take_of_length_le fullFragment_length.le,
    .inr ⟨rfl, fullFragment_length.ge, by decide⟩⟩))

/-- A fresh receiver of either program: a message that has come with its text, and a full
fragment. -/
theorem leftover_iff_start :
    UdpReceiver.OneEffect (AsioUdpManager.listen .little) {} withText ∧
    UdpReceiver.OneEffect (BoostUdpConnection.listen .little) {}
      (fullFragment.serialize .little) := by
  obtain ⟨-, hserver⟩ := (leftover_iff .little withText).1 UdpReceiver.start ⟨[], [], rfl⟩
  obtain ⟨-, hclient⟩ :=
    (leftover_iff .little (fullFragment.serialize .little)).2 UdpReceiver.start ⟨[], [], rfl⟩
  exact ⟨hserver.mpr ownBytes_withText, hclient.mpr ownBytes_fullFragment⟩

end P2PWatcher
