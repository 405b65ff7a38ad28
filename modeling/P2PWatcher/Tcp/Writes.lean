import P2PWatcher.Tcp.Stream
import P2PWatcher.Sequence.Writes

/-!
# Frames on their way to the server

`asyncWrite` starts to write a frame without a look at the writes that are going on. There is
no queue, so the parts of several frames may alternate on the stream, and then the server
takes bytes out of the middle of a frame for a length. In general the stream merges the
frames. As long as no write sends while another one is in the middle of its frame, it
consists of whole frames, one for each call, and the server's reader gets them all
(`frames_of_completes`).
-/

namespace P2PWatcher

open Memory Machine Sequence

inductive SendEvent where
  | asyncWrite (dataType : UInt16) (buffer : List UInt8)
  /-- the write of the call `i` sends its next `n` bytes -/
  | sent (i n : ℕ)

namespace SendEvent

/-- What the event does on a connection that is up. -/
def toWrite (e : Endian) : SendEvent → WriteEvent UInt8
  | .asyncWrite dataType buffer =>
      .start ((BoostTcpConnection.asyncWrite e true dataType buffer).getD [])
  | .sent i n => .send i n

def packet? : SendEvent → Option Packet
  | .asyncWrite dataType buffer => some (BoostTcpConnection.packet dataType buffer)
  | .sent _ _ => none

end SendEvent

/-- The packets of the calls, in order. -/
def packetsOf (events : List SendEvent) : List Packet := events.filterMap SendEvent.packet?

/-- The bytes are whole frames, one for each call. -/
def WholeFrames (e : Endian) (events : List SendEvent) (bytes : List UInt8) : Prop :=
  ∃ pkts : List Packet, pkts.Perm (packetsOf events) ∧ bytes = (pkts.map (frame e)).flatten

/-- The server's reader gets the packets whole, however the bytes were cut into segments. -/
def Aligned (e : Endian) (bytes : List UInt8) (pkts : List Packet) : Prop :=
  ∀ segments : List (List UInt8), segments.flatten = bytes → ∀ fuel, 2 * pkts.length + 1 ≤ fuel →
    ∃ s' conn', s'.phase = .stopped ∧
      ReadChain.drive (AsioTcpClientSession.doRead e) fuel {} { segments, ending := .eof } =
        (ReadChain.frameEvents (pkts.map (Packet.serialize e)) ++ [.deleting], s', conn')

theorem aligned_of_frames (e : Endian) {pkts : List Packet}
    (h : ∀ pkt ∈ pkts, (pkt.serialize e).length < 2 ^ 32) :
    Aligned e (pkts.map (frame e)).flatten pkts := by
  intro segments hsegments fuel hfuel
  refine ReadChain.drive_frames .deleting e (List.forall_mem_map.mpr h) (s := {}) rfl rfl ?_
    (by rwa [List.length_map])
  rw [List.map_map]
  exact hsegments

/-- The calls start to write the frames of their packets. -/
theorem started_map_toWrite (e : Endian) (events : List SendEvent) :
    (events.map (SendEvent.toWrite e)).filterMap Writes.started? =
      (packetsOf events).map (frame e) := by
  rw [packetsOf, List.filterMap_map, List.map_filterMap]
  refine List.filterMap_congr fun event _ => ?_
  cases event <;> rfl

/-- For every sequence of calls and every schedule of the writes: the bytes on the stream merge
what the writes have sent of their frames. If no write sends while another one is in the
middle of its frame, the bytes are the beginning of whole frames, one for each call, and when
all is sent they are these frames, and the server's reader gets them. -/
theorem frames_of_completes (e : Endian) (events : List SendEvent) (w : Writes UInt8)
    (os : List Unit) (h : Completes Writes.step {} (events.map (SendEvent.toWrite e)) w os) :
    w.ops.map Write.whole = (packetsOf events).map (frame e) ∧
      Writes.Merges (w.ops.map Write.sent) w.stream ∧
      (EachStep Writes.step {} (events.map (SendEvent.toWrite e)) Writes.Alone →
        ∃ pkts : List Packet, pkts.Perm (packetsOf events) ∧
          w.stream <+: (pkts.map (frame e)).flatten ∧
          ((∀ op ∈ w.ops, op.left = []) → w.stream = (pkts.map (frame e)).flatten ∧
            ((∀ pkt ∈ pkts, (pkt.serialize e).length < 2 ^ 32) → Aligned e w.stream pkts))) := by
  have hwhole : w.ops.map Write.whole = (packetsOf events).map (frame e) := by
    rw [Writes.whole_of_completes h, started_map_toWrite]
  refine ⟨hwhole, Writes.merges_of_completes h, fun halone => ?_⟩
  have hserial := Writes.serial_throughout halone _ [] (List.append_nil _).symm w os h
  obtain ⟨frames, hperm, hprefix, hall⟩ := hserial.exists_perm
  rw [hwhole] at hperm
  obtain ⟨pkts, hpkts, rfl⟩ := exists_perm_of_perm_map hperm
  refine ⟨pkts, hpkts, hprefix, fun hleft => ⟨hall hleft, fun hsizes => ?_⟩⟩
  rw [hall hleft]
  exact aligned_of_frames e hsizes

/-- A packet of 2^32 bytes or more is longer than any length in front of a frame. -/
theorem size_ne_of_le (e : Endian) {pkt : Packet} (h : 2 ^ 32 ≤ (pkt.serialize e).length) :
    (get32 e ((frame e pkt).take 4)).toNat ≠ (pkt.serialize e).length :=
  Nat.ne_of_lt (lt_of_lt_of_le (UInt32.toNat_lt _) h)

/-- The second of two calls sends its frame when one byte of the first has been sent. -/
def alternating : List SendEvent :=
  [.asyncWrite 0 [], .asyncWrite 0 [], .sent 0 1, .sent 1 21, .sent 0 20]

/-- The stream is not made of whole frames, and the server takes four bytes from the middle
of them for a length. And the length in front of a packet of 2^32 bytes is not its length. -/
theorem wholeFrames_fails :
    (∃ w os, Completes Writes.step {} (alternating.map (SendEvent.toWrite .little)) w os ∧
      (∀ op ∈ w.ops, op.left = []) ∧ ¬ WholeFrames .little alternating w.stream ∧
      (ReadChain.drive (AsioTcpClientSession.doRead .little) 1 {}
        { segments := [w.stream], ending := .eof }).1 = [.bodyStarted 4369]) ∧
    ∃ buffer, (get32 .little ((frame .little (BoostTcpConnection.packet 0 buffer)).take 4)).toNat ≠
      ((BoostTcpConnection.packet 0 buffer).serialize .little).length := by
  have hstream : ∀ bytes : List UInt8, bytes ≠ (List.replicate 2 (frame .little
      (BoostTcpConnection.packet 0 []))).flatten → ¬ WholeFrames .little alternating bytes := by
    rintro bytes hne ⟨pkts, hperm, heq⟩
    rw [show packetsOf alternating = List.replicate 2 (BoostTcpConnection.packet 0 []) from rfl,
      List.perm_replicate] at hperm
    rw [hperm, List.map_replicate] at heq
    exact hne heq
  obtain ⟨buffer, hbuffer⟩ : ∃ buffer : List UInt8, buffer.length = 2 ^ 32 :=
    ⟨List.replicate (2 ^ 32) 0, List.length_replicate⟩
  refine ⟨⟨_, _, rfl, by decide, hstream _ (by decide), rfl⟩, buffer, ?_⟩
  refine size_ne_of_le .little ?_
  rw [Packet.serialize_length, BoostTcpConnection.packet, hbuffer]
  exact Nat.le_add_left ..

/-- The second call is made when the first frame has been sent, in two parts. -/
def inTurn : List SendEvent :=
  [.asyncWrite 0 [], .sent 0 1, .sent 0 20, .asyncWrite 0 [], .sent 1 21]

theorem eachStep_inTurn :
    EachStep Writes.step {} (inTurn.map (SendEvent.toWrite .little)) Writes.Alone := by
  refine (eachStep_cons_iff rfl _ _).mpr ⟨trivial, ?_⟩
  refine (eachStep_cons_iff rfl _ _).mpr ⟨Writes.alone_of_singleton rfl 1, ?_⟩
  refine (eachStep_cons_iff rfl _ _).mpr ⟨Writes.alone_of_singleton rfl 20, ?_⟩
  refine (eachStep_cons_iff rfl _ _).mpr ⟨trivial, ?_⟩
  refine (eachStep_cons_iff rfl _ _).mpr ⟨?_, eachStep_nil _ _ _⟩
  rintro (_ | _ | j) op hj hop
  · rw [← Option.some.inj hop]
    exact .inr rfl
  · exact absurd rfl hj
  · exact nomatch hop

theorem frames_of_completes_inTurn : ∃ (w : Writes UInt8) (pkts : List Packet),
    pkts.Perm (packetsOf inTurn) ∧ w.stream = (pkts.map (frame .little)).flatten ∧
      Aligned .little w.stream pkts := by
  obtain ⟨-, -, hserial⟩ := frames_of_completes .little inTurn _ _ rfl
  obtain ⟨pkts, hperm, -, hall⟩ := hserial eachStep_inTurn
  obtain ⟨hstream, haligned⟩ := hall (by decide)
  refine ⟨_, pkts, hperm, hstream, haligned fun pkt hpkt => ?_⟩
  have hin : pkt ∈ List.replicate 2 (BoostTcpConnection.packet 0 []) := hperm.mem_iff.mp hpkt
  rw [List.eq_of_mem_replicate hin]
  decide

end P2PWatcher
