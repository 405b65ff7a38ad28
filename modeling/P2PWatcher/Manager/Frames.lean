import P2PWatcher.Manager.Parts
import P2PWatcher.Tcp.Ending
import P2PWatcher.Tcp.Writes

/-!
# The frames of a stream

A stream is cut into frames by the lengths in it (`bodies`). Whatever else the server process
does, each session hands on the bodies of the frames of its own connection, in order and
unchanged, and when it has stopped it has handed on all of them (`session_handsOn`). A client
whose writes send one frame after the other sends a stream that is cut into its packets
(`bodies_frames`). So the server hands on these packets, each once and unchanged, up to the one
in which the connection breaks (`written_handsOn`).
-/

namespace P2PWatcher

open Memory Machine Sequence

/-- The bodies of the frames that are whole. -/
def bodies (e : Endian) (bytes : List UInt8) : List (List UInt8) :=
  if 4 ≤ bytes.length then
    let n := (get32 e (bytes.take 4)).toNat
    if n ≤ (bytes.drop 4).length then
      (bytes.drop 4).take n :: bodies e ((bytes.drop 4).drop n)
    else []
  else []
termination_by bytes.length
decreasing_by
  rw [List.length_drop, List.length_drop]
  omega

/-- A body of `n` bytes, and those of the frames behind it. -/
def bodiesFrom (e : Endian) (n : ℕ) (bytes : List UInt8) : List (List UInt8) :=
  if n ≤ bytes.length then bytes.take n :: bodies e (bytes.drop n) else []

theorem bodies_of_lt (e : Endian) {bytes : List UInt8} (h : bytes.length < 4) :
    bodies e bytes = [] := by
  rw [bodies, if_neg (Nat.not_le.mpr h)]

theorem bodies_of_le (e : Endian) {bytes : List UInt8} (h : 4 ≤ bytes.length) :
    bodies e bytes = bodiesFrom e (get32 e (bytes.take 4)).toNat (bytes.drop 4) := by
  rw [bodies, if_pos h, bodiesFrom]

/-- One frame at the front. -/
theorem bodies_frame (e : Endian) {body : List UInt8} (h : body.length < 2 ^ 32)
    (rest : List UInt8) :
    bodies e (put32 e (UInt32.ofNat body.length) ++ body ++ rest) = body :: bodies e rest := by
  have hlen : (put32 e (UInt32.ofNat body.length)).length = 4 := put32_length ..
  have hsize : (UInt32.ofNat body.length).toNat = body.length := UInt32.toNat_ofNat_of_lt' h
  rw [List.append_assoc, bodies_of_le e (by rw [List.length_append, hlen]; omega),
    List.take_left' hlen, List.drop_left' hlen, get32_put32, hsize, bodiesFrom,
    if_pos (by rw [List.length_append]; omega), List.take_left, List.drop_left]

theorem bodies_frames (e : Endian) {pkts : List Packet}
    (h : ∀ pkt ∈ pkts, (pkt.serialize e).length < 2 ^ 32) :
    bodies e (pkts.map (frame e)).flatten = pkts.map fun pkt => pkt.serialize e := by
  induction pkts with
  | nil => exact bodies_of_lt e (Nat.succ_pos 3)
  | cons pkt pkts ih =>
      obtain ⟨hpkt, hpkts⟩ := List.forall_mem_cons.mp h
      rw [List.map_cons, List.flatten_cons, frame, bodies_frame e hpkt, ih hpkts, List.map_cons]

/-- More of a stream has no other frames, only more of them. -/
theorem bodies_prefix (e : Endian) {xs ys : List UInt8} (h : xs <+: ys) :
    bodies e xs <+: bodies e ys := by
  obtain ⟨zs, rfl⟩ := h
  fun_induction bodies e xs with
  | case1 xs hlen n hn ih =>
      -- the first frame is the same, and the rest is longer
      have hmore : bodies e (xs ++ zs) =
          (xs.drop 4).take n :: bodies e ((xs.drop 4).drop n ++ zs) := by
        rw [bodies_of_le e (by rw [List.length_append]; omega), bodiesFrom,
          List.take_append_of_le_length hlen, List.drop_append_of_le_length hlen,
          if_pos (by rw [List.length_append]; omega), List.take_append_of_le_length hn,
          List.drop_append_of_le_length hn]
      rw [hmore]
      exact List.cons_prefix_cons.mpr ⟨rfl, ih⟩
  | case2 => exact List.nil_prefix
  | case3 => exact List.nil_prefix

namespace ReadChain

/-- The bodies that the loop has before it. -/
def ahead (e : Endian) (s : ReadChain) (conn : Conn) : List (List UInt8) :=
  match s.phase with
  | .length => bodies e conn.bytes
  | .body => bodiesFrom e s.buffer.length conn.bytes
  | .stopped => []

/-- A successful read hands on the next body, or goes on to it. -/
theorem ahead_read {e : Endian} {s s' : ReadChain} {conn : Conn} {n : ℕ} {ev : ReadEvent}
    (hn : s.pending = some n) (hec : (conn.read n).1.ec = none)
    (h : AsioTcpClientSession.doRead e s (conn.read n).1 = .ok (s', ev)) :
    ahead e s conn = ev.processed?.toList ++ ahead e s' (conn.read n).2 := by
  have hle : n ≤ conn.bytes.length := by
    by_contra hlt
    rw [Conn.read_ec, if_neg hlt] at hec
    exact nomatch hec
  rcases step_cases h with hcase | hcase | hcase | hcase
  · rw [hcase.ec] at hec
    exact nomatch hec
  · rw [pending, hcase.phase] at hn
    obtain rfl := Option.some.inj hn
    have hlen : (conn.read 4).1.data.length = (put32 e s.size).length := by
      rw [put32_length]
      exact hcase.valid.2.mp hec
    have hsize : s'.size = get32 e (conn.bytes.take 4) := by
      rw [hcase.size, overlay_of_length_eq hlen, Conn.read_data]
    rw [ahead, ahead, hcase.phase, hcase.phase', hcase.event]
    simp only
    rw [bodies_of_le e hle, Conn.read_bytes, hcase.length, hsize]
    rfl
  · exact absurd hec hcase.ec
  · rw [pending, hcase.phase] at hn
    obtain rfl := Option.some.inj hn
    rw [ahead, ahead, hcase.phase, hcase.phase', hcase.event]
    simp only
    rw [bodiesFrom, if_pos hle, Conn.read_bytes, Conn.read_data]
    rfl

/-- A read that fails at the end of the stream has no whole frame before it. -/
theorem ahead_of_lt {e : Endian} {s : ReadChain} {conn : Conn} {n : ℕ}
    (hn : s.pending = some n) (hlt : conn.bytes.length < n) : ahead e s conn = [] := by
  cases hphase : s.phase with
  | length =>
      rw [pending, hphase] at hn
      obtain rfl := Option.some.inj hn
      rw [ahead, hphase]
      exact bodies_of_lt e hlt
  | body =>
      rw [pending, hphase] at hn
      obtain rfl := Option.some.inj hn
      rw [ahead, hphase]
      exact if_neg (Nat.not_le.mpr hlt)
  | stopped => rw [ahead, hphase]

/-- A body is not handed on when no more bytes arrive. -/
theorem processed_of_body {e : Endian} {s s' : ReadChain} {cs : List Completion}
    {evs : List ReadEvent} (h : Completes (AsioTcpClientSession.doRead e) s cs s' evs)
    (hs : s.phase = .body) (hdata : ∀ c ∈ cs, c.data = []) (hprocess : .process [] ∉ evs) :
    evs.filterMap ReadEvent.processed? = [] := by
  cases cs with
  | nil =>
      obtain ⟨-, rfl⟩ := (completes_nil_iff _ _ _ _).mp h
      rfl
  | cons c cs =>
      obtain ⟨s₁, ev, evs', hstep, hrun, rfl⟩ := (completes_cons_iff _ _ _ _ _ _).mp h
      rcases step_cases hstep with hcase | hcase | hcase | hcase
      · exact absurd (hs.symm.trans hcase.phase) (by decide)
      · exact absurd (hs.symm.trans hcase.phase) (by decide)
      · obtain ⟨-, -, rfl⟩ := completes_of_stopped hcase.phase' hrun
        rw [hcase.event]
        rfl
      · rw [hcase.event, hdata c List.mem_cons_self] at hprocess
        exact absurd List.mem_cons_self hprocess

/-- What has been handed on, and what is still to come. -/
theorem exists_rest_of_feeds {e : Endian} {s s' : ReadChain} {conn : Conn}
    {cs : List Completion} (hfeeds : Feeds e s conn cs) {evs : List ReadEvent}
    (h : Completes (AsioTcpClientSession.doRead e) s cs s' evs) (hprocess : .process [] ∉ evs) :
    ∃ rest, ahead e s conn = evs.filterMap ReadEvent.processed? ++ rest ∧
      (s'.phase = .stopped → rest = []) := by
  induction hfeeds generalizing evs with
  | nil s conn =>
      obtain ⟨rfl, rfl⟩ := (completes_nil_iff _ _ _ _).mp h
      exact ⟨_, rfl, fun hs => by simp only [hs]⟩
  | @read s s₁ conn n ev cs hn hec hstep hrest ih =>
      obtain ⟨evs', hrun, rfl⟩ := completes_of_cons hstep h
      obtain ⟨rest, hahead, hstop⟩ := ih hrun fun hmem => hprocess (List.mem_cons_of_mem _ hmem)
      refine ⟨rest, ?_, hstop⟩
      rw [ahead_read hn hec hstep, hahead, List.filterMap_cons, ← List.append_assoc]
      cases ev.processed? <;> rfl
  | @ends s conn n cs hn hec hrest =>
      obtain ⟨s₁, ev, evs', hstep, hrun, rfl⟩ := (completes_cons_iff _ _ _ _ _ _).mp h
      have hlt : conn.bytes.length < n := by
        by_contra hle
        rw [Conn.read_ec, if_pos (Nat.not_lt.mp hle)] at hec
        exact hec rfl
      refine ⟨[], ?_, fun _ => rfl⟩
      rw [ahead_of_lt hn hlt, List.append_nil]
      rcases step_cases hstep with hcase | hcase | hcase | hcase
      · obtain ⟨-, -, rfl⟩ := completes_of_stopped hcase.phase' hrun
        rw [hcase.event]
        rfl
      · -- after another error than the end, a body is read that does not come
        have hnone := processed_of_body hrun hcase.phase' hrest
          fun hmem => hprocess (List.mem_cons_of_mem _ hmem)
        rw [hcase.event]
        exact hnone.symm
      · obtain ⟨-, -, rfl⟩ := completes_of_stopped hcase.phase' hrun
        rw [hcase.event]
        rfl
      · exact absurd hcase.ec hec

end ReadChain

namespace Manager

/-- What a run does to the sessions. -/
def sessionEvents (events : List ManagerEvent) (os : List ManagerOutput) : List ServerEvent :=
  (Machine.views serverView events os).map Prod.fst

/-- What the sessions do in a run. -/
def sessionOutputs (events : List ManagerEvent) (os : List ManagerOutput) : List ServerOutput :=
  (Machine.views serverView events os).map Prod.snd

/-- What a session hands on in a run. -/
def handedOn (ref : ℕ) (events : List ManagerEvent) (os : List ManagerOutput) :
    List (List UInt8) :=
  (readEventsOf ref (sessionOutputs events os)).filterMap ReadEvent.processed?

theorem exists_rest_of_completes {asio : Asio} {e : Endian} {events : List ManagerEvent}
    {s : Manager} {os : List ManagerOutput} (h : Completes (step asio e) start events s os)
    {ref : ℕ} {conn : Conn}
    (hfeeds : ReadChain.Feeds e {} conn (readsOf ref (sessionEvents events os))) :
    ∃ rest, bodies e conn.bytes = handedOn ref events os ++ rest ∧
      ((s.server.chainOf ref).phase = .stopped → rest = []) := by
  have hserver : Completes (Server.step e) {} (sessionEvents events os) s.server
      (sessionOutputs events os) := (refines_server asio e).completes h
  exact ReadChain.exists_rest_of_feeds hfeeds (Server.completes_chainOf hserver ref)
    (Server.process_nil_notMem hserver ref)

/-- The packets that a session hands on are the whole frames of its connection, in order, and
none is missing when it has stopped. -/
theorem session_handsOn (asio : Asio) (e : Endian) {events : List ManagerEvent} {s : Manager}
    {os : List ManagerOutput} (h : Completes (step asio e) start events s os) (ref : ℕ)
    {conn : Conn}
    (hfeeds : ReadChain.Feeds e {} conn (readsOf ref (sessionEvents events os))) :
    handedOn ref events os <+: bodies e conn.bytes ∧
      ((s.server.chainOf ref).phase = .stopped →
        handedOn ref events os = bodies e conn.bytes) := by
  obtain ⟨rest, hbodies, hstop⟩ := exists_rest_of_completes h hfeeds
  refine ⟨⟨rest, hbodies.symm⟩, fun hstopped => ?_⟩
  rw [hbodies, hstop hstopped, List.append_nil]

/-- One frame of a type that has no case, in two segments. -/
def oneFrame : Conn where
  segments := [[17], (frame .little (BoostTcpConnection.packet 7 [])).drop 1]
  ending := .eof

/-- Two clients are accepted; the first one sends the frame and closes the connection, with an
end of the other connection and a time in between. -/
def oneFrameEvents : List ManagerEvent :=
  [.acceptCompleted 0 none, .acceptHandled 0 (.ok localClient), .acceptCompleted 0 none,
    .acceptHandled 0 (.ok localClient), .read 0 (oneFrame.read 4).1,
    .read 1 { data := [], ec := some .eof }, .read 0 ((oneFrame.read 4).2.read 17).1, .expired 0,
    .timerHandled 0 5 [⟨0, localClient⟩], .read 0 (((oneFrame.read 4).2.read 17).2.read 4).1]

theorem completes_oneFrame : ∃ s os, Completes (step .loopback .little) start oneFrameEvents s os ∧
    ReadChain.Feeds .little {} oneFrame (readsOf 0 (sessionEvents oneFrameEvents os)) ∧
      (s.server.chainOf 0).phase = .stopped := by
  obtain ⟨s, os, h, hreads, hstop⟩ : ∃ s os,
      Completes (step .loopback .little) start oneFrameEvents s os ∧
      readsOf 0 (sessionEvents oneFrameEvents os) = [(oneFrame.read 4).1,
        ((oneFrame.read 4).2.read 17).1, (((oneFrame.read 4).2.read 17).2.read 4).1] ∧
      (s.server.chainOf 0).phase = .stopped := ⟨_, _, rfl, rfl, rfl⟩
  refine ⟨s, os, h, ?_, hstop⟩
  rw [hreads]
  exact .read rfl rfl rfl (.read rfl rfl rfl (.ends rfl (by decide) nofun))

theorem session_handsOn_oneFrame : ∃ s os,
    Completes (step .loopback .little) start oneFrameEvents s os ∧
      handedOn 0 oneFrameEvents os = bodies .little oneFrame.bytes ∧
      bodies .little oneFrame.bytes = [(BoostTcpConnection.packet 7 []).serialize .little] := by
  obtain ⟨s, os, h, hfeeds, hstop⟩ := completes_oneFrame
  have hsizes : ∀ pkt ∈ [BoostTcpConnection.packet 7 []],
      (pkt.serialize .little).length < 2 ^ 32 := by decide
  exact ⟨s, os, h, (session_handsOn .loopback .little h 0 hfeeds).2 hstop,
    bodies_frames .little hsizes⟩

/-- In every run of the server, a session whose connection carries what a client's writes have
sent, however it is cut into segments and wherever it breaks: if no write sends while another
one is in the middle of its frame, the session hands on packets of the client's calls, each
once and unchanged, in the order in which they are on the stream, and all of them if all has
been sent and has come. -/
theorem written_handsOn (asio : Asio) (e : Endian) {calls : List SendEvent} {w : Writes UInt8}
    {us : List Unit}
    (hw : Completes Writes.step {} (calls.map (SendEvent.toWrite e)) w us)
    (halone : EachStep Writes.step {} (calls.map (SendEvent.toWrite e)) Writes.Alone)
    (hsizes : ∀ pkt ∈ packetsOf calls, (pkt.serialize e).length < 2 ^ 32)
    {events : List ManagerEvent} {s : Manager} {os : List ManagerOutput}
    (h : Completes (step asio e) start events s os) (ref : ℕ) {conn : Conn}
    (hconn : conn.bytes <+: w.stream)
    (hfeeds : ReadChain.Feeds e {} conn (readsOf ref (sessionEvents events os))) :
    ∃ pkts : List Packet, pkts.Perm (packetsOf calls) ∧
      w.stream <+: (pkts.map (frame e)).flatten ∧
      handedOn ref events os <+: pkts.map (fun pkt => pkt.serialize e) ∧
      ((∀ op ∈ w.ops, op.left = []) → conn.bytes = w.stream →
        (s.server.chainOf ref).phase = .stopped →
          handedOn ref events os = pkts.map fun pkt => pkt.serialize e) := by
  have hserial := Writes.serial_throughout halone _ [] (List.append_nil _).symm w us hw
  obtain ⟨frames, hperm, hstream, hall⟩ := hserial.exists_perm
  rw [Writes.whole_of_completes hw, started_map_toWrite] at hperm
  obtain ⟨pkts, hpkts, rfl⟩ := exists_perm_of_perm_map hperm
  have hbodies := bodies_frames e fun pkt hpkt => hsizes pkt (hpkts.mem_iff.mp hpkt)
  obtain ⟨rest, hrest, hstop⟩ := exists_rest_of_completes h hfeeds
  refine ⟨pkts, hpkts, hstream, ?_, fun hleft hcomplete hstopped => ?_⟩
  · rw [← hbodies]
    exact (List.prefix_append _ rest).trans
      (hrest ▸ bodies_prefix e (hconn.trans hstream))
  · rw [← hbodies, ← hall hleft, ← hcomplete, hrest, hstop hstopped, List.append_nil]

/-- The call that writes the frame, and how it is sent. -/
def oneFrameCalls : List SendEvent := [.asyncWrite 7 [], .sent 0 1, .sent 0 20]

theorem written_handsOn_oneFrame : ∃ s os,
    Completes (step .loopback .little) start oneFrameEvents s os ∧
      handedOn 0 oneFrameEvents os = [(BoostTcpConnection.packet 7 []).serialize .little] := by
  obtain ⟨w, us, hw, hleft, hstream⟩ : ∃ w us,
      Completes Writes.step {} (oneFrameCalls.map (SendEvent.toWrite .little)) w us ∧
        (∀ op ∈ w.ops, op.left = []) ∧ oneFrame.bytes = w.stream :=
    ⟨_, _, rfl, by decide, rfl⟩
  obtain ⟨s, os, h, hreads, hstop⟩ := completes_oneFrame
  have halone : EachStep Writes.step {} (oneFrameCalls.map (SendEvent.toWrite .little))
      Writes.Alone := by
    refine (eachStep_cons_iff rfl _ _).mpr ⟨trivial, ?_⟩
    refine (eachStep_cons_iff rfl _ _).mpr ⟨Writes.alone_of_singleton rfl 1, ?_⟩
    exact (eachStep_cons_iff rfl _ _).mpr ⟨Writes.alone_of_singleton rfl 20, eachStep_nil _ _ _⟩
  obtain ⟨pkts, hpkts, -, -, hall⟩ := written_handsOn .loopback .little hw halone (by decide) h 0
    (hstream ▸ List.prefix_rfl) hreads
  refine ⟨s, os, h, ?_⟩
  rw [hall hleft hstream hstop, List.perm_singleton.mp hpkts]
  rfl

end Manager

end P2PWatcher
