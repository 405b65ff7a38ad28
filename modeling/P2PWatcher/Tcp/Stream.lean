import P2PWatcher.Tcp.Session
import P2PWatcher.Tcp.Dispatch
import P2PWatcher.Sequence.Segment

/-!
# A stream of frames

Both programs send a frame over TCP as its length in the byte order of the host and
then the serialised packet. `Conn` is what arrives: the segments, and the error
that every read behind them gets. `drive` lets the read loop run on it, each
completion being the one that the connection gives to the pending read. However the
frames were cut into segments, the loop hands every packet to the handler and then
emits `signal_deleting` (`drive_frames`).
-/

namespace P2PWatcher

open Memory Sequence

/-! ## The two encoders -/

/-- The buffers of the `async_write`: the length, then the packet. -/
def frame (e : Endian) (pkt : Packet) : List UInt8 :=
  put32 e (UInt32.ofNat (pkt.serialize e).length) ++ pkt.serialize e

/-- The packet that the client's `asyncWrite` fills in. -/
def BoostTcpConnection.packet (dataType : UInt16) (buffer : List UInt8) : Packet where
  header := {
    serverHash := Constants.serverHash
    totalDataSize := UInt32.ofNat buffer.length
    totalCntPackets := 1
    curPacketNumber := 1
    curPacketSize := UInt16.ofNat (buffer.length + 2 + PacketHeader.size)
    isFirst := 1
    isLast := 1
    isCompressed := 0 }
  dType := dataType
  buffer

/-- The client's `asyncWrite`: what is written, if the socket is open. -/
def BoostTcpConnection.asyncWrite (e : Endian) (isOpen : Bool) (dataType : UInt16)
    (buffer : List UInt8) : Option (List UInt8) :=
  if isOpen then some (frame e (BoostTcpConnection.packet dataType buffer)) else none

/-- The packet that the server's `doSend` fills in. It leaves the number at 0. -/
def AsioTcpClientSession.packet (dtype : UInt16) (buffer : List UInt8) : Packet where
  header := {
    serverHash := Constants.serverHash
    totalCntPackets := 1
    totalDataSize := UInt32.ofNat buffer.length
    curPacketSize := UInt16.ofNat (buffer.length + PacketHeader.size + 2)
    isFirst := 1
    isLast := 1
    isCompressed := 0 }
  dType := dtype
  buffer

/-- The server's `doSend`: what is written, if the socket is open. -/
def AsioTcpClientSession.doSend (e : Endian) (isOpen : Bool) (dtype : UInt16)
    (buffer : List UInt8) : Option (List UInt8) :=
  if isOpen then some (frame e (AsioTcpClientSession.packet dtype buffer)) else none

/-! ## The connection -/

/-- What arrives on a connection: segments, and then an error. -/
structure Conn where
  segments : List (List UInt8)
  ending : ErrorCode

namespace Conn

/-- The bytes that arrive. -/
def bytes (conn : Conn) : List UInt8 := conn.segments.flatten

/-- A read of `n` bytes: how it completes, and what is left. -/
def read (n : ℕ) (conn : Conn) : Completion × Conn :=
  let data := (pull n conn.segments).1
  ({ data, ec := if data.length = n then none else some conn.ending },
    { conn with segments := (pull n conn.segments).2 })

theorem read_data (n : ℕ) (conn : Conn) : (conn.read n).1.data = conn.bytes.take n :=
  pull_fst n conn.segments

theorem read_bytes (n : ℕ) (conn : Conn) : (conn.read n).2.bytes = conn.bytes.drop n :=
  pull_snd_flatten n conn.segments

theorem read_ending (n : ℕ) (conn : Conn) : (conn.read n).2.ending = conn.ending := rfl

theorem read_ec (n : ℕ) (conn : Conn) :
    (conn.read n).1.ec = if n ≤ conn.bytes.length then none else some conn.ending := by
  have hlen : (pull n conn.segments).1.length = n ↔ n ≤ conn.bytes.length := by
    rw [pull_fst, List.length_take]
    exact min_eq_left_iff
  simp only [read, hlen]

theorem read_valid (n : ℕ) (conn : Conn) : (conn.read n).1.Valid n := by
  rw [Completion.Valid, read_data, read_ec, List.length_take]
  refine ⟨Nat.min_le_left .., ?_⟩
  split
  · next h => simp [h]
  · next h => simp [h]

/-- A read of what arrives first. -/
theorem read_of_bytes {conn : Conn} {xs rest : List UInt8} (h : conn.bytes = xs ++ rest) :
    (conn.read xs.length).1 = { data := xs, ec := none } ∧
      (conn.read xs.length).2.bytes = rest := by
  have hle : xs.length ≤ conn.bytes.length := by
    rw [h, List.length_append]
    exact Nat.le_add_right ..
  constructor
  · have hdata := conn.read_data xs.length
    have hec := conn.read_ec xs.length
    rw [h, List.take_left] at hdata
    rw [if_pos hle] at hec
    generalize (conn.read xs.length).1 = c at hdata hec
    obtain ⟨_, _⟩ := c
    rw [← hdata, ← hec]
  · rw [read_bytes, h, List.drop_left]

end Conn

/-! ## The closed loop -/

namespace ReadChain

/-- The loop runs on the connection, for `fuel` completions or until it stops. -/
def drive (step : ReadChain → Completion → Except Refusal (ReadChain × ReadEvent)) :
    ℕ → ReadChain → Conn → List ReadEvent × ReadChain × Conn
  | 0, s, conn => ([], s, conn)
  | fuel + 1, s, conn =>
      match s.pending with
      | none => ([], s, conn)
      | some n =>
          match step s (conn.read n).1 with
          | .error _ => ([], s, conn)
          | .ok (s', ev) =>
              (ev :: (drive step fuel s' (conn.read n).2).1,
                (drive step fuel s' (conn.read n).2).2)

/-- A length read that gets its four bytes. -/
theorem step_length_of_none (atEof : ReadEvent) (e : Endian) {s : ReadChain}
    (hs : s.phase = .length) {c : Completion} (hvalid : c.Valid 4) (hec : c.ec = none) :
    step atEof e s c = .ok ({ size := get32 e c.data
                              buffer := resize 0 s.buffer (get32 e c.data).toNat
                              phase := .body }, .bodyStarted (get32 e c.data).toNat) := by
  have hlen : c.data.length = (put32 e s.size).length := by
    rw [put32_length]
    exact hvalid.2.mp hec
  have hne : c.ec ≠ some .eof := by
    rw [hec]
    exact Option.some_ne_none _ |>.symm
  rw [step]
  simp only [hs, if_pos hvalid, overlay_of_length_eq hlen, if_neg hne]

theorem step_length_of_eof (atEof : ReadEvent) (e : Endian) {s : ReadChain}
    (hs : s.phase = .length) {c : Completion} (hvalid : c.Valid 4) (hec : c.ec = some .eof) :
    ∃ s', step atEof e s c = .ok (s', atEof) ∧ s'.phase = .stopped := by
  rw [step]
  simp only [hs, if_pos hvalid, if_pos hec]
  exact ⟨_, rfl, rfl⟩

theorem step_body_of_none (atEof : ReadEvent) (e : Endian) {s : ReadChain}
    (hs : s.phase = .body) {c : Completion} (hvalid : c.Valid s.buffer.length)
    (hec : c.ec = none) :
    step atEof e s c =
      .ok ({ s with buffer := c.data, phase := .length }, .process c.data) := by
  have hlen := hvalid.2.mp hec
  rw [step]
  simp only [hs, if_pos hvalid, overlay_of_length_eq hlen, hec, Option.isSome_none,
    Bool.false_eq_true, if_false]

theorem drive_of_stopped
    (step : ReadChain → Completion → Except Refusal (ReadChain × ReadEvent)) (fuel : ℕ)
    {s : ReadChain} (hs : s.phase = .stopped) (conn : Conn) :
    drive step fuel s conn = ([], s, conn) := by
  cases fuel with
  | zero => rfl
  | succ fuel =>
      rw [drive, pending, hs]

theorem drive_succ_of_ok
    {step : ReadChain → Completion → Except Refusal (ReadChain × ReadEvent)} {s s' : ReadChain}
    {conn : Conn} {n : ℕ} (hn : s.pending = some n) {ev : ReadEvent}
    (h : step s (conn.read n).1 = .ok (s', ev)) (fuel : ℕ) :
    drive step (fuel + 1) s conn = (ev :: (drive step fuel s' (conn.read n).2).1,
      (drive step fuel s' (conn.read n).2).2) := by
  rw [drive, hn]
  simp only [h]

/-- One frame at the front of the stream. -/
theorem drive_frame (atEof : ReadEvent) (e : Endian) {s : ReadChain} (hs : s.phase = .length)
    {conn : Conn} {body rest : List UInt8} (hbody : body.length < 2 ^ 32)
    (hbytes : conn.bytes = put32 e (UInt32.ofNat body.length) ++ (body ++ rest)) :
    ∃ (s' : ReadChain) (conn' : Conn), s'.phase = .length ∧ conn'.bytes = rest ∧
      conn'.ending = conn.ending ∧ ∀ fuel, drive (step atEof e) (fuel + 2) s conn =
        (.bodyStarted body.length :: .process body :: (drive (step atEof e) fuel s' conn').1,
          (drive (step atEof e) fuel s' conn').2) := by
  obtain ⟨hlength, hrest⟩ := Conn.read_of_bytes hbytes
  obtain ⟨hread, hrest'⟩ := Conn.read_of_bytes hrest
  rw [put32_length] at hlength hread hrest'
  have hsize : get32 e (conn.read 4).1.data = UInt32.ofNat body.length := by
    rw [hlength, get32_put32]
  have hnat : (UInt32.ofNat body.length).toNat = body.length :=
    UInt32.toNat_ofNat_of_lt' hbody
  have hfirst := step_length_of_none atEof e hs (conn.read_valid 4) (by rw [hlength])
  rw [hsize, hnat] at hfirst
  let s₁ : ReadChain := {
    size := UInt32.ofNat body.length, buffer := resize 0 s.buffer body.length, phase := .body }
  have hbuffer : s₁.buffer.length = body.length := resize_length ..
  have hpending : s₁.pending = some body.length := congrArg some hbuffer
  have hvalid : ((conn.read 4).2.read body.length).1.Valid s₁.buffer.length := by
    rw [hbuffer]
    exact Conn.read_valid ..
  have hsecond := step_body_of_none atEof e (s := s₁) rfl hvalid (by rw [hread])
  have hdata : ((conn.read 4).2.read body.length).1.data = body := by rw [hread]
  rw [hdata] at hsecond
  refine ⟨{ s₁ with buffer := body, phase := .length },
    ((conn.read 4).2.read body.length).2, rfl, hrest', rfl, fun fuel => ?_⟩
  rw [drive_succ_of_ok (by rw [pending, hs]) hfirst,
    drive_succ_of_ok hpending hsecond]

/-- The end of the stream at a frame boundary. -/
theorem drive_eof (atEof : ReadEvent) (e : Endian) {s : ReadChain} (hs : s.phase = .length)
    {conn : Conn} (hbytes : conn.bytes = []) (heof : conn.ending = .eof) (fuel : ℕ) :
    ∃ s' conn', s'.phase = .stopped ∧
      drive (step atEof e) (fuel + 1) s conn = ([atEof], s', conn') := by
  have hec : (conn.read 4).1.ec = some .eof := by
    rw [Conn.read_ec, hbytes, if_neg (by simp), heof]
  obtain ⟨s', hstep, hs'⟩ := step_length_of_eof atEof e hs (conn.read_valid 4) hec
  refine ⟨s', (conn.read 4).2, hs', ?_⟩
  rw [drive_succ_of_ok (by rw [pending, hs]) hstep, drive_of_stopped _ _ hs']

/-- The events of a stream of frames with the packets `bodies`. -/
def frameEvents (bodies : List (List UInt8)) : List ReadEvent :=
  bodies.flatMap fun body => [.bodyStarted body.length, .process body]

/-- A stream of frames and then its end. -/
theorem drive_frames (atEof : ReadEvent) (e : Endian) {bodies : List (List UInt8)}
    (hbodies : ∀ body ∈ bodies, body.length < 2 ^ 32) {s : ReadChain} (hs : s.phase = .length)
    {conn : Conn} (heof : conn.ending = .eof)
    (hbytes : conn.bytes =
      (bodies.map fun body => put32 e (UInt32.ofNat body.length) ++ body).flatten)
    {fuel : ℕ} (hfuel : 2 * bodies.length + 1 ≤ fuel) :
    ∃ s' conn', s'.phase = .stopped ∧
      drive (step atEof e) fuel s conn = (frameEvents bodies ++ [atEof], s', conn') := by
  induction bodies generalizing s conn fuel with
  | nil =>
      obtain ⟨fuel, rfl⟩ : ∃ k, fuel = k + 1 := ⟨fuel - 1, by simp at hfuel; omega⟩
      exact drive_eof atEof e hs hbytes heof fuel
  | cons body bodies ih =>
      obtain ⟨hbody, hbodies⟩ := List.forall_mem_cons.mp hbodies
      rw [List.map_cons, List.flatten_cons, List.append_assoc] at hbytes
      obtain ⟨s₁, conn₁, hs₁, hbytes₁, hending₁, hdrive⟩ := drive_frame atEof e hs hbody hbytes
      rw [List.length_cons] at hfuel
      obtain ⟨fuel, rfl⟩ : ∃ k, fuel = k + 2 := ⟨fuel - 2, by omega⟩
      obtain ⟨s', conn', hs', hrest⟩ :=
        ih hbodies hs₁ (hending₁.trans heof) hbytes₁ (show 2 * bodies.length + 1 ≤ fuel by omega)
      refine ⟨s', conn', hs', ?_⟩
      rw [hdrive, hrest]
      rfl

end ReadChain

/-! ## Structures over TCP -/

/-- The buffer that was handed to the packet handler, if one was. -/
def ReadEvent.processed? : ReadEvent → Option (List UInt8)
  | .process buffer => some buffer
  | _ => none

theorem filterMap_frameEvents (bodies : List (List UInt8)) :
    (ReadChain.frameEvents bodies).filterMap ReadEvent.processed? = bodies := by
  induction bodies with
  | nil => rfl
  | cons body bodies ih =>
      rw [ReadChain.frameEvents, List.flatMap_cons, List.filterMap_append]
      exact congrArg (body :: ·) ih

theorem deleting_notMem_frameEvents (bodies : List (List UInt8)) :
    ReadEvent.deleting ∉ ReadChain.frameEvents bodies := by
  intro h
  obtain ⟨body, -, hbody⟩ := List.mem_flatMap.mp h
  simp at hbody

/-- The server accepts the packet of a structure and decodes the structure. -/
theorem processPacket_testStruct (e : Endian) (v : TcpData.TestStruct)
    (h : ((BoostTcpConnection.packet TcpData.DataTypes.testStruct (v.serilize e)).serialize
      e).length < 2 ^ 32) :
    AsioTcpManager.processPacket e
        ((BoostTcpConnection.packet TcpData.DataTypes.testStruct (v.serilize e)).serialize e) =
      .ok (.testStruct v) := by
  rw [Packet.serialize_length] at h
  have hlen : (v.serilize e).length < 2 ^ 32 := lt_of_le_of_lt (Nat.le_add_left _ _) h
  have hdecode : TcpData.TestStruct.deserialize 32 e (v.serilize e) = .ok v :=
    (TcpData.TestStruct.deserialize_eq_ok_iff 32 (le_refl 32) e _ hlen v).mpr
      ⟨[], (List.append_nil _).symm⟩
  rw [AsioTcpManager.processPacket, processFrame_serialize _ e _ ⟨rfl, rfl, rfl⟩]
  exact congrArg (TcpEffect.testStruct <$> ·) hdecode

/-- A client sends structures and closes the connection. However the stream was cut, the
server hands every packet on, in order, decodes what was sent, and emits
`signal_deleting` once, at the end. -/
theorem doRead_testStructs (e : Endian) (vs : List TcpData.TestStruct)
    (hvs : ∀ v ∈ vs, ((BoostTcpConnection.packet TcpData.DataTypes.testStruct
      (v.serilize e)).serialize e).length < 2 ^ 32)
    (segments : List (List UInt8))
    (hsegments : segments.flatten = (vs.filterMap fun v => BoostTcpConnection.asyncWrite e true
      TcpData.DataTypes.testStruct (v.serilize e)).flatten)
    (fuel : ℕ) (hfuel : 2 * vs.length + 1 ≤ fuel) :
    ∃ evs s' conn',
      ReadChain.drive (AsioTcpClientSession.doRead e) fuel {} { segments, ending := .eof } =
        (evs ++ [.deleting], s', conn') ∧ s'.phase = .stopped ∧
      ReadEvent.deleting ∉ evs ∧
      (evs.filterMap ReadEvent.processed?).map (AsioTcpManager.processPacket e) =
        vs.map fun v => .ok (.testStruct v) := by
  let body : TcpData.TestStruct → List UInt8 := fun v =>
    (BoostTcpConnection.packet TcpData.DataTypes.testStruct (v.serilize e)).serialize e
  have hbodies : ∀ b ∈ vs.map body, b.length < 2 ^ 32 := List.forall_mem_map.mpr hvs
  let conn : Conn := { segments, ending := .eof }
  have hwrites : (vs.filterMap fun v => BoostTcpConnection.asyncWrite e true
      TcpData.DataTypes.testStruct (v.serilize e)) =
      (vs.map body).map fun b => put32 e (UInt32.ofNat b.length) ++ b := by
    rw [List.map_map, ← List.filterMap_eq_map]
    rfl
  have hbytes : conn.bytes = ((vs.map body).map fun b =>
      put32 e (UInt32.ofNat b.length) ++ b).flatten := by
    rw [← hwrites]
    exact hsegments
  have hlen : 2 * (vs.map body).length + 1 ≤ fuel := by
    rw [List.length_map]
    exact hfuel
  obtain ⟨s', conn', hs', hdrive⟩ := ReadChain.drive_frames .deleting e hbodies
    (s := {}) rfl rfl hbytes hlen
  refine ⟨_, s', conn', hdrive, hs', deleting_notMem_frameEvents _, ?_⟩
  rw [filterMap_frameEvents, List.map_map]
  exact List.map_congr_left fun v hv => processPacket_testStruct e v (hvs v hv)

def twoStructs : List TcpData.TestStruct :=
  [{ a := [116, 101, 115, 116], b := 1, c := 0x3FE8000000000000, d := [0, 2, 6] },
    { a := [97], b := -2, c := 0, d := [-1] }]

def twoFrames : List UInt8 :=
  (twoStructs.filterMap fun v => BoostTcpConnection.asyncWrite .little true
    TcpData.DataTypes.testStruct (v.serilize .little)).flatten

/-- The first cut is in a length, and the second one in the second structure. -/
theorem doRead_testStructs_two : ∃ evs s' conn',
    ReadChain.drive (AsioTcpClientSession.doRead .little) 5 {} {
        segments := [twoFrames.take 2, (twoFrames.drop 2).take 70, twoFrames.drop 72]
        ending := .eof } = (evs ++ [.deleting], s', conn') ∧ s'.phase = .stopped ∧
      ReadEvent.deleting ∉ evs ∧
      (evs.filterMap ReadEvent.processed?).map (AsioTcpManager.processPacket .little) =
        twoStructs.map fun v => .ok (.testStruct v) :=
  doRead_testStructs .little twoStructs (by decide) _ (by decide) 5 (by decide)

end P2PWatcher
