import P2PWatcher.Udp.ReceiveLoop
import P2PWatcher.Tcp.Stream

/-!
# The client's connection

The client has one TCP socket with one `size` and one `buffer`, and a UDP socket that
it opens when it gets a `FirstData`. The user connects and disconnects when he likes. What
the program has asked of the TCP socket is a list of operations: an attempt to connect,
a read or a write. An operation completes, and its handler runs some time later. Closing
the socket completes all that is pending with `operation_aborted`, and so does connecting,
as an attempt to connect closes the socket and opens it again. So there may be handlers to
come of operations on an earlier opening of the socket; the openings are counted
to tell these apart. The handlers themselves do not.

The two read handlers are those of `BoostTcpConnection.asyncRead`: for a client whose
reads do not overlap the two models agree (`handle_complete`).
-/

namespace P2PWatcher

open Memory Machine Sequence

/-- What an operation on a closed socket completes with. -/
def ErrorCode.badDescriptor : ErrorCode := .other 9

inductive OpKind where
  /-- an attempt to connect, and how many endpoints are left -/
  | connect (rest : ℕ)
  /-- the read into `size` -/
  | length
  /-- the read into `buffer`, which had `n` bytes when it was started -/
  | body (n : ℕ)
  | write
  deriving DecidableEq

/-- How many bytes the operation reads, if it is a read. -/
def OpKind.reads : OpKind → Option ℕ
  | .length => some 4
  | .body n => some n
  | .connect _ => none
  | .write => none

/-- An operation of the TCP socket whose handler has not run yet. -/
structure Op where
  kind : OpKind
  /-- the opening of the socket that it was started on -/
  opening : ℕ
  /-- how it has ended, if it has completed: without an error or with one -/
  result : Option (Option ErrorCode) := none
  deriving DecidableEq

/-- The socket of the operation is closed. -/
def Op.abort (op : Op) : Op :=
  { op with result := op.result.or (some (some .operationAborted)) }

structure Client where
  serverAddr : List UInt8 := []
  /-- the names that are being resolved, with their ports -/
  resolves : List (List UInt8 × UInt16) := []
  isOpen : Bool := false
  /-- how often the TCP socket has been opened -/
  opening : ℕ := 0
  ops : List Op := []
  size : UInt32 := 0
  buffer : List UInt8 := []
  udp : ReceiveLoop := {}
  /-- what the UDP socket was opened on -/
  bound : Option TcpData.FirstData := none

inductive ClientEvent where
  | doConnect (addr : List UInt8) (port : UInt16)
  | doDisconnect
  | asyncWrite (dataType : UInt16) (buffer : List UInt8)
  /-- the handler of a name resolution runs, which has found an endpoint and `rest` more -/
  | resolved (i : ℕ) (result : Except ErrorCode ℕ)
  /-- a pending read gets its first bytes and goes on -/
  | arrived (i : ℕ) (data : List UInt8)
  /-- a pending operation completes; a read with all its bytes -/
  | completed (i : ℕ) (c : Completion)
  /-- the handler of a completed operation runs -/
  | handled (i : ℕ)
  /-- a receive of the UDP socket completes -/
  | datagram (i : ℕ) (result : Except ErrorCode (List UInt8))
  /-- the handler of a completed receive runs -/
  | datagramHandled (i : ℕ)

/-- Why there is no step: there is no such operation, it cannot complete so, the UDP loop
has no step, or the handler of a frame leaves its buffers. -/
inductive ClientStop where
  | noOperation
  | badCompletion
  | udp (why : LoopStop)
  | fault (f : Fault)

namespace Client

/-- `socket.close`. -/
def closeSocket (s : Client) : Client :=
  if s.isOpen then { s with isOpen := false, ops := s.ops.map Op.abort } else s

/-- An operation is started. On a closed socket it fails at once, and on an open one a read of
no bytes succeeds at once. -/
def start (s : Client) (kind : OpKind) : Client :=
  let result :=
    if s.isOpen then
      if kind = .body 0 then some none else none
    else some (some .badDescriptor)
  { s with ops := s.ops ++ [{ kind, opening := s.opening, result }] }

/-- `asio::async_connect` turns to the next endpoint. -/
def attempt (s : Client) (rest : ℕ) : Client :=
  let s := s.closeSocket
  ({ s with isOpen := true, opening := s.opening + 1 } : Client).start (.connect rest)

def doConnect (s : Client) (addr : List UInt8) (port : UInt16) : Client :=
  { s with serverAddr := addr, resolves := s.resolves ++ [(addr, port)] }

def doDisconnect (s : Client) : Client :=
  let s := s.closeSocket
  { s with udp := s.udp.close, bound := none }

def asyncWrite (e : Endian) (s : Client) (dataType : UInt16) (buffer : List UInt8) : Client :=
  match BoostTcpConnection.asyncWrite e s.isOpen dataType buffer with
  | none => s
  | some _ => s.start .write

/-- The handler of `async_resolve`. -/
def resolved (s : Client) (i : ℕ) (result : Except ErrorCode ℕ) : Except ClientStop Client :=
  match s.resolves[i]? with
  | none => .error .noOperation
  | some _ =>
      let s := { s with resolves := s.resolves.eraseIdx i }
      match result with
      | .error _ => .ok s.doDisconnect
      | .ok rest => .ok (s.attempt rest)

/-- Bytes get to where the read puts them. A buffer that has become shorter since the
read was started is written past its end. -/
def store (e : Endian) (s : Client) (kind : OpKind) (data : List UInt8) :
    Except ClientStop Client :=
  match kind with
  | .length => .ok { s with size := get32 e (overlay (put32 e s.size) data) }
  | .body _ =>
      match writeAt s.buffer 0 data with
      | .error f => .error (.fault f)
      | .ok buffer => .ok { s with buffer }
  | _ => .ok s

def arrive (e : Endian) (s : Client) (i : ℕ) (data : List UInt8) : Except ClientStop Client :=
  match s.ops[i]? with
  | some { kind, opening := _, result := none } =>
      match kind.reads with
      | some n => if data.length < n then s.store e kind data else .error .badCompletion
      | none => .error .badCompletion
  | _ => .error .noOperation

def complete (e : Endian) (s : Client) (i : ℕ) (c : Completion) : Except ClientStop Client :=
  match s.ops[i]? with
  | some { kind, opening, result := none } =>
      let s := { s with ops := s.ops.set i { kind, opening, result := some c.ec } }
      match kind.reads with
      | some n => if c.Valid n then s.store e kind c.data else .error .badCompletion
      | none => if c.data = [] then .ok s else .error .badCompletion
  | _ => .error .noOperation

def asyncRead (s : Client) : Client := s.start .length

/-- `asio::async_connect` behind an attempt, and the handler. -/
def connectHandler (s : Client) (rest : ℕ) (ec : Option ErrorCode) : Client :=
  -- on a closed socket it gives up with `operation_aborted`
  if s.isOpen then
    match ec, rest with
    | none, _ => s.asyncRead
    | some _, rest + 1 => s.attempt rest
    | some _, 0 => s.doDisconnect
  else s.doDisconnect

/-- The outer handler of `asyncRead`. -/
def lengthHandler (s : Client) (ec : Option ErrorCode) : Client :=
  if ec = some .eof then s
  else ({ s with buffer := resize 0 s.buffer s.size.toNat } : Client).start (.body s.size.toNat)

def prcsPacket (asio : Asio) (e : Endian) (s : Client) :
    Except ClientStop (Client × TcpEffect) :=
  match BoostTcpConnection.prcsPacket e s.buffer with
  | .error f => .error (.fault f)
  | .ok (.firstData a) =>
      match BoostTcpConnection.firstData asio s.udp a.clientAddr a.clientPort with
      | .error why => .error (.udp why)
      | .ok udp => .ok ({ s with udp, bound := some a }, .firstData a)
  | .ok effect => .ok (s, effect)

/-- The inner handler of `asyncRead`. -/
def bodyHandler (asio : Asio) (e : Endian) (s : Client) (ec : Option ErrorCode) :
    Except ClientStop (Client × Option TcpEffect) :=
  if ec.isSome then .ok (s, none)
  else (s.prcsPacket asio e).map fun r => (r.1.asyncRead, some r.2)

def writeHandler (s : Client) (ec : Option ErrorCode) : Client :=
  if ec.isSome then s.doDisconnect else s

/-- The handler of an operation that has completed. -/
def handler (asio : Asio) (e : Endian) (s : Client) (ec : Option ErrorCode) :
    OpKind → Except ClientStop (Client × Option TcpEffect)
  | .connect rest => .ok (s.connectHandler rest ec, none)
  | .length => .ok (s.lengthHandler ec, none)
  | .body _ => s.bodyHandler asio e ec
  | .write => .ok (s.writeHandler ec, none)

def handle (asio : Asio) (e : Endian) (s : Client) (i : ℕ) :
    Except ClientStop (Client × Option TcpEffect) :=
  match s.ops[i]? with
  | some { kind, opening := _, result := some ec } =>
      ({ s with ops := s.ops.eraseIdx i } : Client).handler asio e ec kind
  | _ => .error .noOperation

/-- A step of the UDP loop in which its socket is neither opened nor closed. -/
def udpStep (asio : Asio) (e : Endian) (s : Client) (event : LoopEvent) :
    Except ClientStop Client :=
  match BoostUdpConnection.loop asio e s.udp event with
  | .error why => .error (.udp why)
  | .ok (udp, _) => .ok { s with udp }

/-- A step puts out what became of the frame, if it has handed on one. -/
def step (asio : Asio) (e : Endian) (s : Client) :
    ClientEvent → Except ClientStop (Client × Option TcpEffect)
  | .doConnect addr port => .ok (s.doConnect addr port, none)
  | .doDisconnect => .ok (s.doDisconnect, none)
  | .asyncWrite dataType buffer => .ok (s.asyncWrite e dataType buffer, none)
  | .resolved i result => (s.resolved i result).map fun s' => (s', none)
  | .arrived i data => (s.arrive e i data).map fun s' => (s', none)
  | .completed i c => (s.complete e i c).map fun s' => (s', none)
  | .handled i => s.handle asio e i
  | .datagram i result => (s.udpStep asio e (.received i result)).map fun s' => (s', none)
  | .datagramHandled i => (s.udpStep asio e (.handled i)).map fun s' => (s', none)

/-! ## What the functions leave alone -/

@[simp] theorem closeSocket_udp (s : Client) : s.closeSocket.udp = s.udp := by
  rw [closeSocket]
  split <;> rfl

@[simp] theorem closeSocket_isOpen (s : Client) : s.closeSocket.isOpen = false := by
  rw [closeSocket]
  split
  · rfl
  · next h => exact Bool.eq_false_iff.mpr h

@[simp] theorem closeSocket_opening (s : Client) : s.closeSocket.opening = s.opening := by
  rw [closeSocket]
  split <;> rfl

@[simp] theorem start_udp (s : Client) (kind : OpKind) : (s.start kind).udp = s.udp := rfl

@[simp] theorem attempt_udp (s : Client) (rest : ℕ) : (s.attempt rest).udp = s.udp :=
  closeSocket_udp s

@[simp] theorem doDisconnect_udp_isOpen (s : Client) : s.doDisconnect.udp.isOpen = false :=
  ReceiveLoop.isOpen_close _

@[simp] theorem asyncWrite_udp (e : Endian) (s : Client) (dataType : UInt16)
    (buffer : List UInt8) : (s.asyncWrite e dataType buffer).udp = s.udp := by
  rw [asyncWrite]
  split <;> rfl

@[simp] theorem lengthHandler_udp (s : Client) (ec : Option ErrorCode) :
    (s.lengthHandler ec).udp = s.udp := by
  rw [lengthHandler]
  split <;> rfl

/-- Bytes that arrive change `size` or `buffer` only. -/
theorem store_eq {e : Endian} {s s' : Client} {kind : OpKind} {data : List UInt8}
    (h : s.store e kind data = .ok s') :
    s' = { s with size := s'.size, buffer := s'.buffer } := by
  cases kind with
  | length => rw [← Except.ok.inj h]
  | body n =>
      simp only [store] at h
      split at h
      · exact nomatch h
      · rw [← Except.ok.inj h]
  | connect rest | write => rw [← Except.ok.inj h]

/-! ## What a step can do -/

theorem resolved_cases {s s' : Client} {i : ℕ} {result : Except ErrorCode ℕ}
    (h : s.resolved i result = .ok s') : ∃ resolves,
      (∃ ec, result = .error ec ∧ s' = ({ s with resolves } : Client).doDisconnect) ∨
      ∃ rest, result = .ok rest ∧ s' = ({ s with resolves } : Client).attempt rest := by
  rw [resolved] at h
  split at h
  · exact nomatch h
  · refine ⟨s.resolves.eraseIdx i, ?_⟩
    cases result with
    | error ec => exact .inl ⟨ec, rfl, (Except.ok.inj h).symm⟩
    | ok rest => exact .inr ⟨rest, rfl, (Except.ok.inj h).symm⟩

theorem arrive_eq {e : Endian} {s s' : Client} {i : ℕ} {data : List UInt8}
    (h : s.arrive e i data = .ok s') :
    s' = { s with size := s'.size, buffer := s'.buffer } := by
  rw [arrive] at h
  split at h
  · split at h
    · split at h
      · exact store_eq h
      · exact nomatch h
    · exact nomatch h
  · exact nomatch h

/-- A completed operation waits for its handler. -/
theorem complete_cases {e : Endian} {s s' : Client} {i : ℕ} {c : Completion}
    (h : s.complete e i c = .ok s') : ∃ pre op post, s.ops = pre ++ op :: post ∧
      pre.length = i ∧ op.result = none ∧
      s' = { s with
        ops := pre ++ { op with result := some c.ec } :: post
        size := s'.size, buffer := s'.buffer } := by
  rw [complete] at h
  split at h
  · next kind opening hfound =>
      obtain ⟨pre, post, hsplit, rfl⟩ := exists_split hfound
      refine ⟨pre, { kind, opening }, post, hsplit, rfl, rfl, ?_⟩
      have hset : s.ops.set pre.length { kind, opening, result := some c.ec } =
          pre ++ { kind, opening, result := some c.ec } :: post := by
        rw [hsplit, set_split]
      rw [hset] at h
      simp only at h
      split at h
      · split at h
        · exact store_eq h
        · exact nomatch h
      · split at h
        · rw [← Except.ok.inj h]
        · exact nomatch h
  · exact nomatch h

/-- The handled operation is gone. -/
theorem handle_cases {asio : Asio} {e : Endian} {s s' : Client} {i : ℕ} {o : Option TcpEffect}
    (h : s.handle asio e i = .ok (s', o)) : ∃ pre op post ec, s.ops = pre ++ op :: post ∧
      pre.length = i ∧ op.result = some ec ∧
      ({ s with ops := pre ++ post } : Client).handler asio e ec op.kind = .ok (s', o) := by
  rw [handle] at h
  split at h
  · next kind opening ec hfound =>
      obtain ⟨pre, post, hsplit, rfl⟩ := exists_split hfound
      refine ⟨pre, { kind, opening, result := some ec }, post, ec, hsplit, rfl, rfl, ?_⟩
      rw [hsplit, eraseIdx_split] at h
      exact h
  · exact nomatch h

theorem handle_of_split {asio : Asio} {e : Endian} {s : Client} {pre post : List Op} {op : Op}
    {ec : Option ErrorCode} (hops : s.ops = pre ++ op :: post) (hec : op.result = some ec) :
    s.handle asio e pre.length =
      ({ s with ops := pre ++ post } : Client).handler asio e ec op.kind := by
  obtain ⟨kind, opening, result⟩ := op
  obtain rfl : result = some ec := hec
  have hfound : s.ops[pre.length]? = some { kind, opening, result := some ec } := by
    rw [hops, getElem?_split]
  have herase : s.ops.eraseIdx pre.length = pre ++ post := by
    rw [hops, eraseIdx_split]
  rw [handle, hfound]
  simp only [herase]

/-- The client connects and gets a frame with `body`, whose handler has not run yet. -/
def firstFrame (body : List UInt8) : List ClientEvent :=
  [.doConnect localhost Constants.serverPort, .resolved 0 (.ok 0),
    .completed 0 { data := [], ec := none }, .handled 0,
    .completed 0 { data := put32 .little (UInt32.ofNat body.length), ec := none }, .handled 0,
    .completed 0 { data := body, ec := none }]

end Client

end P2PWatcher
