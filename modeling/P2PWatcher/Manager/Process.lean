import P2PWatcher.Tcp.Server
import P2PWatcher.Udp.ReceiveLoop
import P2PWatcher.Text.Print

/-!
# The server process

`AsioTcpManager` owns the acceptor, the timer, the sessions, and the UDP manager with its
socket. All of it runs in one thread: a step is one completion or one handler, and the
handlers run in any order in which the operations complete. `Server` has the accept
handler and the sessions and `ReceiveLoop` the UDP socket; here is what puts them together.
The UDP handler of an image and the handler of the timer send datagrams, to the
clients that are in the map by then, in the order in which the map is walked.

An accept handler calls `listen` whatever has happened, a timer handler starts the next wait
unless there was an error, and `close` is called when the manager is destroyed.
-/

namespace P2PWatcher

open Memory Machine Sequence Text

/-- An operation whose handler has not run yet: its error or none, if it has completed. -/
abbrev Waiting : Type := Option (Option ErrorCode)

/-- The operation is cancelled; one that has completed keeps its result. -/
def Waiting.abort (w : Waiting) : Waiting := w.or (some (some .operationAborted))

structure Acceptor where
  isOpen : Bool := false
  accepts : List Waiting := []
  deriving DecidableEq

/-- The entries of the UDP map, in the order in which they are walked. -/
abbrev Walk : Type := List (Σ _ : UInt32, ClientInfo)

/-- A call of `broadCast`, and what was sent. -/
structure BroadCast where
  /-- whether the UDP socket is open -/
  isOpen : Bool
  walk : Walk
  dataType : UInt16
  buf : List UInt8
  sent : List (ClientInfo × List (List UInt8))
  deriving DecidableEq

structure Manager where
  acceptor : Acceptor := {}
  /-- the waits of the timer -/
  timer : List Waiting := []
  server : Server := {}
  udp : ReceiveLoop := {}

inductive ManagerEvent where
  /-- an accept completes -/
  | acceptCompleted (i : ℕ) (ec : Option ErrorCode)
  /-- the handler of an accept runs; what the new socket says about its remote endpoint -/
  | acceptHandled (i : ℕ) (remote : Except ErrorCode ClientInfo)
  /-- a read of a session completes, and its handler runs -/
  | read (ref : ℕ) (c : Completion)
  /-- a receive of the UDP socket completes -/
  | received (i : ℕ) (result : Except ErrorCode (List UInt8))
  /-- the handler of a receive runs; how it would walk the map -/
  | datagramHandled (i : ℕ) (walk : Walk)
  /-- a wait of the timer is over -/
  | expired (i : ℕ)
  /-- the handler of a wait runs; what `std::time` says, and how it would walk the map -/
  | timerHandled (i : ℕ) (time : Int64) (walk : Walk)
  | close

inductive ManagerOutput where
  | quiet
  /-- an accept or a read, and the id that was removed from the maps -/
  | server (o : ServerOutput) (removed : Option UInt32)
  /-- the handler of a receive has handed out nothing -/
  | udp (o : LoopOutput (UInt16 × List UInt8))
  /-- the handler of a receive has handed out an image -/
  | relayed (b : BroadCast)
  /-- the handler of the timer has sent its message -/
  | ticked (b : BroadCast)
  /-- the handler of the timer logged an error -/
  | timerError (ec : ErrorCode)

/-- Why there is no step: no such operation can complete or be handled, the map is not
walked so, a part has none, or a broadcast throws. -/
inductive ManagerStop where
  | noOperation
  | noWalk
  | server (why : Stop)
  | udp (why : LoopStop)
  | send (why : SendStop)

namespace Acceptor

def openOn (asio : Asio) (s : Acceptor) (addr : List UInt8) (port : UInt16) :
    Except LoopStop Acceptor :=
  if s.isOpen then .ok s
  else if asio.makeAddress addr then
    if asio.bindTcp addr port then .ok { s with isOpen := true } else .error .notBound
  else .error .badAddress

def listen (s : Acceptor) : Acceptor :=
  if s.isOpen then { s with accepts := s.accepts ++ [none] } else s

def close (s : Acceptor) : Acceptor :=
  if s.isOpen then { isOpen := false, accepts := s.accepts.map Waiting.abort } else s

end Acceptor

/-- The operation `i`, which is pending, completes. -/
def completeWaiting (ws : List Waiting) (i : ℕ) (ec : Option ErrorCode) :
    Except ManagerStop (List Waiting) :=
  match ws[i]? with
  | some none => .ok (ws.set i (some ec))
  | _ => .error .noOperation

/-- The text of the message that the timer sends. -/
def timeText (time : Int64) : List UInt8 :=
  bytesOf "Hello from Boost.Asio! Timestamp: " ++ Text.toString time.toInt

/-- A UDP socket that is open gets another receive. -/
def Manager.open (asio : Asio) (s : Manager) (addr : List UInt8) (port : UInt16) :
    Except LoopStop Manager := do
  let udp ← AsioTcpManager.openUdp asio s.udp addr port
  let acceptor ← s.acceptor.openOn asio addr port
  .ok { s with udp, acceptor }

namespace Manager

def listen (s : Manager) : Manager := { s with acceptor := s.acceptor.listen }

/-- `expires_after` cancels the waits that are pending. -/
def startTest (s : Manager) : Manager := { s with timer := s.timer.map Waiting.abort ++ [none] }

def close (s : Manager) : Manager := { s with acceptor := s.acceptor.close, udp := s.udp.close }

/-- `broadCast` of the UDP manager, which walks the map in an order of its own. -/
def broadCast (asio : Asio) (e : Endian) (s : Manager) (walk : Walk) (dataType : UInt16)
    (buf : List UInt8) : Except ManagerStop BroadCast :=
  if walk.Perm s.server.udpCl.entries then
    match AsioUdpManager.broadCast asio e s.udp.isOpen (walk.map fun x => (x.1, x.2)) dataType
      buf with
    | .error why => .error (.send why)
    | .ok sent => .ok { isOpen := s.udp.isOpen, walk, dataType, buf, sent }
  else .error .noWalk

/-- The handler of an accept. -/
def acceptHandler (e : Endian) (s : Manager) (i : ℕ) (remote : Except ErrorCode ClientInfo) :
    Except ManagerStop (Manager × ManagerOutput) :=
  match s.acceptor.accepts[i]? with
  | some (some ec) =>
      let s' := { s with
        acceptor := { s.acceptor with accepts := s.acceptor.accepts.eraseIdx i }
        server := (s.server.accept e ec remote).1 }
      .ok (s'.listen, .server (s.server.accept e ec remote).2 none)
  | _ => .error .noOperation

/-- The id that a session gives to `signal_deleting`. -/
def removed? (s : Manager) : ServerOutput → Option UInt32
  | .read ref .deleting => s.server.sessions[ref]?.map Session.curClientId
  | _ => none

/-- The handler of a read of a session. -/
def readHandler (e : Endian) (s : Manager) (ref : ℕ) (c : Completion) :
    Except ManagerStop (Manager × ManagerOutput) :=
  match s.server.read e ref c with
  | .error why => .error (.server why)
  | .ok (server, o) => .ok ({ s with server }, .server o (s.removed? o))

/-- The handler of a receive. -/
def datagramHandler (asio : Asio) (e : Endian) (s : Manager) (i : ℕ) (walk : Walk) :
    Except ManagerStop (Manager × ManagerOutput) :=
  match AsioUdpManager.loop asio e s.udp (.handled i) with
  | .error why => .error (.udp why)
  | .ok (udp, .turn (.image handed)) =>
      (s.broadCast asio e walk handed.1 handed.2).map fun b => ({ s with udp }, .relayed b)
  | .ok (udp, o) => .ok ({ s with udp }, .udp o)

/-- The handler of a wait. -/
def timerHandler (asio : Asio) (e : Endian) (s : Manager) (i : ℕ) (time : Int64)
    (walk : Walk) : Except ManagerStop (Manager × ManagerOutput) :=
  match s.timer[i]? with
  | some (some none) =>
      let a : UdpData.TestMessage := { message := timeText time }
      (s.broadCast asio e walk UdpData.DataTypes.testMessage (a.serialize e)).map fun b =>
        (({ s with timer := s.timer.eraseIdx i } : Manager).startTest, .ticked b)
  | some (some (some ec)) => .ok ({ s with timer := s.timer.eraseIdx i }, .timerError ec)
  | _ => .error .noOperation

def step (asio : Asio) (e : Endian) (s : Manager) :
    ManagerEvent → Except ManagerStop (Manager × ManagerOutput)
  | .acceptCompleted i ec => (completeWaiting s.acceptor.accepts i ec).map fun accepts =>
      ({ s with acceptor := { s.acceptor with accepts } }, .quiet)
  | .acceptHandled i remote => s.acceptHandler e i remote
  | .read ref c => s.readHandler e ref c
  | .received i result =>
      match AsioUdpManager.loop asio e s.udp (.received i result) with
      | .error why => .error (.udp why)
      | .ok (udp, _) => .ok ({ s with udp }, .quiet)
  | .datagramHandled i walk => s.datagramHandler asio e i walk
  | .expired i => (completeWaiting s.timer i none).map fun timer => ({ s with timer }, .quiet)
  | .timerHandled i time walk => s.timerHandler asio e i time walk
  | .close => .ok (s.close, .quiet)

end Manager

/-! ## The start of the process -/

/-- The two factories. -/
inductive Creator where
  | asio
  | unix
  deriving DecidableEq

/-- The managers of the Unix sockets have not been written: there is none. -/
def Creator.factoryMethod : Creator → Option Manager
  | .asio => some {}
  | .unix => none

/-- Without a manager, a null pointer is followed. -/
def Creator.execute (asio : Asio) (c : Creator) (addr : List UInt8) (port : UInt16) :
    Option (Except LoopStop Manager) :=
  c.factoryMethod.map fun ptr =>
    (ptr.open asio addr port).map fun opened => opened.listen.startTest

/-- What `main` starts, if it is given an argument: its flag is the pointer `argv[0]`. -/
def serverMain (asio : Asio) (argv : List (List UInt8)) :
    Option (Option (Except LoopStop Manager)) :=
  if argv.length < 2 then none
  else
    let useBoostAsio := argv[0]?.isSome
    let c : Creator := if useBoostAsio then .asio else .unix
    some (c.execute asio Constants.serverAddr Constants.serverPort)

/-- The manager that `Execute` has opened and started. -/
def Manager.start : Manager :=
  ({ udp := ({} : ReceiveLoop).openSocket.listen
     acceptor := { isOpen := true } } : Manager).listen.startTest

theorem Creator.execute_asio_eq_ok_iff (asio : Asio) (addr : List UInt8) (port : UInt16)
    (s : Manager) :
    Creator.execute asio .asio addr port = some (.ok s) ↔
      (asio.Opens addr port ∧ asio.bindTcp addr port = true) ∧ Manager.start = s := by
  simp only [execute, factoryMethod, Option.map_some, Manager.open, AsioTcpManager.openUdp,
    AsioUdpManager.open, Acceptor.openOn, Asio.Opens]
  cases asio.makeAddress addr <;> cases asio.bindUdp addr port <;>
    cases asio.bindTcp addr port <;> simp [Except.map, bind, Except.bind, Manager.start]

/-- The null pointer is never followed, and if nothing throws the server has been started. -/
theorem serverMain_eq_ok_iff (asio : Asio) (argv : List (List UInt8)) (s : Manager) :
    serverMain asio argv = some (some (.ok s)) ↔
      2 ≤ argv.length ∧ (asio.Opens Constants.serverAddr Constants.serverPort ∧
        asio.bindTcp Constants.serverAddr Constants.serverPort = true) ∧ Manager.start = s := by
  rw [serverMain]
  split
  · next h => simp [Nat.not_le.mpr h]
  · next h =>
      have hflag : argv[0]?.isSome = true := by
        rw [List.getElem?_eq_getElem (by omega)]
        rfl
      simp only [hflag, if_true, Option.some.injEq, Creator.execute_asio_eq_ok_iff]
      exact (and_iff_right (Nat.not_lt.mp h)).symm

end P2PWatcher
