import P2PWatcher.Tcp.Client
import P2PWatcher.Udp.Message
import P2PWatcher.Text.Read

/-!
# The client process

`MainClient` is the window of the client: its slots call the connection, and the connection
hands the images that the UDP socket has put together to `showImage`. What the user
does and what the network does are the events of one machine. A slot or a handler that
throws ends the process.

A picture is shown as 2880 times 1800 pixels of four bytes, whatever the size of the
buffer that has come. If it is smaller, the pixels come from behind it, and nobody notices.
-/

namespace P2PWatcher

open Memory Machine

/-- A screenshot, as far as `imageToBytes` looks at it. -/
structure CGImage where
  height : ℕ
  bytesPerRow : ℕ
  /-- what is drawn into the bitmap context, if there is one -/
  drawn : Option (List UInt8)

structure MainClient where
  conn : Client := {}
  isRunning : Bool := true

inductive MainClientEvent where
  | slotConnect (host : List UInt8)
  | slotDisconnect
  /-- the screenshot, or the null pointer -/
  | slotSend (screenshot : Option CGImage)
  /-- something happens to the sockets of the connection -/
  | conn (event : ClientEvent)
  /-- the handler of a receive runs; whether `showImage` gets a screenshot of its own -/
  | datagramHandled (i : ℕ) (canCapture : Bool)

inductive MainClientOutput where
  | quiet
  /-- what became of a frame, if one was handed on -/
  | tcp (effect : Option TcpEffect)
  /-- the datagrams that the UDP socket was given -/
  | sent (datagrams : List (ClientInfo × List UInt8))
  /-- the handler of a receive has handed out nothing -/
  | udp (o : LoopOutput (List UInt8))
  /-- the handler of a receive has handed out an image, and these are its pixels, if they are
  all inside it -/
  | shown (buf : List UInt8) (pixels : Except Fault (List UInt8))
  /-- the process has ended -/
  | ended

inductive MainClientStop where
  | ended
  | conn (why : ClientStop)
  | send (why : SendStop)

/-- Events that are calls of the connection come from the slots. -/
def ClientEvent.IsCall : ClientEvent → Bool
  | .doConnect _ _ | .doDisconnect | .asyncWrite _ _ | .datagramHandled _ => true
  | _ => false

namespace BoostTcpConnection

def sendUdpData (asio : Asio) (e : Endian) (s : Client) (dataType : UInt16) (buf : List UInt8) :
    Except SendStop (List (ClientInfo × List UInt8)) :=
  BoostUdpConnection.sendData asio e s.udp.isOpen s.serverAddr dataType buf

end BoostTcpConnection

namespace MainClient

/-- Without a bitmap context the vector is empty. -/
def imageToBytes (cgImage : CGImage) : List UInt8 :=
  match cgImage.drawn with
  | none => []
  | some pixels => overlay (List.replicate (cgImage.height * cgImage.bytesPerRow) 0) pixels

/-- What `slotSend` sends over TCP. The third member is 0.75. -/
def struct : TcpData.TestStruct where
  a := Text.bytesOf "test"
  b := 1
  c := 0x3FE8000000000000
  d := (List.range 5).map fun i => Int32.ofNat (i + i * i)

def testMessage : UdpData.TestMessage := { message := Text.bytesOf "hi, this is image!" }

def slotConnect (s : MainClient) (host : List UInt8) : MainClient :=
  { s with conn := s.conn.doConnect host Constants.serverPort }

def slotDisconnect (s : MainClient) : MainClient := { s with conn := s.conn.doDisconnect }

/-- The message goes out before it is known whether there is a screenshot. -/
def slotSend (asio : Asio) (e : Endian) (s : MainClient) (screenshot : Option CGImage) :
    Except SendStop (MainClient × List (ClientInfo × List UInt8)) := do
  let conn := s.conn.asyncWrite e TcpData.DataTypes.testStruct (struct.serilize e)
  let message ← BoostTcpConnection.sendUdpData asio e conn UdpData.DataTypes.testMessage
    (testMessage.serialize e)
  match screenshot with
  | none => .ok ({ conn, isRunning := false }, message)
  | some cgImage => do
      let image ← BoostTcpConnection.sendUdpData asio e conn UdpData.DataTypes.image
        (imageToBytes cgImage)
      .ok ({ s with conn }, message ++ image)

/-- The pixels that `QPixmap::fromImage` reads, without a look at the size of the buffer. -/
def showImage (buf : List UInt8) : Except Fault (List UInt8) := readAt buf 0 (1800 * (2880 * 4))

/-- The handler of a receive. -/
def datagramHandler (asio : Asio) (e : Endian) (s : MainClient) (i : ℕ) (canCapture : Bool) :
    Except MainClientStop (MainClient × MainClientOutput) :=
  match BoostUdpConnection.loop asio e s.conn.udp (.handled i) with
  | .error why => .error (.conn (.udp why))
  | .ok (udp, .turn (.image buf)) =>
      let s := { s with conn := { s.conn with udp } }
      if canCapture then .ok (s, .shown buf (showImage buf))
      else .ok ({ s with isRunning := false }, .ended)
  | .ok (udp, o) => .ok ({ s with conn := { s.conn with udp } }, .udp o)

def step (asio : Asio) (e : Endian) (s : MainClient) (event : MainClientEvent) :
    Except MainClientStop (MainClient × MainClientOutput) :=
  if s.isRunning then
    match event with
    | .slotConnect host => .ok (s.slotConnect host, .quiet)
    | .slotDisconnect => .ok (s.slotDisconnect, .quiet)
    | .slotSend screenshot =>
        match s.slotSend asio e screenshot with
        | .error why => .error (.send why)
        | .ok (s', datagrams) => .ok (s', .sent datagrams)
    | .conn event =>
        if event.IsCall then .error (.conn .noOperation)
        else
          match s.conn.step asio e event with
          | .error why => .error (.conn why)
          | .ok (conn, effect) => .ok ({ s with conn }, .tcp effect)
    | .datagramHandled i canCapture => s.datagramHandler asio e i canCapture
  else .error .ended

end MainClient

/-- The datagrams of a call of `sendData`. -/
theorem BoostUdpConnection.sent_of_sendData {asio : Asio} {e : Endian} {isOpen : Bool}
    {addr : List UInt8} {dataType : UInt16} {buf : List UInt8}
    {sent : List (ClientInfo × List UInt8)}
    (h : BoostUdpConnection.sendData asio e isOpen addr dataType buf = .ok sent) :
    sent = if isOpen then (fragments e dataType (counted buf)).map fun d =>
      ({ addr, port := Constants.serverPort }, d) else [] := by
  cases isOpen with
  | false => exact (Except.ok.inj h).symm
  | true => exact ((BoostUdpConnection.sendData_eq_ok_iff ..).mp h).2.symm

end P2PWatcher
