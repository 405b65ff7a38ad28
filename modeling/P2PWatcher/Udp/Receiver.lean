import P2PWatcher.Udp.Sender
import P2PWatcher.Machine.Run

/-!
# The UDP receivers

`processPacket` of the server and `prcsPacket` of the client have one body. It
parses the receive buffer and dispatches on the data type; an image packet is
copied into the assembly buffer, a function-local static, and the packet with
`isLast` hands the buffer out. The two differ in what handing out is: the
server calls `broadCast`, the client fires `signal_update_image_`.

`UdpReceiver.receive` is one turn of `listen`: the datagram overlays the receive
buffer, and the handler is called with the whole buffer, not with the bytes that
were received. A copy that leaves the assembly buffer, or a read that leaves the
receive buffer, is a fault, and behind it the model says nothing.
-/

namespace P2PWatcher

open Memory

/-- The static variables of the image case. -/
structure Assembly where
  assemblyBuffer : List UInt8 := []
  assemblyTotalSize : UInt32 := 0
  deriving DecidableEq, Repr

/-- The arguments of the `memcpy` of the image case, with the buffer behind its
destination. -/
structure ImageWrite where
  assemblyBuffer : List UInt8
  chunkOffset : UInt32
  data : List UInt8
  deriving DecidableEq, Repr

/-- The copy stays inside the assembly buffer. -/
def ImageWrite.Inside (w : ImageWrite) : Prop :=
  w.chunkOffset.toNat + w.data.length ≤ w.assemblyBuffer.length

instance (w : ImageWrite) : Decidable w.Inside := inferInstanceAs (Decidable (_ ≤ _))

/-- What the handler of a datagram does besides the assembly. -/
inductive UdpEffect (α : Type) where
  /-- nothing was received -/
  | idle
  /-- the hash in the header is not `SERVER_HASH` -/
  | rejected
  /-- a message was logged -/
  | message (text : List UInt8)
  /-- a fragment was stored -/
  | fragment
  /-- the assembly buffer was handed out -/
  | image (handed : α)
  /-- the data type has no case -/
  | unknown
  deriving DecidableEq, Repr

/-- The buffer that was handed out, if one was. -/
def UdpEffect.handed? {α : Type} : UdpEffect α → Option α
  | .image b => some b
  | _ => none

/-- `(cur_packet_number - 1) * MAX_SIZE_UDP`, an `int`, stored as a `u32`. -/
def chunkOffset (curPacketNumber : UInt16) : UInt32 :=
  UInt32.ofInt (((curPacketNumber.toNat : ℤ) - 1) * (Constants.maxSizeUdp : ℤ))

namespace Assembly

/-- The first packet of an image sets the buffer up. -/
def setUp (st : Assembly) (pkt : Packet) : Assembly :=
  if pkt.header.isFirst = 1 then {
    assemblyBuffer := List.replicate pkt.header.totalDataSize.toNat 0
    assemblyTotalSize := pkt.header.totalDataSize }
  else st

/-- The copy that the image case makes for the packet. -/
def imageWrite (st : Assembly) (pkt : Packet) : ImageWrite where
  assemblyBuffer := (st.setUp pkt).assemblyBuffer
  chunkOffset := chunkOffset pkt.header.curPacketNumber
  data := pkt.buffer

/-- The image case: the next static variables, and the buffer handed out. -/
def processImage (st : Assembly) (pkt : Packet) :
    Except Fault (Assembly × Option (List UInt8)) := do
  let w := st.imageWrite pkt
  let buffer ← writeAt w.assemblyBuffer w.chunkOffset.toNat w.data
  if pkt.header.isLast = 1 then .ok ({}, some buffer)
  else .ok ({ st.setUp pkt with assemblyBuffer := buffer }, none)

end Assembly

/-- The body that both receivers share; `hand` is what handing out does. -/
def processDatagram {α : Type} (hand : List UInt8 → α) (e : Endian) (st : Assembly)
    (buf : List UInt8) : Except Fault (Assembly × UdpEffect α) := do
  let pkt ← Packet.parse e buf
  if pkt.header.serverHash ≠ Constants.serverHash then .ok (st, .rejected)
  else if pkt.dType = UdpData.DataTypes.testMessage then do
    let s ← UdpData.TestMessage.deserialize e pkt.buffer
    .ok (st, .message s.message)
  else if pkt.dType = UdpData.DataTypes.image then do
    let (st', handed) ← st.processImage pkt
    match handed with
    | none => .ok (st', .fragment)
    | some buffer => .ok (st', .image (hand buffer))
  else .ok (st, .unknown)

/-- The server hands an image to `broadCast`, with the data type `Image`. -/
def AsioUdpManager.processPacket (e : Endian) (st : Assembly) (buf : List UInt8) :
    Except Fault (Assembly × UdpEffect (UInt16 × List UInt8)) :=
  processDatagram (fun buffer => (UdpData.DataTypes.image, buffer)) e st buf

/-- The client hands an image to `signal_update_image_`. -/
def BoostUdpConnection.prcsPacket (e : Endian) (st : Assembly) (buf : List UInt8) :
    Except Fault (Assembly × UdpEffect (List UInt8)) :=
  processDatagram (fun buffer => buffer) e st buf

/-- What a receiver keeps between two datagrams. -/
structure UdpReceiver where
  buffer : Fixed UInt8 Constants.bufferSize
  assembly : Assembly

namespace UdpReceiver

/-- The receiver of a program that has just started. -/
def start : UdpReceiver where
  buffer := Fixed.replicate Constants.bufferSize 0
  assembly := {}

/-- One turn of `listen` with the datagram `d` and the handler `process`. -/
def receive {α : Type}
    (process : Assembly → List UInt8 → Except Fault (Assembly × UdpEffect α))
    (r : UdpReceiver) (d : List UInt8) : Except Fault (UdpReceiver × UdpEffect α) :=
  let buffer := r.buffer.receive d
  let bytesTransferred := min d.length Constants.bufferSize
  if 0 < bytesTransferred then do
    let (assembly, effect) ← process r.assembly buffer.cells
    .ok ({ buffer, assembly }, effect)
  else .ok ({ r with buffer }, .idle)

end UdpReceiver

/-- One turn of the server's loop. -/
def AsioUdpManager.listen (e : Endian) :
    UdpReceiver → List UInt8 → Except Fault (UdpReceiver × UdpEffect (UInt16 × List UInt8)) :=
  UdpReceiver.receive (AsioUdpManager.processPacket e)

/-- One turn of the client's loop. -/
def BoostUdpConnection.listen (e : Endian) :
    UdpReceiver → List UInt8 → Except Fault (UdpReceiver × UdpEffect (List UInt8)) :=
  UdpReceiver.receive (BoostUdpConnection.prcsPacket e)

end P2PWatcher
