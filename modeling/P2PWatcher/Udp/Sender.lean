import P2PWatcher.Udp.Address
import P2PWatcher.Wire.GroupData

/-!
# The UDP senders

`sendData` of the client and `broadCast` of the server cut a buffer into packets
by the same loop: a packet takes `MAX_SIZE_UDP` bytes of the buffer, the last
one takes the rest, and the 17 bytes of header and data type come on top.
The loop computes in `u32`, `int` and `u16`, as the sources do: the size and the
number of packets are reduced modulo 2^32, the product of an index with the
stride is an `int` and must not overflow, and the header keeps the low 16 bits
of the counters. Before that, `make_address` has to take the address of the target.

A packet is given to `async_send_to` in a vector that ends with its turn of the loop. What is
sent is taken to be what the vector held when the operation was started.
-/

namespace P2PWatcher

open Memory

/-- The address and the UDP port of a client. -/
structure ClientInfo where
  addr : List UInt8 := []
  port : UInt16 := 0
  deriving DecidableEq, Repr

/-- A client on the host of `Asio.loopback`. -/
def localClient : ClientInfo := { addr := localhost, port := 50000 }

def makeHeader (allSendDataSize curPacketNumber countAllPackets curPacketFullSize : UInt32)
    (isF isE isCompressed : Bool) : PacketHeader where
  serverHash := Constants.serverHash
  totalDataSize := allSendDataSize
  totalCntPackets := countAllPackets.toUInt16
  curPacketNumber := (curPacketNumber + 1).toUInt16
  curPacketSize := curPacketFullSize.toUInt16
  isFirst := if isF then 1 else 0
  isLast := if isE then 1 else 0
  isCompressed := if isCompressed then 1 else 0

/-- The compression is commented out in both programs: nothing is returned. -/
def compressData (_input : List UInt8) : List UInt8 := []

/-- The product of two nonnegative `int`s. -/
def mulInt (a b : ℕ) : Except Fault ℕ :=
  if a * b < 2 ^ 31 then .ok (a * b) else .error .overflow

/-- The number of packets for a buffer of `sendTotalSize` bytes. -/
def packetCount (sendTotalSize : UInt32) : UInt32 :=
  (sendTotalSize + UInt32.ofNat Constants.maxSizeUdp - 1) / UInt32.ofNat Constants.maxSizeUdp

/-- One turn of the sending loop, up to the serialisation. -/
def packetAt (dataType : UInt16) (dataToSend : List UInt8) (useCompression : Bool)
    (idx : ℕ) : Except Fault Packet := do
  let sendTotalSize := UInt32.ofNat dataToSend.length
  let cnt := packetCount sendTotalSize
  let last := decide (idx + 1 = cnt.toNat)
  let offset ← mulInt Constants.maxSizeUdp idx
  let chunk :=
    if last then sendTotalSize - UInt32.ofNat offset else UInt32.ofNat Constants.maxSizeUdp
  let buffer ← readAt dataToSend offset chunk.toNat
  .ok {
    header := makeHeader sendTotalSize (UInt32.ofNat idx) cnt
      (UInt32.ofNat (PacketHeader.size + 2 + chunk.toNat)) (decide (idx = 0)) last
      useCompression
    dType := dataType
    buffer }

/-- The datagrams that both senders make of `buf`, in the order of sending. -/
def packets (e : Endian) (dataType : UInt16) (buf : List UInt8) :
    Except Fault (List (List UInt8)) :=
  let compressedData := compressData buf
  let useCompression :=
    !compressedData.isEmpty && decide (compressedData.length < buf.length)
  let dataToSend := if useCompression then compressedData else buf
  let cnt := packetCount (UInt32.ofNat dataToSend.length)
  (List.range cnt.toNat).mapM fun idx =>
    Packet.serialize e <$> packetAt dataType dataToSend useCompression idx

/-- Why nothing more is sent: `make_address` throws, or the loop goes wrong. -/
inductive SendStop where
  | badAddress
  | fault (f : Fault)

/-- What both senders do for one target. -/
def sendTo (asio : Asio) (e : Endian) (target : ClientInfo) (dataType : UInt16)
    (buf : List UInt8) : Except SendStop (List (List UInt8)) :=
  if asio.makeAddress target.addr then
    match packets e dataType buf with
    | .error f => .error (.fault f)
    | .ok datagrams => .ok datagrams
  else .error .badAddress

/-- The client's `sendData`: each datagram with its target. -/
def BoostUdpConnection.sendData (asio : Asio) (e : Endian) (isOpen : Bool) (addr : List UInt8)
    (dataType : UInt16) (buf : List UInt8) :
    Except SendStop (List (ClientInfo × List UInt8)) :=
  if isOpen then do
    let target : ClientInfo := { addr, port := Constants.serverPort }
    let datagrams ← sendTo asio e target dataType buf
    .ok (datagrams.map fun datagram => (target, datagram))
  else .ok []

/-- The server's `broadCast`: for each client, in the order in which the map is
walked, the datagrams sent to it. -/
def AsioUdpManager.broadCast (asio : Asio) (e : Endian) (isOpen : Bool)
    (cl : List (UInt32 × ClientInfo)) (dataType : UInt16) (buf : List UInt8) :
    Except SendStop (List (ClientInfo × List (List UInt8))) :=
  if isOpen then
    cl.mapM fun client => do
      let datagrams ← sendTo asio e client.2 dataType buf
      .ok (client.2, datagrams)
  else .ok []

end P2PWatcher
