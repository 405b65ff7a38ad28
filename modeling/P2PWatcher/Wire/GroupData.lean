import P2PWatcher.Wire.Packet

/-!
# The payload types

`TestMessage`, `FirstData` and `TestStruct` with their encoders and decoders.
A string is a byte string with its length in network order in front, an `int`
is sent in network order, while the port of `FirstData` and the `double` of
`TestStruct` are copied as they lie in memory. A `double` is its eight bytes,
read as a `UInt64`.

The decoders get a bare pointer, so nothing but the lengths inside the data
tells them where to stop. They are modelled with the buffer behind the pointer,
and a read that leaves it is a fault. Their offset counter is a `u32` on the
server and, in `TestStruct`, a `size_t` on the client, so its width is a
parameter. On a buffer shorter than the counter can count, a decoder returns
`v` exactly when the buffer begins with the encoding of `v`; that is the only
fact about a decoder that the other modules use.
-/

namespace P2PWatcher

open Memory

/-- `offset += k` on a counter of `w` bits. -/
def advance (w off k : ℕ) : ℕ := (off + k) % 2 ^ w

/-- A string as the encoders write it: the length, then the characters. -/
def putStr (e : Endian) (s : List UInt8) : List UInt8 :=
  put32 e (htonl e (UInt32.ofNat s.length)) ++ s

/-- An `int` in network order. -/
def putInt (e : Endian) (i : Int32) : List UInt8 := put32 e (htonl e i.toUInt32)

@[simp] theorem putStr_length (e : Endian) (s : List UInt8) :
    (putStr e s).length = 4 + s.length := by
  simp [putStr]

@[simp] theorem putInt_length (e : Endian) (i : Int32) : (putInt e i).length = 4 := by
  simp [putInt]

/-- As long as the counter does not wrap it is the number of bytes read. -/
theorem advance_of_lt {w off k : ℕ} (h : off + k < 2 ^ w) : advance w off k = off + k :=
  Nat.mod_eq_of_lt h

/-! ## TestMessage -/

namespace UdpData

def DataTypes.testMessage : UInt16 := 0

def DataTypes.image : UInt16 := 1

structure TestMessage where
  message : List UInt8 := []
  deriving DecidableEq, Repr

namespace TestMessage

def serialize (e : Endian) (m : TestMessage) : List UInt8 := putStr e m.message

def deserialize (e : Endian) (buf : List UInt8) : Except Fault TestMessage := do
  let strlen ← ntohl e <$> read32 e buf 0
  let offset := advance 32 0 4
  let message ← readAt buf offset strlen.toNat
  .ok { message }

end TestMessage

end UdpData

namespace TcpData

def DataTypes.testStruct : UInt16 := 0

def DataTypes.firstData : UInt16 := 1

/-! ## FirstData -/

structure FirstData where
  clientAddr : List UInt8 := []
  clientPort : UInt16 := 0
  deriving DecidableEq, Repr

namespace FirstData

def serialize (e : Endian) (v : FirstData) : List UInt8 :=
  putStr e v.clientAddr ++ put16 e v.clientPort

def deserialize (e : Endian) (buffer : List UInt8) : Except Fault FirstData := do
  let clAddrLen ← ntohl e <$> read32 e buffer 0
  let offset := advance 32 0 4
  let clientAddr ← readAt buffer offset clAddrLen.toNat
  let offset := advance 32 offset clAddrLen.toNat
  let clientPort ← read16 e buffer offset
  .ok { clientAddr, clientPort }

end FirstData

/-! ## TestStruct -/

structure TestStruct where
  a : List UInt8 := []
  b : Int32 := 0
  c : UInt64 := 0
  d : List Int32 := []
  deriving DecidableEq, Repr

namespace TestStruct

def serilize (e : Endian) (v : TestStruct) : List UInt8 :=
  putStr e v.a ++ putInt e v.b ++ put64 e v.c ++
    put32 e (htonl e (UInt32.ofNat v.d.length)) ++ v.d.flatMap (putInt e)

/-- The loop that reads the vector, with its first `offset` and the number of
turns left. -/
def deserializeLoop (w : ℕ) (e : Endian) (data : List UInt8) :
    ℕ → ℕ → Except Fault (List Int32)
  | _, 0 => .ok []
  | offset, n + 1 => do
      let val ← ntohl e <$> read32 e data offset
      let rest ← deserializeLoop w e data (advance w offset 4) n
      .ok (val.toInt32 :: rest)

def deserialize (w : ℕ) (e : Endian) (data : List UInt8) : Except Fault TestStruct := do
  let strLen ← ntohl e <$> read32 e data 0
  let offset := advance w 0 4
  let a ← readAt data offset strLen.toNat
  let offset := advance w offset strLen.toNat
  let b ← ntohl e <$> read32 e data offset
  let offset := advance w offset 4
  let c ← read64 e data offset
  let offset := advance w offset 8
  let vecSize ← ntohl e <$> read32 e data offset
  let offset := advance w offset 4
  let d ← deserializeLoop w e data offset vecSize.toNat
  .ok { a, b := b.toInt32, c, d }

end TestStruct

end TcpData

end P2PWatcher
