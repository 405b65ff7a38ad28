import P2PWatcher.Text.Read

/-!
# Addresses

Boost.Asio takes an address as a text: `make_address` throws if the text is no address, and a
socket can be bound only to an address that the host has. What a host takes is a parameter of
everything that sends or opens a socket. `Asio.loopback` is a host that has no address but
its own one.
-/

namespace P2PWatcher

open Text

/-- What Boost.Asio does with the addresses that it gets, on one host. -/
structure Asio where
  /-- `make_address` takes the text, and does not throw -/
  makeAddress : List UInt8 → Bool
  /-- `open`, `set_option` and `bind` of a UDP socket that is closed do not throw -/
  bindUdp : List UInt8 → UInt16 → Bool
  /-- the same for an acceptor, and its `listen` -/
  bindTcp : List UInt8 → UInt16 → Bool

/-- A UDP socket that is closed can be opened on the address and the port. -/
def Asio.Opens (asio : Asio) (addr : List UInt8) (port : UInt16) : Prop :=
  asio.makeAddress addr = true ∧ asio.bindUdp addr port = true

instance (asio : Asio) (addr : List UInt8) (port : UInt16) : Decidable (asio.Opens addr port) :=
  inferInstanceAs (Decidable (_ ∧ _))

/-! ## Dotted addresses -/

/-- The value of some digits in base 10. -/
def decimal (digits : List UInt8) : ℕ :=
  digits.foldl (fun n c => 10 * n + (c.toNat - 48)) 0

/-- A number up to 255, without zeros in front. -/
def isOctet (text : List UInt8) : Bool :=
  text.all (fun c => 48 ≤ c && c ≤ 57) && decide (text = [48] ∨ text.head?.any (48 < ·)) &&
    decide (decimal text ≤ 255)

/-- An IPv4 address: four octets with dots in between. -/
def isDotted (text : List UInt8) : Bool :=
  let octets := text.splitOn 46
  decide (octets.length = 4) && octets.all isOctet

def localhost : List UInt8 := bytesOf "127.0.0.1"

/-- Where the server listens. -/
def Constants.serverAddr : List UInt8 := bytesOf "127.0.0.1"

/-- A host without a network: it parses IPv4 addresses, and has only 127.0.0.1. -/
def Asio.loopback : Asio where
  makeAddress := isDotted
  bindUdp addr _ := addr = localhost
  bindTcp addr _ := addr = localhost

theorem Asio.makeAddress_loopback : Asio.loopback.makeAddress localhost = true := by decide

example : isDotted (bytesOf "10.0.0.2") = true ∧ isDotted (bytesOf "256.0.0.1") = false ∧
    isDotted (bytesOf "1") = false ∧ isDotted (bytesOf "localhost") = false := by decide

end P2PWatcher
