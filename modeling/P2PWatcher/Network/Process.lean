import P2PWatcher.Manager.Alive
import P2PWatcher.Network.MainClient

/-!
# The server and its clients on a network

One server process and any number of client processes. What they hand to their UDP sockets
is kept in two logs, the datagrams of the clients and those of the server. A process may
receive a datagram that is in the log of the other side, at any time and as often as the
network likes, or never; a client only what was sent to the endpoint that its socket is bound
to. So datagrams are lost, repeated and reordered, but not made up. Nothing
is assumed of the TCP connections: any bytes may come over them and any of them may fail.
-/

namespace P2PWatcher

open Memory Machine

structure Network where
  server : Manager := Manager.start
  clients : ℕ → MainClient := fun _ => {}
  /-- what the clients have sent, with the targets -/
  toServer : List (ClientInfo × List UInt8) := []
  /-- what the server has sent, with the targets -/
  toClients : List (ClientInfo × List UInt8) := []

inductive NetworkEvent where
  | server (event : ManagerEvent)
  | client (k : ℕ) (event : MainClientEvent)

inductive NetworkOutput where
  | server (o : ManagerOutput)
  | client (k : ℕ) (o : MainClientOutput)

inductive NetworkStop where
  /-- nobody has sent this datagram there -/
  | notSent
  | server (why : ManagerStop)
  | client (k : ℕ) (why : MainClientStop)

/-- The datagrams of a call of `broadCast`, with their targets. -/
def BroadCast.datagrams (b : BroadCast) : List (ClientInfo × List UInt8) :=
  b.sent.flatMap fun x => x.2.map fun d => (x.1, d)

/-- The endpoint that the UDP socket is bound to. -/
def Client.endpoint? (s : Client) : Option ClientInfo :=
  s.bound.map fun a => { addr := a.clientAddr, port := a.clientPort }

/-- What the server hands to its UDP socket in a step. -/
def ManagerOutput.datagrams : ManagerOutput → List (ClientInfo × List UInt8)
  | .relayed b | .ticked b => b.datagrams
  | _ => []

/-- What a client hands to its UDP socket in a step. -/
def MainClientOutput.datagrams : MainClientOutput → List (ClientInfo × List UInt8)
  | .sent datagrams => datagrams
  | _ => []

namespace Network

/-- The datagrams that have been sent to where the client `k` listens. -/
def sentTo (n : Network) (k : ℕ) : List (List UInt8) :=
  (n.toClients.filter fun x => (n.clients k).conn.endpoint? = some x.1).map Prod.snd

/-- The datagram that comes with the event, and those of which it can be one. -/
def received? (n : Network) : NetworkEvent → Option (List UInt8 × List (List UInt8))
  | .server (.received _ (.ok d)) => some (d, n.toServer.map Prod.snd)
  | .client k (.conn (.datagram _ (.ok d))) => some (d, n.sentTo k)
  | _ => none

/-- What is received has been sent. -/
def CanHappen (n : Network) (event : NetworkEvent) : Prop := ∀ x ∈ n.received? event, x.1 ∈ x.2

instance (n : Network) : DecidablePred n.CanHappen := fun event =>
  inferInstanceAs (Decidable (∀ x ∈ n.received? event, x.1 ∈ x.2))

/-- The hosts are that of the server and those of the clients. -/
def step (asio : Asio) (hosts : ℕ → Asio) (e : Endian) (n : Network) (event : NetworkEvent) :
    Except NetworkStop (Network × NetworkOutput) :=
  if n.CanHappen event then
    match event with
    | .server event =>
        match n.server.step asio e event with
        | .error why => .error (.server why)
        | .ok (server, o) =>
            .ok ({ n with server, toClients := n.toClients ++ o.datagrams }, .server o)
    | .client k event =>
        match (n.clients k).step (hosts k) e event with
        | .error why => .error (.client k why)
        | .ok (client, o) => .ok ({ n with
            clients := Function.update n.clients k client
            toServer := n.toServer ++ o.datagrams }, .client k o)
  else .error .notSent

end Network

end P2PWatcher
