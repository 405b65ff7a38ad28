import P2PWatcher.Machine.PubSub
import P2PWatcher.Machine.Refine
import P2PWatcher.Manager.Steps

/-!
# The parts of the server process

Seen by the sessions, by the UDP socket, or by the clients, a run of the process is a run of
the part: of `Server`, of the receive loop, and of a machine that publishes to its members
(`refines_server`, `refines_udp`, `refines_pubSub`). So what has been proved about the parts
holds in the process, whatever the other parts do in between.
-/

namespace P2PWatcher

open Memory Machine Sequence PubSub

namespace Manager

/-! ## The sessions -/

/-- What the sessions see. An accept that has failed changes nothing there. -/
def serverView : ManagerEvent → ManagerOutput → Option (ServerEvent × ServerOutput)
  | .acceptHandled _ remote, .server (.accepted k) _ => some (.accept none remote, .accepted k)
  | .read ref c, .server o _ => some (.read ref c, o)
  | _, _ => none

theorem refines_server (asio : Asio) (e : Endian) :
    Refines (step asio e) (Server.step e) Manager.server serverView := by
  have hlisten : ∀ s : Manager, s.listen.server = s.server := fun s => rfl
  constructor
  · intro s event s' o event' o' hstep hview
    cases steps_of_step hstep with
    | @acceptHandled _ _ ec remote h =>
        rcases Server.accept_cases e s.server ec remote with ⟨i, rfl, rfl, haccepts⟩ | hsame
        · rw [haccepts.output, serverView, Option.some.injEq, Prod.mk.injEq] at hview
          obtain ⟨rfl, rfl⟩ := hview
          rw [Server.step, hlisten, ← haccepts.output]
        · rw [hsame] at hview
          exact nomatch hview
    | read h =>
        obtain ⟨rfl, rfl⟩ := Prod.mk.inj (Option.some.inj hview)
        exact h
    | _ => exact nomatch hview
  · intro s event s' o hstep hview
    cases steps_of_step hstep with
    | @acceptHandled _ _ ec remote h =>
        rcases Server.accept_cases e s.server ec remote with ⟨i, rfl, rfl, haccepts⟩ | hsame
        · rw [haccepts.output] at hview
          exact nomatch hview
        · rw [hlisten, hsame]
    | read h => exact nomatch hview
    | _ => rfl

/-! ## The UDP socket -/

/-- The call and its deliveries in the words of `PubSub`. What the socket is given for them is
`BroadCast.sentTo`. -/
def BroadCast.publication (b : BroadCast) :
    Option (PubSub.Event UInt32 ClientInfo (UInt16 × List UInt8) ×
      Option (Delivery UInt32 ClientInfo (UInt16 × List UInt8))) :=
  if b.isOpen then
    some (.publish (b.dataType, b.buf), some (b.walk.toFinmap, (b.dataType, b.buf)))
  else none

/-- What the clients see. -/
def clientView : ManagerEvent → ManagerOutput →
    Option (PubSub.Event UInt32 ClientInfo (UInt16 × List UInt8) ×
      Option (Delivery UInt32 ClientInfo (UInt16 × List UInt8)))
  | .acceptHandled _ (.ok i), .server (.accepted k) _ => some (.join k i, none)
  | .read _ _, .server _ (some k) => some (.leave k, none)
  | _, .relayed b => BroadCast.publication b
  | _, .ticked b => BroadCast.publication b
  | _, _ => none

/-- The clients, as the server walks them. -/
def members (s : Manager) : Members UInt32 ClientInfo := s.server.udpCl.toFinmap

theorem toFinmap_of_sends {e : Endian} {s : Manager} {b : BroadCast} (h : b.Sends e s) :
    b.walk.toFinmap = s.members := by
  refine Finmap.ext_lookup fun k => ?_
  rw [Finmap.dlookup_list_toFinmap, List.perm_dlookup k h.nodupKeys h.walk]
  rfl

theorem step_of_publication {e : Endian} {s : Manager} {b : BroadCast} (h : b.Sends e s)
    {event : PubSub.Event UInt32 ClientInfo (UInt16 × List UInt8)}
    {o : Option (Delivery UInt32 ClientInfo (UInt16 × List UInt8))}
    (hview : BroadCast.publication b = some (event, o)) :
    PubSub.step s.members event = .ok (s.members, o) := by
  rw [BroadCast.publication] at hview
  split at hview
  · obtain ⟨rfl, rfl⟩ := Prod.mk.inj (Option.some.inj hview)
    rw [toFinmap_of_sends h]
    rfl
  · exact nomatch hview

theorem removed?_read {s : Manager} {ref : ℕ} {session : Session}
    (h : s.server.sessions[ref]? = some session) (ev : ReadEvent) :
    s.removed? (.read ref ev) = if ev = .deleting then some session.curClientId else none := by
  cases ev with
  | deleting => rw [removed?, h, if_pos rfl, Option.map_some]
  | _ => rfl

theorem refines_pubSub (asio : Asio) (e : Endian) :
    Refines (step asio e) PubSub.step Manager.members clientView := by
  constructor
  · intro s event s' o event' o' hstep hview
    cases steps_of_step hstep with
    | @acceptHandled _ _ ec remote h =>
        rcases Server.accept_cases e s.server ec remote with ⟨i, rfl, rfl, haccepts⟩ | hsame
        · rw [haccepts.output] at hview
          obtain ⟨rfl, rfl⟩ := Prod.mk.inj (Option.some.inj hview)
          rw [PubSub.step, members, members, listen, haccepts.udpCl]
          exact congrArg (fun m => Except.ok (m, none)) (Finmap.insert_toFinmap ..)
        · rw [hsame] at hview
          cases remote <;> exact nomatch hview
    | @read ref c server o'' h =>
        obtain ⟨session, ev, hreads⟩ := Server.read_cases h
        obtain rfl := hreads.output
        rw [removed?_read hreads.found] at hview
        split at hview
        · next hdel =>
            obtain ⟨rfl, rfl⟩ := Prod.mk.inj (Option.some.inj hview)
            rw [PubSub.step, members, members, hreads.udpCl, if_pos hdel]
            exact congrArg (fun m => Except.ok (m, none)) (Finmap.erase_toFinmap ..)
        · exact nomatch hview
    | relayed h hb => exact step_of_publication hb hview
    | ticked time h hb _ _ => exact step_of_publication hb hview
    | _ => exact nomatch hview
  · intro s event s' o hstep hview
    cases steps_of_step hstep with
    | @acceptHandled _ _ ec remote h =>
        rcases Server.accept_cases e s.server ec remote with ⟨i, rfl, rfl, haccepts⟩ | hsame
        · rw [haccepts.output] at hview
          exact nomatch hview
        · rw [members, members, listen, hsame]
    | @read ref c server o'' h =>
        obtain ⟨session, ev, hreads⟩ := Server.read_cases h
        obtain rfl := hreads.output
        rw [removed?_read hreads.found] at hview
        split at hview
        · exact nomatch hview
        · next hdel => rw [members, members, hreads.udpCl, if_neg hdel]
    | _ => rfl

end Manager

end P2PWatcher
