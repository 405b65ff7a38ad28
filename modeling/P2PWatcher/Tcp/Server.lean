import P2PWatcher.Tcp.Stream
import Mathlib.Data.List.AList

/-!
# The server and its clients

The server keeps two maps from client ids, in two objects: `AsioTcpManager::cl_`
holds the sessions and `AsioUdpManager::cl_` their addresses. The accept handler
fills both with three statements, and the two slots of `signal_deleting` empty them.
A step of the server is one completed handler: an accept, or a read of one of the
sessions. Sessions are referred to by their position in the list of all sessions ever
made, as the handlers keep a session alive that is no longer in the map. The
static id is a `u32` and wraps around, and then a new client takes the place of
an old one in both maps.

`maps_agree_of_completes`: in every run the maps have the same keys, and hold for each
key the remote endpoint of the session stored under it.
-/

namespace P2PWatcher

open Memory Machine

structure Session where
  /-- the remote endpoint of the socket -/
  remote : ClientInfo
  curClientId : UInt32
  chain : ReadChain := {}
  /-- what was handed to `async_write` -/
  sent : List (List UInt8) := []
  deriving DecidableEq

structure Server where
  sessions : List Session := []
  tcpCl : AList fun _ : UInt32 => ℕ := ∅
  udpCl : AList fun _ : UInt32 => ClientInfo := ∅
  nextId : UInt32 := 0

/-- A completed handler. -/
inductive ServerEvent where
  /-- an accept with its error, and what the socket says about its remote endpoint -/
  | accept (ec : Option ErrorCode) (remote : Except ErrorCode ClientInfo)
  /-- a read of a session -/
  | read (ref : ℕ) (c : Completion)

inductive ServerOutput where
  | accepted (clientId : UInt32)
  | notAccepted
  | read (ref : ℕ) (ev : ReadEvent)
  deriving DecidableEq

/-- Why a run ends: the event cannot happen, or a handler leaves its buffers. -/
inductive Stop where
  | refused (why : Refusal)
  | fault (f : Fault)
  deriving DecidableEq, Repr

def AsioUdpManager.createClient (cl : AList fun _ : UInt32 => ClientInfo) (clientId : UInt32)
    (i : ClientInfo) : AList fun _ : UInt32 => ClientInfo :=
  cl.insert clientId i

def AsioUdpManager.removeClient (cl : AList fun _ : UInt32 => ClientInfo)
    (clientId : UInt32) : AList fun _ : UInt32 => ClientInfo :=
  if clientId ∈ cl then cl.erase clientId else cl

def AsioTcpManager.removeClient (cl : AList fun _ : UInt32 => ℕ) (clientId : UInt32) :
    AList fun _ : UInt32 => ℕ :=
  if clientId ∈ cl then cl.erase clientId else cl

theorem erase_of_notMem {β : Type} {cl : AList fun _ : UInt32 => β} {clientId : UInt32}
    (h : clientId ∉ cl) : cl.erase clientId = cl :=
  AList.ext (List.kerase_of_notMem_keys h)

theorem AsioTcpManager.removeClient_eq_erase (cl : AList fun _ : UInt32 => ℕ)
    (clientId : UInt32) : AsioTcpManager.removeClient cl clientId = cl.erase clientId := by
  rw [AsioTcpManager.removeClient]
  split
  · rfl
  · next h => exact (erase_of_notMem h).symm

theorem AsioUdpManager.removeClient_eq_erase (cl : AList fun _ : UInt32 => ClientInfo)
    (clientId : UInt32) : AsioUdpManager.removeClient cl clientId = cl.erase clientId := by
  rw [AsioUdpManager.removeClient]
  split
  · rfl
  · next h => exact (erase_of_notMem h).symm

/-- What the server does with the session of a new client: it sends the first data
and starts the read loop. The slots of the signals are part of `Server.read`. -/
def AsioTcpManager.createClient (e : Endian) (session : Session) (i : ClientInfo) : Session :=
  let first : TcpData.FirstData := { clientAddr := i.addr, clientPort := i.port }
  { session with
    chain := {}
    sent := session.sent ++ (AsioTcpClientSession.doSend e true TcpData.DataTypes.firstData
      (first.serialize e)).toList }

namespace Server

/-- The accept handler. -/
def accept (e : Endian) (s : Server) (ec : Option ErrorCode)
    (remote : Except ErrorCode ClientInfo) : Server × ServerOutput :=
  match ec, remote with
  | none, .ok i =>
      let id := s.nextId
      let session : Session := { remote := i, curClientId := id }
      ({ sessions := s.sessions ++ [AsioTcpManager.createClient e session i]
         tcpCl := s.tcpCl.insert id s.sessions.length
         udpCl := AsioUdpManager.createClient s.udpCl id i
         nextId := id + 1 }, .accepted id)
  | _, _ => (s, .notAccepted)

/-- The slots of `signal_deleting`, in the order in which they were connected. -/
def signalDeleting (s : Server) (clientId : UInt32) : Server :=
  { s with
    udpCl := AsioUdpManager.removeClient s.udpCl clientId
    tcpCl := AsioTcpManager.removeClient s.tcpCl clientId }

/-- The handler of a read of the session `ref`. -/
def read (e : Endian) (s : Server) (ref : ℕ) (c : Completion) :
    Except Stop (Server × ServerOutput) :=
  match s.sessions[ref]? with
  | none => .error (.refused .noRead)
  | some session =>
      match AsioTcpClientSession.doRead e session.chain c with
      | .error why => .error (.refused why)
      | .ok (chain, ev) =>
          let s' := { s with sessions := s.sessions.set ref { session with chain } }
          match ev with
          | .deleting => .ok (s'.signalDeleting session.curClientId, .read ref ev)
          | .process buffer =>
              match AsioTcpManager.processPacket e buffer with
              | .error f => .error (.fault f)
              | .ok _ => .ok (s', .read ref ev)
          | _ => .ok (s', .read ref ev)

def step (e : Endian) (s : Server) : ServerEvent → Except Stop (Server × ServerOutput)
  | .accept ec remote => .ok (s.accept e ec remote)
  | .read ref c => s.read e ref c

/-! ## What a step can do -/

/-- A new client. -/
structure Accepts (s : Server) (i : ClientInfo) (s' : Server)
    (o : ServerOutput) : Prop where
  sessions : ∃ sent, s'.sessions = s.sessions ++
    [{ remote := i, curClientId := s.nextId, chain := {}, sent }]
  tcpCl : s'.tcpCl = s.tcpCl.insert s.nextId s.sessions.length
  udpCl : s'.udpCl = s.udpCl.insert s.nextId i
  nextId : s'.nextId = s.nextId + 1
  output : o = .accepted s.nextId

/-- A read of the session `ref`. -/
structure Reads (e : Endian) (s : Server) (ref : ℕ) (c : Completion) (session : Session)
    (ev : ReadEvent) (s' : Server) (o : ServerOutput) : Prop where
  found : s.sessions[ref]? = some session
  sessions : ∃ chain, AsioTcpClientSession.doRead e session.chain c = .ok (chain, ev) ∧
    s'.sessions = s.sessions.set ref { session with chain }
  tcpCl : s'.tcpCl = if ev = .deleting then s.tcpCl.erase session.curClientId else s.tcpCl
  udpCl : s'.udpCl = if ev = .deleting then s.udpCl.erase session.curClientId else s.udpCl
  nextId : s'.nextId = s.nextId
  output : o = .read ref ev
  process : ∀ buffer, ev = .process buffer →
    ∃ effect, AsioTcpManager.processPacket e buffer = .ok effect

theorem accept_cases (e : Endian) (s : Server) (ec : Option ErrorCode)
    (remote : Except ErrorCode ClientInfo) :
    (∃ i, ec = none ∧ remote = .ok i ∧
      Accepts s i (s.accept e ec remote).1 (s.accept e ec remote).2) ∨
    s.accept e ec remote = (s, .notAccepted) := by
  rcases ec with _ | ec
  · rcases remote with _ | i
    · exact .inr rfl
    · exact .inl ⟨i, rfl, rfl, ⟨_, rfl⟩, rfl, rfl, rfl, rfl⟩
  · exact .inr rfl

theorem read_cases {e : Endian} {s s' : Server} {ref : ℕ} {c : Completion} {o : ServerOutput}
    (h : s.read e ref c = .ok (s', o)) : ∃ session ev, Reads e s ref c session ev s' o := by
  rw [read] at h
  split at h
  · exact nomatch h
  · next session hsession =>
      split at h
      · exact nomatch h
      · next chain ev hread =>
          refine ⟨session, ev, ?_⟩
          cases ev with
          | deleting =>
              obtain ⟨rfl, rfl⟩ := Prod.mk.inj (Except.ok.inj h)
              refine ⟨hsession, ⟨chain, hread, rfl⟩, ?_, ?_, rfl, rfl, fun _ hp => nomatch hp⟩
              · exact AsioTcpManager.removeClient_eq_erase ..
              · exact AsioUdpManager.removeClient_eq_erase ..
          | process buffer =>
              simp only at h
              split at h
              · exact nomatch h
              · next effect hprocess =>
                  obtain ⟨rfl, rfl⟩ := Prod.mk.inj (Except.ok.inj h)
                  refine ⟨hsession, ⟨chain, hread, rfl⟩, by simp, by simp, rfl, rfl, ?_⟩
                  rintro _ ⟨⟩
                  exact ⟨effect, hprocess⟩
          | disconnected | bodyError | bodyStarted n =>
              obtain ⟨rfl, rfl⟩ := Prod.mk.inj (Except.ok.inj h)
              exact ⟨hsession, ⟨chain, hread, rfl⟩, by simp, by simp, rfl, rfl,
                fun _ hp => nomatch hp⟩

/-- The three ways of a step. -/
theorem step_cases {e : Endian} {s s' : Server} {event : ServerEvent} {o : ServerOutput}
    (h : s.step e event = .ok (s', o)) :
    (∃ i, event = .accept none (.ok i) ∧ Accepts s i s' o) ∨
    (∃ ec remote, event = .accept ec remote ∧ s' = s ∧ o = .notAccepted) ∨
    ∃ ref c session ev, event = .read ref c ∧ Reads e s ref c session ev s' o := by
  cases event with
  | accept ec remote =>
      have heq : s.accept e ec remote = (s', o) := Except.ok.inj h
      rcases accept_cases e s ec remote with ⟨i, rfl, rfl, haccepts⟩ | hsame
      · rw [heq] at haccepts
        exact .inl ⟨i, rfl, haccepts⟩
      · rw [hsame] at heq
        obtain ⟨rfl, rfl⟩ := Prod.mk.inj heq
        exact .inr (.inl ⟨ec, remote, rfl, rfl, rfl⟩)
  | read ref c =>
      obtain ⟨session, ev, hreads⟩ := read_cases h
      exact .inr (.inr ⟨ref, c, session, ev, rfl, hreads⟩)

/-- The session of the new client. -/
theorem Accepts.exists_session {s s' : Server} {i : ClientInfo} {o : ServerOutput}
    (h : Accepts s i s' o) : ∃ t : Session, s'.sessions[s.sessions.length]? = some t ∧
      t.curClientId = s.nextId := by
  obtain ⟨sent, hsessions⟩ := h.sessions
  rw [hsessions, List.getElem?_concat_length]
  exact ⟨_, rfl, rfl⟩

theorem Accepts.session_cases {s s' : Server} {i : ClientInfo} {o : ServerOutput}
    (h : Accepts s i s' o) {r : ℕ} {t : Session} (ht : s'.sessions[r]? = some t) :
    s.sessions[r]? = some t ∨ r = s.sessions.length ∧ t.curClientId = s.nextId ∧
      t.chain = {} := by
  obtain ⟨sent, hsessions⟩ := h.sessions
  have hlen := (List.getElem?_eq_some_iff.mp ht).1
  rw [hsessions, List.length_append, List.length_singleton] at hlen
  rw [hsessions] at ht
  by_cases hr : r < s.sessions.length
  · rw [List.getElem?_append_left hr] at ht
    exact .inl ht
  · obtain rfl : r = s.sessions.length := by omega
    rw [List.getElem?_concat_length] at ht
    obtain rfl := Option.some.inj ht
    exact .inr ⟨rfl, rfl, rfl⟩

/-- The session of a read, behind it. -/
theorem Reads.exists_session {e : Endian} {s s' : Server} {ref : ℕ} {c : Completion}
    {session : Session} {ev : ReadEvent} {o : ServerOutput}
    (h : Reads e s ref c session ev s' o) : ∃ t : Session, s'.sessions[ref]? = some t ∧
      t.curClientId = session.curClientId := by
  obtain ⟨chain, -, hsessions⟩ := h.sessions
  rw [hsessions, List.getElem?_set_self (List.getElem?_eq_some_iff.mp h.found).1]
  exact ⟨_, rfl, rfl⟩

theorem Reads.session_before {e : Endian} {s s' : Server} {ref : ℕ} {c : Completion}
    {session : Session} {ev : ReadEvent} {o : ServerOutput}
    (h : Reads e s ref c session ev s' o) {r : ℕ} {t : Session}
    (ht : s'.sessions[r]? = some t) :
    ∃ t' : Session, s.sessions[r]? = some t' ∧ t'.curClientId = t.curClientId := by
  obtain ⟨chain, -, hsessions⟩ := h.sessions
  rw [hsessions, List.getElem?_set] at ht
  split at ht
  · next hr =>
      subst hr
      rw [if_pos (List.getElem?_eq_some_iff.mp h.found).1] at ht
      exact ⟨session, h.found, by rw [← Option.some.inj ht]⟩
  · exact ⟨t, ht, rfl⟩

/-- Sessions are never forgotten, and all that changes in them is the loop. -/
theorem exists_session_of_step {e : Endian} {s s' : Server} {event : ServerEvent}
    {o : ServerOutput} (h : s.step e event = .ok (s', o)) {r : ℕ} {t : Session}
    (ht : s.sessions[r]? = some t) : ∃ chain, s'.sessions[r]? = some { t with chain } := by
  have hlt : r < s.sessions.length := (List.getElem?_eq_some_iff.mp ht).1
  rcases step_cases h with ⟨i, -, haccepts⟩ | ⟨_, _, -, rfl, -⟩ | ⟨ref, c, session, ev, -, hreads⟩
  · obtain ⟨sent, hsessions⟩ := haccepts.sessions
    exact ⟨t.chain, by rw [hsessions, List.getElem?_append_left hlt, ht]⟩
  · exact ⟨t.chain, ht⟩
  · obtain ⟨chain, -, hsessions⟩ := hreads.sessions
    by_cases hr : ref = r
    · subst hr
      obtain rfl := Option.some.inj (hreads.found.symm.trans ht)
      exact ⟨chain, by rw [hsessions, List.getElem?_set_self hlt]⟩
    · exact ⟨t.chain, by rw [hsessions, List.getElem?_set_ne hr, ht]⟩

theorem exists_session_of_completes {e : Endian} {events : List ServerEvent} {s s' : Server}
    {os : List ServerOutput} (h : Completes (Server.step e) s events s' os) {r : ℕ}
    {t : Session} (ht : s.sessions[r]? = some t) :
    ∃ chain, s'.sessions[r]? = some { t with chain } := by
  refine invariant_of_completes (P := fun s => ∃ chain, s.sessions[r]? = some { t with chain })
    ?_ h ⟨t.chain, ht⟩
  rintro s event s' o ⟨chain, ht₁⟩ hstep
  obtain ⟨chain', ht₂⟩ := exists_session_of_step hstep ht₁
  exact ⟨chain', ht₂⟩

/-! ## The two maps -/

/-- The maps have the same keys, and the address under a key is the remote endpoint of the
session under it. -/
structure InStep (s : Server) : Prop where
  keys : ∀ k, k ∈ s.tcpCl ↔ k ∈ s.udpCl
  info : ∀ k ref, s.tcpCl.lookup k = some ref → ∃ session, s.sessions[ref]? = some session ∧
    s.udpCl.lookup k = some session.remote

theorem inStep_start : InStep {} :=
  ⟨fun _ => Iff.rfl, fun _ _ h => nomatch h⟩

theorem InStep.accepts {s s' : Server} {i : ClientInfo} {o : ServerOutput} (hs : InStep s)
    (h : Accepts s i s' o) : InStep s' := by
  obtain ⟨sent, hsessions⟩ := h.sessions
  constructor
  · intro k
    rw [h.tcpCl, h.udpCl, AList.mem_insert, AList.mem_insert, hs.keys k]
  · intro k ref hk
    rw [h.tcpCl] at hk
    rw [h.udpCl, hsessions]
    by_cases hkey : k = s.nextId
    · subst hkey
      rw [AList.lookup_insert, Option.some.injEq] at hk
      subst hk
      exact ⟨_, List.getElem?_concat_length, AList.lookup_insert _⟩
    · rw [AList.lookup_insert_ne hkey] at hk
      obtain ⟨session, hsession, hinfo⟩ := hs.info k ref hk
      refine ⟨session, ?_, ?_⟩
      · rw [List.getElem?_append_left (List.getElem?_eq_some_iff.mp hsession).1, hsession]
      · rw [AList.lookup_insert_ne hkey, hinfo]

/-- An entry that a read leaves in the maps is that of the same session. -/
theorem InStep.reads {e : Endian} {s s' : Server} {ref : ℕ} {c : Completion}
    {session : Session} {ev : ReadEvent} {o : ServerOutput} (hs : InStep s)
    (h : Reads e s ref c session ev s' o)
    (hinfo : ∀ (k : UInt32) (r : ℕ), s.tcpCl.lookup k = some r →
      ∃ t : Session, s'.sessions[r]? = some t ∧ s.udpCl.lookup k = some t.remote) :
    InStep s' := by
  have htcp := h.tcpCl
  have hudp := h.udpCl
  by_cases hdel : ev = .deleting
  · rw [if_pos hdel] at htcp hudp
    constructor
    · intro k
      rw [htcp, hudp, AList.mem_erase, AList.mem_erase, hs.keys k]
    · intro k r hk
      rw [htcp] at hk
      by_cases hkey : k = session.curClientId
      · rw [hkey, AList.lookup_erase] at hk
        exact nomatch hk
      · rw [AList.lookup_erase_ne hkey] at hk
        rw [hudp, AList.lookup_erase_ne hkey]
        exact hinfo k r hk
  · rw [if_neg hdel] at htcp hudp
    constructor
    · intro k
      rw [htcp, hudp, hs.keys k]
    · intro k r hk
      rw [htcp] at hk
      rw [hudp]
      exact hinfo k r hk

theorem InStep.step {e : Endian} {s s' : Server} {event : ServerEvent} {o : ServerOutput}
    (hs : InStep s) (h : s.step e event = .ok (s', o)) : InStep s' := by
  rcases step_cases h with ⟨i, -, haccepts⟩ | ⟨_, _, -, rfl, -⟩ | ⟨ref, c, session, ev, -, hreads⟩
  · exact hs.accepts haccepts
  · exact hs
  · refine hs.reads hreads fun k r hk => ?_
    obtain ⟨t, ht, hlookup⟩ := hs.info k r hk
    obtain ⟨chain, ht'⟩ := exists_session_of_step h ht
    exact ⟨_, ht', hlookup⟩

/-- In every run of the server, behind every completed handler. -/
theorem maps_agree_of_completes (e : Endian) (events : List ServerEvent) (s : Server)
    (os : List ServerOutput) (h : Completes (Server.step e) {} events s os) :
    (∀ k, k ∈ s.tcpCl ↔ k ∈ s.udpCl) ∧
      ∀ k ref, s.tcpCl.lookup k = some ref → ∃ session, s.sessions[ref]? = some session ∧
        s.udpCl.lookup k = some session.remote := by
  have hstep : InStep s := invariant_of_completes
    (fun _ _ _ _ hs hstep => InStep.step hs hstep) h inStep_start
  exact ⟨hstep.keys, hstep.info⟩

/-- Two clients, of which the first closes its connection. -/
theorem maps_agree_twoClients :
    ∃ s : Server, s.tcpCl.keys = [1] ∧ (∀ k, k ∈ s.tcpCl ↔ k ∈ s.udpCl) ∧
      ∀ k ref, s.tcpCl.lookup k = some ref → ∃ session, s.sessions[ref]? = some session ∧
        s.udpCl.lookup k = some session.remote := by
  have h : Completes (Server.step .little) {} [.accept none (.ok localClient),
      .accept none (.ok { addr := localhost, port := 50001 }), .accept (some (.other 24)) (.ok {}),
      .read 0 { data := [], ec := some .eof }] _
      [.accepted 0, .accepted 1, .notAccepted, .read 0 .deleting] := rfl
  exact ⟨_, rfl, maps_agree_of_completes .little _ _ _ h⟩

end Server

end P2PWatcher
