import P2PWatcher.Tcp.Server

/-!
# The end of a connection

A connection can end anywhere in its stream and with any error. The outer handler
of the read loop removes the client at the end of the stream; the inner handler
only logs its error. So a session that has stopped is removed exactly when its
stream ended with `eof` and not inside the body of a frame (`removed_iff`). This is a
statement about all runs of the server: the completions of a session are those of its
connection (`Feeds`), and the other sessions do what they want. After 2^32 clients the
server gives an id out again, and then an older or a newer session with the same id has a say
as well (`Vacated`).
-/

namespace P2PWatcher

open Memory Machine

/-! ## Streams -/

/-- The stream ends inside the body of a frame. -/
def endsInBody (e : Endian) (bytes : List UInt8) : Bool :=
  if 4 ≤ bytes.length then
    let n := (get32 e (bytes.take 4)).toNat
    decide ((bytes.drop 4).length < n) || endsInBody e ((bytes.drop 4).drop n)
  else false
termination_by bytes.length
decreasing_by
  rw [List.length_drop, List.length_drop]
  omega

theorem endsInBody_of_lt (e : Endian) {bytes : List UInt8} (h : bytes.length < 4) :
    endsInBody e bytes = false := by
  rw [endsInBody, if_neg (Nat.not_le.mpr h)]

theorem endsInBody_of_le (e : Endian) {bytes : List UInt8} (h : 4 ≤ bytes.length) :
    endsInBody e bytes =
      (decide ((bytes.drop 4).length < (get32 e (bytes.take 4)).toNat) ||
        endsInBody e ((bytes.drop 4).drop (get32 e (bytes.take 4)).toNat)) := by
  rw [endsInBody, if_pos h]

/-- The peer closes the connection at a frame boundary or inside a length. -/
def Conn.EndsOutsideBody (e : Endian) (conn : Conn) : Prop :=
  conn.ending = .eof ∧ endsInBody e conn.bytes = false

instance (e : Endian) (conn : Conn) : Decidable (conn.EndsOutsideBody e) :=
  inferInstanceAs (Decidable (_ ∧ _))

namespace ReadChain

/-- The completions are those of the reads of the loop from `conn`. When a read has failed no
more bytes arrive, and how the later reads fail is left open. -/
inductive Feeds (e : Endian) : ReadChain → Conn → List Completion → Prop where
  | nil (s : ReadChain) (conn : Conn) : Feeds e s conn []
  | read {s s' : ReadChain} {conn : Conn} {n : ℕ} {ev : ReadEvent} {cs : List Completion}
      (hn : s.pending = some n) (hec : (conn.read n).1.ec = none)
      (hstep : AsioTcpClientSession.doRead e s (conn.read n).1 = .ok (s', ev))
      (hrest : Feeds e s' (conn.read n).2 cs) : Feeds e s conn ((conn.read n).1 :: cs)
  | ends {s : ReadChain} {conn : Conn} {n : ℕ} {cs : List Completion}
      (hn : s.pending = some n) (hec : (conn.read n).1.ec ≠ none)
      (hrest : ∀ c ∈ cs, c.data = []) : Feeds e s conn ((conn.read n).1 :: cs)

theorem Feeds.of_append {e : Endian} {s : ReadChain} {conn : Conn} {cs cs' : List Completion}
    (h : Feeds e s conn (cs ++ cs')) : Feeds e s conn cs := by
  induction cs generalizing s conn with
  | nil => exact .nil s conn
  | cons c cs ih =>
      cases h with
      | read hn hec hstep hrest => exact .read hn hec hstep (ih hrest)
      | ends hn hec hrest =>
          exact .ends hn hec fun c hc => hrest c (List.mem_append_left _ hc)

/-- What is left of the stream behind the pending read ends inside a body, or this read
does. -/
def stopsInBody (e : Endian) (s : ReadChain) (conn : Conn) : Bool :=
  match s.phase with
  | .length => endsInBody e conn.bytes
  | .body => decide (conn.bytes.length < s.buffer.length) ||
      endsInBody e (conn.bytes.drop s.buffer.length)
  | .stopped => false

theorem completes_of_stopped {atEof : ReadEvent} {e : Endian} {s s' : ReadChain}
    (hs : s.phase = .stopped) {cs : List Completion} {evs : List ReadEvent}
    (h : Completes (step atEof e) s cs s' evs) : s = s' ∧ cs = [] ∧ evs = [] := by
  cases cs with
  | nil =>
      obtain ⟨rfl, rfl⟩ := (completes_nil_iff _ _ _ _).mp h
      exact ⟨rfl, rfl, rfl⟩
  | cons c cs =>
      obtain ⟨s₁, ev, evs', hstep, -, -⟩ := (completes_cons_iff _ _ _ _ _ _).mp h
      exact absurd hs (phase_ne_stopped_of_step hstep)

/-- A successful read changes nothing about where the stream ends. -/
theorem stopsInBody_read {e : Endian} {s s' : ReadChain} {conn : Conn} {n : ℕ} {ev : ReadEvent}
    (hn : s.pending = some n) (hec : (conn.read n).1.ec = none)
    (h : AsioTcpClientSession.doRead e s (conn.read n).1 = .ok (s', ev)) :
    stopsInBody e s conn = stopsInBody e s' (conn.read n).2 := by
  have hle : n ≤ conn.bytes.length := by
    by_contra hlt
    rw [Conn.read_ec, if_neg hlt] at hec
    exact nomatch hec
  rcases step_cases h with hcase | hcase | hcase | hcase
  · rw [hcase.ec] at hec
    exact nomatch hec
  · rw [pending, hcase.phase] at hn
    obtain rfl := Option.some.inj hn
    have hlen : (conn.read 4).1.data.length = (put32 e s.size).length := by
      rw [put32_length]
      exact hcase.valid.2.mp hec
    have hsize : s'.size = get32 e (conn.bytes.take 4) := by
      rw [hcase.size, overlay_of_length_eq hlen, Conn.read_data]
    rw [stopsInBody, stopsInBody, hcase.phase, hcase.phase']
    simp only
    rw [endsInBody_of_le e hle, Conn.read_bytes, hcase.length, hsize]
  · exact absurd hec hcase.ec
  · rw [pending, hcase.phase] at hn
    obtain rfl := Option.some.inj hn
    rw [stopsInBody, stopsInBody, hcase.phase, hcase.phase']
    simp only
    rw [Conn.read_bytes, decide_eq_false (Nat.not_lt.mpr hle), Bool.false_or]

/-- A body read that gets no bytes is the last one, unless it has none to get. -/
theorem deleting_notMem_of_body {e : Endian} {s s' : ReadChain} {cs : List Completion}
    {evs : List ReadEvent} (h : Completes (AsioTcpClientSession.doRead e) s cs s' evs)
    (hs : s.phase = .body) (hdata : ∀ c ∈ cs, c.data = []) (hprocess : .process [] ∉ evs) :
    .deleting ∉ evs := by
  cases cs with
  | nil =>
      obtain ⟨-, rfl⟩ := (completes_nil_iff _ _ _ _).mp h
      exact List.not_mem_nil
  | cons c cs =>
      obtain ⟨s₁, ev, evs', hstep, hrun, rfl⟩ := (completes_cons_iff _ _ _ _ _ _).mp h
      rcases step_cases hstep with hcase | hcase | hcase | hcase
      · exact absurd (hs.symm.trans hcase.phase) (by decide)
      · exact absurd (hs.symm.trans hcase.phase) (by decide)
      · obtain ⟨-, -, rfl⟩ := completes_of_stopped hcase.phase' hrun
        rw [hcase.event]
        simp
      · rw [hcase.event, hdata c (List.mem_cons_self ..)] at hprocess
        exact absurd (List.mem_cons_self ..) hprocess

/-- A loop that has stopped has emitted `signal_deleting` exactly when its connection was
closed outside a body. -/
theorem deleting_mem_iff {e : Endian} {s s' : ReadChain} {conn : Conn} {cs : List Completion}
    (hfeeds : Feeds e s conn cs) {evs : List ReadEvent}
    (h : Completes (AsioTcpClientSession.doRead e) s cs s' evs) (hs : s.phase ≠ .stopped)
    (hs' : s'.phase = .stopped) (hprocess : .process [] ∉ evs) :
    .deleting ∈ evs ↔ conn.ending = .eof ∧ stopsInBody e s conn = false := by
  induction hfeeds generalizing evs with
  | nil s conn =>
      obtain ⟨rfl, -⟩ := (completes_nil_iff _ _ _ _).mp h
      exact absurd hs' hs
  | @read s s₁ conn n ev cs hn hec hstep hrest ih =>
      obtain ⟨evs', hrun, rfl⟩ := completes_of_cons hstep h
      have hgoes : s₁.phase ≠ .stopped ∧ ev ≠ .deleting := by
        rcases step_cases hstep with hcase | hcase | hcase | hcase
        · exact absurd (hcase.ec.symm.trans hec) (by simp)
        · rw [hcase.phase', hcase.event]
          simp
        · exact absurd hec hcase.ec
        · rw [hcase.phase', hcase.event]
          simp
      rw [stopsInBody_read hn hec hstep, ← conn.read_ending n,
        ← ih hrun hgoes.1 fun hmem => hprocess (List.mem_cons_of_mem _ hmem)]
      exact List.mem_cons.trans (or_iff_right hgoes.2.symm)
  | @ends s conn n cs hn hec hrest =>
      obtain ⟨s₁, ev, evs', hstep, hrun, rfl⟩ := (completes_cons_iff _ _ _ _ _ _).mp h
      have hlt : conn.bytes.length < n := by
        by_contra hle
        rw [Conn.read_ec, if_pos (Nat.not_lt.mp hle)] at hec
        exact hec rfl
      have hending : (conn.read n).1.ec = some conn.ending := by
        rw [Conn.read_ec, if_neg (Nat.not_le.mpr hlt)]
      rcases step_cases hstep with hcase | hcase | hcase | hcase
      · obtain ⟨-, -, rfl⟩ := completes_of_stopped hcase.phase' hrun
        rw [pending, hcase.phase] at hn
        obtain rfl := Option.some.inj hn
        rw [hcase.event, stopsInBody, hcase.phase]
        have heof := Option.some.inj (hending.symm.trans hcase.ec)
        simp [heof, endsInBody_of_lt e hlt]
      · -- the body read after another error fails, or has no byte to read
        have hother : conn.ending ≠ .eof := fun heof => hcase.ec (heof ▸ hending)
        refine iff_of_false (fun hmem => ?_) fun hclean => hother hclean.1
        rcases List.mem_cons.mp hmem with hev | hmem
        · exact absurd (hev.trans hcase.event) (by simp)
        · exact deleting_notMem_of_body hrun hcase.phase' hrest
            (fun hmem => hprocess (List.mem_cons_of_mem _ hmem)) hmem
      · obtain ⟨-, -, rfl⟩ := completes_of_stopped hcase.phase' hrun
        rw [pending, hcase.phase] at hn
        obtain rfl := Option.some.inj hn
        rw [hcase.event, stopsInBody, hcase.phase]
        simp [hlt]
      · exact absurd hcase.ec hec

theorem stopped_of_deleting_mem {e : Endian} {s s' : ReadChain} {cs : List Completion}
    {evs : List ReadEvent} (h : Completes (AsioTcpClientSession.doRead e) s cs s' evs)
    (hmem : .deleting ∈ evs) : s'.phase = .stopped := by
  induction cs generalizing s evs with
  | nil =>
      obtain ⟨-, rfl⟩ := (completes_nil_iff _ _ _ _).mp h
      exact nomatch hmem
  | cons c cs ih =>
      obtain ⟨s₁, ev, evs', hstep, hrun, rfl⟩ := (completes_cons_iff _ _ _ _ _ _).mp h
      rcases List.mem_cons.mp hmem with hev | hmem
      · rcases step_cases hstep with hcase | hcase | hcase | hcase
        · rw [← (completes_of_stopped hcase.phase' hrun).1]
          exact hcase.phase'
        all_goals exact absurd (hev.trans hcase.event) (by simp)
      · exact ih hrun hmem

/-- The completion that stops the loop is the one that emits the signal. -/
theorem deleting_iff {e : Endian} {s' : ReadChain} {conn : Conn} {cs : List Completion}
    {c : Completion} (hfeeds : Feeds e {} conn (cs ++ [c])) {evs : List ReadEvent}
    {ev : ReadEvent}
    (h : Completes (AsioTcpClientSession.doRead e) {} (cs ++ [c]) s' (evs ++ [ev]))
    (hprocess : .process [] ∉ evs ++ [ev]) :
    ev = .deleting ↔ s'.phase = .stopped ∧ conn.EndsOutsideBody e := by
  obtain ⟨s₁, evs₁, ev₁, hrun, hstep, heq⟩ := (completes_concat_iff _ _ _ _ _ _).mp h
  obtain ⟨rfl, hlast⟩ := List.append_inj' heq rfl
  obtain rfl := List.singleton_inj.mp hlast
  have hbefore : .deleting ∉ evs := fun hmem =>
    phase_ne_stopped_of_step hstep (stopped_of_deleting_mem hrun hmem)
  have hmem : .deleting ∈ evs ++ [ev] ↔ ev = .deleting := by
    rw [List.mem_append, List.mem_singleton, or_iff_right hbefore, eq_comm]
  rw [← hmem]
  constructor
  · intro hdel
    have hstop := stopped_of_deleting_mem h hdel
    exact ⟨hstop, (deleting_mem_iff hfeeds h (by decide) hstop hprocess).mp hdel⟩
  · rintro ⟨hstop, hclean⟩
    exact (deleting_mem_iff hfeeds h (by decide) hstop hprocess).mpr hclean

end ReadChain

/-! ## One session of the server -/

def ServerEvent.readOf? (ref : ℕ) : ServerEvent → Option Completion
  | .read r c => if r = ref then some c else none
  | .accept .. => none

def ServerOutput.readOf? (ref : ℕ) : ServerOutput → Option ReadEvent
  | .read r ev => if r = ref then some ev else none
  | _ => none

/-- The completions of the session `ref`. -/
def readsOf (ref : ℕ) (events : List ServerEvent) : List Completion :=
  events.filterMap (ServerEvent.readOf? ref)

/-- What the handlers of the session `ref` did. -/
def readEventsOf (ref : ℕ) (os : List ServerOutput) : List ReadEvent :=
  os.filterMap (ServerOutput.readOf? ref)

theorem readsOf_concat (ref : ℕ) (events : List ServerEvent) (event : ServerEvent) :
    readsOf ref (events ++ [event]) = readsOf ref events ++ (event.readOf? ref).toList := by
  rw [readsOf, List.filterMap_append, readsOf]
  cases h : event.readOf? ref <;> simp [h]

theorem readEventsOf_concat (ref : ℕ) (os : List ServerOutput) (o : ServerOutput) :
    readEventsOf ref (os ++ [o]) = readEventsOf ref os ++ (o.readOf? ref).toList := by
  rw [readEventsOf, List.filterMap_append, readEventsOf]
  cases h : o.readOf? ref <;> simp [h]

namespace Server

/-- The loop of the session `ref`; that of a session to come has not begun. -/
def chainOf (s : Server) (ref : ℕ) : ReadChain :=
  (s.sessions[ref]?.map Session.chain).getD {}

theorem chainOf_of_found {s : Server} {ref : ℕ} {session : Session}
    (h : s.sessions[ref]? = some session) : s.chainOf ref = session.chain := by
  rw [chainOf, h]
  rfl

theorem Accepts.chainOf {s s' : Server} {i : ClientInfo} {o : ServerOutput}
    (h : Accepts s i s' o) (ref : ℕ) : s'.chainOf ref = s.chainOf ref := by
  obtain ⟨sent, hsessions⟩ := h.sessions
  rw [Server.chainOf, Server.chainOf, hsessions, List.getElem?_append]
  split
  · rfl
  · next hle =>
      rw [List.getElem?_eq_none (Nat.not_lt.mp hle), List.getElem?_singleton]
      split <;> rfl

theorem Reads.chainOf {e : Endian} {s s' : Server} {ref : ℕ} {c : Completion}
    {session : Session} {ev : ReadEvent} {o : ServerOutput}
    (h : Reads e s ref c session ev s' o) (r : ℕ) :
    if ref = r then AsioTcpClientSession.doRead e (s.chainOf r) c = .ok (s'.chainOf r, ev)
    else s'.chainOf r = s.chainOf r := by
  obtain ⟨chain, hread, hsessions⟩ := h.sessions
  have hlt : ref < s.sessions.length := (List.getElem?_eq_some_iff.mp h.found).1
  split
  · next hr =>
      subst hr
      have hfound : s'.sessions[ref]? = some { session with chain } := by
        rw [hsessions, List.getElem?_set_self hlt]
      rw [chainOf_of_found h.found, chainOf_of_found hfound]
      exact hread
  · next hr => rw [Server.chainOf, Server.chainOf, hsessions, List.getElem?_set_ne hr]

/-- The run of the server, seen from a session, is a run of its loop. -/
theorem completes_chainOf {e : Endian} {events : List ServerEvent} {s : Server}
    {os : List ServerOutput} (h : Completes (Server.step e) {} events s os) (ref : ℕ) :
    Completes (AsioTcpClientSession.doRead e) {} (readsOf ref events) (s.chainOf ref)
      (readEventsOf ref os) := by
  have hstart : Completes (AsioTcpClientSession.doRead e) {} (readsOf ref [])
    (({} : Server).chainOf ref) (readEventsOf ref []) := rfl
  refine history_of_completes (P := fun events (s : Server) os => Completes
    (AsioTcpClientSession.doRead e) {} (readsOf ref events) (s.chainOf ref)
    (readEventsOf ref os)) hstart ?_ h
  intro events s os event s' o _ hs hstep
  rw [readsOf_concat, readEventsOf_concat]
  rcases step_cases hstep with ⟨i, rfl, haccepts⟩ | ⟨ec, remote, rfl, rfl, rfl⟩ |
    ⟨r, c, session, ev, rfl, hreads⟩
  · rw [haccepts.chainOf ref, haccepts.output]
    simpa [ServerEvent.readOf?, ServerOutput.readOf?] using hs
  · simpa [ServerEvent.readOf?, ServerOutput.readOf?] using hs
  · have hchain := hreads.chainOf ref
    rw [hreads.output, ServerEvent.readOf?, ServerOutput.readOf?]
    split at hchain
    · next hr =>
        rw [if_pos hr, if_pos hr]
        exact (completes_concat_iff _ _ _ _ _ _).mpr ⟨_, _, _, hs, hchain, rfl⟩
    · next hr =>
        rw [if_neg hr, if_neg hr, hchain]
        simpa using hs

/-- Whatever was handed to the packet handler, the handler has got through it. -/
theorem process_nil_notMem {e : Endian} {events : List ServerEvent} {s : Server}
    {os : List ServerOutput} (h : Completes (Server.step e) {} events s os) (ref : ℕ) :
    .process [] ∉ readEventsOf ref os := by
  refine history_of_completes (P := fun _ _ os => .process [] ∉ readEventsOf ref os) nofun ?_ h
  intro events s os event s' o _ hs hstep
  rw [readEventsOf_concat, List.mem_append, not_or]
  refine ⟨hs, ?_⟩
  rcases step_cases hstep with ⟨i, -, haccepts⟩ | ⟨_, _, -, -, rfl⟩ |
    ⟨r, c, session, ev, -, hreads⟩
  · rw [haccepts.output]
    exact nofun
  · exact nofun
  · rw [hreads.output, ServerOutput.readOf?]
    split
    · intro hmem
      have hev : ev = .process [] := (List.mem_singleton.mp hmem).symm
      obtain ⟨effect, heffect⟩ := hreads.process [] hev
      exact nomatch heffect
    · exact nofun

/-! ## When a client is removed -/

/-- The completions of every session are those of its connection. -/
def Fed (e : Endian) (conns : ℕ → Conn) (events : List ServerEvent) : Prop :=
  ∀ ref, ReadChain.Feeds e {} (conns ref) (readsOf ref events)

theorem Fed.of_append {e : Endian} {conns : ℕ → Conn} {events events' : List ServerEvent}
    (h : Fed e conns (events ++ events')) : Fed e conns events := by
  intro ref
  have href := h ref
  rw [readsOf, List.filterMap_append] at href
  exact href.of_append

/-- No other session has the id `k`. -/
def OnlyWith (s : Server) (ref : ℕ) (k : UInt32) : Prop :=
  ∀ r (t : Session), s.sessions[r]? = some t → t.curClientId = k → r = ref

theorem OnlyWith.of_step {e : Endian} {s s' : Server} {event : ServerEvent} {o : ServerOutput}
    {ref : ℕ} {k : UInt32} (honly : OnlyWith s' ref k) (h : s.step e event = .ok (s', o)) :
    OnlyWith s ref k := by
  intro r t ht hid
  obtain ⟨chain, ht'⟩ := exists_session_of_step h ht
  exact honly r _ ht' hid

/-- In the run on `events` a connection of a client with the id `k` ends outside a body, and
the id is not given out after its session has stopped. -/
def Vacated (e : Endian) (conns : ℕ → Conn) (events : List ServerEvent) (k : UInt32) : Prop :=
  ∃ pre ref c post s os s' os' session, events = pre ++ [.read ref c] ++ post ∧
    Completes (Server.step e) {} (pre ++ [.read ref c]) s os ∧
    s.sessions[ref]? = some session ∧ session.curClientId = k ∧
    session.chain.phase = .stopped ∧ (conns ref).EndsOutsideBody e ∧
    Completes (Server.step e) s post s' os' ∧ .accepted k ∉ os'

/-- A read emits the signal if it stops a loop whose connection ended outside a body. -/
theorem Reads.deleting_iff {e : Endian} {conns : ℕ → Conn} {events : List ServerEvent}
    {s s' : Server} {os : List ServerOutput} {ref : ℕ} {c : Completion} {session : Session}
    {ev : ReadEvent} {o : ServerOutput} (hreads : Reads e s ref c session ev s' o)
    (hfed : Fed e conns (events ++ [.read ref c]))
    (h : Completes (Server.step e) {} (events ++ [.read ref c]) s' (os ++ [o])) :
    ev = .deleting ↔ (s'.chainOf ref).phase = .stopped ∧ (conns ref).EndsOutsideBody e := by
  have hchain := completes_chainOf h ref
  have hprocess := process_nil_notMem h ref
  have hfeeds := hfed ref
  have hin : ServerEvent.readOf? ref (.read ref c) = some c := if_pos rfl
  have hout : ServerOutput.readOf? ref o = some ev := by
    rw [hreads.output]
    exact if_pos rfl
  rw [readsOf_concat, hin] at hchain hfeeds
  rw [readEventsOf_concat, hout] at hchain hprocess
  exact ReadChain.deleting_iff hfeeds hchain hprocess

/-- What is not in the map gets in only with an accept. -/
theorem notMem_of_completes {e : Endian} {events : List ServerEvent} {s s' : Server}
    {os : List ServerOutput} (h : Completes (Server.step e) s events s' os) {k : UInt32}
    (hk : k ∉ s.tcpCl) (hnew : .accepted k ∉ os) : k ∉ s'.tcpCl := by
  refine history_of_completes (P := fun _ (s : Server) os => .accepted k ∉ os → k ∉ s.tcpCl)
    (fun _ => hk) ?_ h hnew
  intro events s os event s' o _ hs hstep hnew
  rw [List.mem_append, not_or, List.mem_singleton] at hnew
  have hout := hs hnew.1
  rcases step_cases hstep with ⟨i, -, haccepts⟩ | ⟨_, _, -, rfl, -⟩ |
    ⟨r, c, session, ev, -, hreads⟩
  · rw [haccepts.tcpCl, AList.mem_insert, not_or]
    refine ⟨fun heq => hnew.2 ?_, hout⟩
    rw [haccepts.output, heq]
  · exact hout
  · rw [hreads.tcpCl]
    split
    · rw [AList.mem_erase]
      exact fun hmem => hout hmem.2
    · exact hout

theorem notMem_of_vacated {e : Endian} {conns : ℕ → Conn} {events : List ServerEvent}
    {s : Server} {os : List ServerOutput} (h : Completes (Server.step e) {} events s os)
    (hfed : Fed e conns events) {k : UInt32} (hk : Vacated e conns events k) :
    k ∉ s.tcpCl := by
  obtain ⟨pre, ref, c, post, s₁, os₁, s₂, os₂, t, rfl, h₁, ht, rfl, hstop, hclean, h₂, hnew⟩ := hk
  obtain ⟨os₂', h₂', -⟩ := completes_of_append h₁ h
  obtain ⟨rfl, rfl⟩ := completes_unique h₂ h₂'
  refine notMem_of_completes h₂ ?_ hnew
  obtain ⟨s₀, os₀, o, h₀, hstep, rfl⟩ := (completes_concat_iff _ _ _ _ _ _).mp h₁
  obtain ⟨session, ev, hreads⟩ := read_cases hstep
  obtain ⟨t', ht', hid⟩ := hreads.exists_session
  obtain rfl := Option.some.inj (ht'.symm.trans ht)
  have hdel := (hreads.deleting_iff hfed.of_append h₁).mpr
    ⟨by rw [chainOf_of_found ht]; exact hstop, hclean⟩
  rw [hreads.tcpCl, if_pos hdel, AList.mem_erase, hid]
  exact fun hmem => hmem.1 rfl

theorem Vacated.concat {e : Endian} {conns : ℕ → Conn} {events : List ServerEvent}
    {s s' : Server} {os : List ServerOutput} {event : ServerEvent} {o : ServerOutput}
    {k : UInt32} (hk : Vacated e conns events k)
    (h : Completes (Server.step e) {} events s os) (hstep : s.step e event = .ok (s', o))
    (ho : o ≠ .accepted k) : Vacated e conns (events ++ [event]) k := by
  obtain ⟨pre, ref, c, post, s₁, os₁, s₂, os₂, t, rfl, h₁, ht, hid, hstop, hclean, h₂, hnew⟩ := hk
  obtain ⟨os₂', h₂', -⟩ := completes_of_append h₁ h
  obtain ⟨rfl, rfl⟩ := completes_unique h₂ h₂'
  refine ⟨pre, ref, c, post ++ [event], s₁, os₁, s', os₂ ++ [o], t,
    List.append_assoc .., h₁, ht, hid, hstop, hclean,
    (completes_concat_iff _ _ _ _ _ _).mpr ⟨_, _, _, h₂, hstep, rfl⟩, ?_⟩
  rw [List.mem_append, List.mem_singleton, not_or]
  exact ⟨hnew, ho.symm⟩

theorem vacated_of_notMem {e : Endian} {conns : ℕ → Conn} {events : List ServerEvent}
    {s : Server} {os : List ServerOutput} (h : Completes (Server.step e) {} events s os)
    (hfed : Fed e conns events) {ref : ℕ} {session : Session}
    (hsession : s.sessions[ref]? = some session) (hk : session.curClientId ∉ s.tcpCl) :
    Vacated e conns events session.curClientId := by
  refine history_of_completes (P := fun events (s : Server) _ => Fed e conns events →
    ∀ (ref : ℕ) (session : Session), s.sessions[ref]? = some session →
      session.curClientId ∉ s.tcpCl → Vacated e conns events session.curClientId)
    (fun _ _ _ hnone => absurd hnone (by simp)) ?_ h hfed ref session hsession hk
  intro events s os event s' o hrun ih hstep hfed r t ht hk
  have ih := ih hfed.of_append
  rcases step_cases hstep with ⟨i, -, haccepts⟩ | ⟨_, _, -, rfl, rfl⟩ |
    ⟨ref, c, session, ev, rfl, hreads⟩
  · rw [haccepts.tcpCl, AList.mem_insert, not_or] at hk
    rcases haccepts.session_cases ht with hold | ⟨-, hid, -⟩
    · refine (ih r t hold hk.2).concat hrun hstep ?_
      rw [haccepts.output]
      exact fun heq => hk.1 (ServerOutput.accepted.inj heq).symm
    · exact absurd hid hk.1
  · exact (ih r t ht hk).concat hrun hstep (by simp)
  · have hlast : Completes (Server.step e) {} (events ++ [.read ref c]) s' (os ++ [o]) :=
      (completes_concat_iff _ _ _ _ _ _).mpr ⟨_, _, _, hrun, hstep, rfl⟩
    by_cases hdel : ev = .deleting ∧ session.curClientId = t.curClientId
    · obtain ⟨hstop, hclean⟩ := (hreads.deleting_iff hfed hlast).mp hdel.1
      obtain ⟨t', ht', hid'⟩ := hreads.exists_session
      rw [chainOf_of_found ht'] at hstop
      exact ⟨events, ref, c, [], s', _, s', [], t', (List.append_nil _).symm, hlast, ht',
        hid'.trans hdel.2, hstop, hclean, rfl, nofun⟩
    · -- the id was out of the map before the read
      have hbefore : t.curClientId ∉ s.tcpCl := by
        rw [hreads.tcpCl] at hk
        split at hk
        · next hev =>
            rw [AList.mem_erase] at hk
            exact fun hmem => hk ⟨fun heq => hdel ⟨hev, heq.symm⟩, hmem⟩
        · exact hk
      obtain ⟨t', ht', hid'⟩ := hreads.session_before ht
      rw [← hid'] at hbefore ⊢
      refine (ih r t' ht' hbefore).concat hrun hstep ?_
      rw [hreads.output]
      simp

/-- With an id of its own, a session that has stopped so is removed. -/
theorem notMem_of_endsOutsideBody {e : Endian} {conns : ℕ → Conn} {events : List ServerEvent}
    {s : Server} {os : List ServerOutput} (h : Completes (Server.step e) {} events s os)
    (hfed : Fed e conns events) {ref : ℕ} {session : Session}
    (hsession : s.sessions[ref]? = some session) (hstop : session.chain.phase = .stopped)
    (honly : OnlyWith s ref session.curClientId) (hclean : (conns ref).EndsOutsideBody e) :
    session.curClientId ∉ s.tcpCl := by
  refine history_of_completes (P := fun events (s : Server) _ => Fed e conns events →
    ∀ session : Session, s.sessions[ref]? = some session → session.chain.phase = .stopped →
      OnlyWith s ref session.curClientId → session.curClientId ∉ s.tcpCl)
    (fun _ _ hnone => absurd hnone (by simp)) ?_ h hfed session hsession hstop honly
  intro events s os event s' o hrun ih hstep hfed t ht hstop honly
  have ih := ih hfed.of_append
  rcases step_cases hstep with ⟨i, -, haccepts⟩ | ⟨_, _, -, rfl, rfl⟩ |
    ⟨r, c, session, ev, rfl, hreads⟩
  · rcases haccepts.session_cases ht with hold | ⟨-, -, hchain⟩
    · obtain ⟨new, hnew, hid⟩ := haccepts.exists_session
      have hlt := (List.getElem?_eq_some_iff.mp hold).1
      rw [haccepts.tcpCl, AList.mem_insert, not_or]
      refine ⟨fun heq => hlt.ne (honly _ new hnew (hid.trans heq.symm)).symm, ?_⟩
      exact ih t hold hstop (honly.of_step hstep)
    · -- a session that has just been made has not stopped
      rw [hchain] at hstop
      exact nomatch hstop
  · exact ih t ht hstop honly
  · have hlast : Completes (Server.step e) {} (events ++ [.read r c]) s' (os ++ [o]) :=
      (completes_concat_iff _ _ _ _ _ _).mpr ⟨_, _, _, hrun, hstep, rfl⟩
    by_cases hr : r = ref
    · subst hr
      obtain ⟨t', ht', hid⟩ := hreads.exists_session
      obtain rfl := Option.some.inj (ht'.symm.trans ht)
      have hdel := (hreads.deleting_iff hfed hlast).mpr
        ⟨by rw [chainOf_of_found ht]; exact hstop, hclean⟩
      rw [hreads.tcpCl, if_pos hdel, AList.mem_erase, hid]
      exact fun hmem => hmem.1 rfl
    · obtain ⟨chain, -, hsessions⟩ := hreads.sessions
      have hold : s.sessions[ref]? = some t := by
        rw [← ht, hsessions, List.getElem?_set_ne hr]
      have hbefore := ih t hold hstop (honly.of_step hstep)
      rw [hreads.tcpCl]
      split
      · rw [AList.mem_erase]
        exact fun hmem => hbefore hmem.2
      · exact hbefore

/-- In every run of the server, whatever the clients send and however their connections end:
a session that has stopped is out of both maps exactly when a connection with its id has ended
outside a body and the id has not been given out since; if no other session has had its id,
exactly when its own connection has ended so. -/
theorem removed_iff (e : Endian) (conns : ℕ → Conn) (events : List ServerEvent) (s : Server)
    (os : List ServerOutput) (h : Completes (Server.step e) {} events s os)
    (hfed : Fed e conns events) (ref : ℕ) (session : Session)
    (hsession : s.sessions[ref]? = some session) (hstop : session.chain.phase = .stopped) :
    ((session.curClientId ∉ s.tcpCl ∧ session.curClientId ∉ s.udpCl) ↔
      Vacated e conns events session.curClientId) ∧
    (OnlyWith s ref session.curClientId →
      ((session.curClientId ∉ s.tcpCl ∧ session.curClientId ∉ s.udpCl) ↔
        (conns ref).EndsOutsideBody e)) := by
  have hkeys : InStep s := invariant_of_completes
    (fun _ _ _ _ hs hstep => InStep.step hs hstep) h inStep_start
  rw [← hkeys.keys session.curClientId, and_self]
  refine ⟨⟨vacated_of_notMem h hfed hsession, notMem_of_vacated h hfed⟩, fun honly => ⟨?_, ?_⟩⟩
  · intro hk
    obtain ⟨pre, r, c, post, s₁, os₁, s₂, os₂, t, rfl, h₁, ht, hid, -, hclean, h₂, -⟩ :=
      vacated_of_notMem h hfed hsession hk
    obtain ⟨os₂', h₂', -⟩ := completes_of_append h₁ h
    obtain ⟨chain, ht'⟩ := exists_session_of_completes h₂' ht
    rw [← honly r _ ht' hid]
    exact hclean
  · exact notMem_of_endsOutsideBody h hfed hsession hstop honly

/-- A connection that is closed behind the first of five bytes of a body. -/
def cutConn : Conn := { segments := [[5, 0, 0, 0, 1]], ending := .eof }

def cutEvents : List ServerEvent := [.accept none (.ok localClient),
  .read 0 { data := [5, 0, 0, 0], ec := none }, .read 0 { data := [1], ec := some .eof }]

theorem fed_cutEvents : Fed .little (fun _ => cutConn) cutEvents := by
  intro ref
  cases ref with
  | zero =>
      exact @ReadChain.Feeds.read _ _ _ cutConn 4 _ _ rfl rfl rfl
        (@ReadChain.Feeds.ends _ _ (cutConn.read 4).2 5 _ rfl (by decide) nofun)
  | succ ref => exact .nil _ _

theorem completes_cutEvents : ∃ (s : Server) (session : Session),
    Completes (Server.step .little) {} cutEvents s
      [.accepted 0, .read 0 (.bodyStarted 5), .read 0 .bodyError] ∧
    s.sessions[0]? = some session ∧ session.chain.phase = .stopped ∧
    session.curClientId = 0 ∧ 0 ∈ s.tcpCl ∧ s.sessions.length = 1 :=
  ⟨_, _, rfl, rfl, rfl, rfl, by decide, rfl⟩

/-- The session has stopped, and its id is in both maps. -/
theorem removed_fails :
    ¬ ∀ (conns : ℕ → Conn) (events : List ServerEvent) (s : Server) (os : List ServerOutput),
      Completes (Server.step .little) {} events s os → Fed .little conns events →
      ∀ (ref : ℕ) (session : Session), s.sessions[ref]? = some session →
        session.chain.phase = .stopped →
          session.curClientId ∉ s.tcpCl ∧ session.curClientId ∉ s.udpCl := by
  intro hclaim
  obtain ⟨s, session, h, hsession, hstop, hid, hmem, -⟩ := completes_cutEvents
  exact (hclaim _ _ s _ h fed_cutEvents 0 session hsession hstop).1 (hid ▸ hmem)

theorem removed_iff_cut : ∃ (s : Server) (session : Session), s.sessions[0]? = some session ∧
    session.curClientId ∈ s.tcpCl ∧
    ((session.curClientId ∉ s.tcpCl ∧ session.curClientId ∉ s.udpCl) ↔
      cutConn.EndsOutsideBody .little) := by
  obtain ⟨s, session, h, hsession, hstop, hid, hmem, hlen⟩ := completes_cutEvents
  have honly : OnlyWith s 0 session.curClientId := by
    intro r t ht _
    have hlt := (List.getElem?_eq_some_iff.mp ht).1
    omega
  exact ⟨s, session, hsession, hid ▸ hmem,
    (removed_iff .little _ _ s _ h fed_cutEvents 0 session hsession hstop).2 honly⟩

end Server

end P2PWatcher
