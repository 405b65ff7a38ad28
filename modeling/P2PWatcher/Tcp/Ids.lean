import P2PWatcher.Tcp.Server

/-!
# The ids of the sessions

The id of a session comes from a static `u32` counter that is never checked. As long as
no accept gives out the id of a session that is still up, `AsioTcpManager::cl_` holds every
such session under its id, and the end of one session takes away its own entries and no
others (`ownEntries_iff`). The first 2^32 clients get different ids, and the next one takes
the place of the first.
-/

namespace P2PWatcher

open Memory Machine

/-- The server has not seen the end of the connection: a read is pending. -/
def Session.Live (session : Session) : Prop := session.chain.phase ≠ .stopped

namespace Server

/-- Every session that is up is the entry under its id. -/
def OwnEntries (s : Server) : Prop :=
  ∀ (r : ℕ) (t : Session), s.sessions[r]? = some t → t.Live → s.tcpCl.lookup t.curClientId = some r

/-- The end of the session `ref` takes its id out of both maps and leaves the entries of the
other sessions that are up. -/
structure RemovesOwn (s : Server) (ref : ℕ) (s' : Server) : Prop where
  removed : ∀ t : Session, s.sessions[ref]? = some t →
    s.tcpCl.lookup t.curClientId = some ref ∧ t.curClientId ∉ s'.tcpCl ∧ t.curClientId ∉ s'.udpCl
  untouched : ∀ (r : ℕ) (t : Session), r ≠ ref → s.sessions[r]? = some t → t.Live →
    s'.tcpCl.lookup t.curClientId = s.tcpCl.lookup t.curClientId ∧
      s'.udpCl.lookup t.curClientId = s.udpCl.lookup t.curClientId

/-- In the run on `events` the sessions that are up have their entries, and every end of a
session takes away its own. -/
structure EntriesKept (e : Endian) (events : List ServerEvent) : Prop where
  own : Throughout (Server.step e) {} events OwnEntries
  ends : ∀ pre ref c post, events = pre ++ .read ref c :: post → ∀ s os s',
    Completes (Server.step e) {} pre s os → s.step e (.read ref c) = .ok (s', .read ref .deleting) →
      RemovesOwn s ref s'

/-- The id that an accept gives out is not that of a session that is up. -/
def FreshId (s : Server) (event : ServerEvent) : Prop :=
  ∀ i, event = .accept none (.ok i) →
    ∀ (r : ℕ) (t : Session), s.sessions[r]? = some t → t.Live → t.curClientId ≠ s.nextId

theorem ownEntries_start : OwnEntries {} := by
  intro r t ht
  exact absurd ht (by simp)

/-- A new client takes the place of the sessions with its id. -/
theorem Accepts.ownEntries_iff {s s' : Server} {i : ClientInfo} {o : ServerOutput}
    (h : Accepts s i s' o) (hs : OwnEntries s) :
    OwnEntries s' ↔ ∀ (r : ℕ) (t : Session), s.sessions[r]? = some t → t.Live →
      t.curClientId ≠ s.nextId := by
  have hkeep : ∀ (r : ℕ) (t : Session), s.sessions[r]? = some t → s'.sessions[r]? = some t := by
    intro r t ht
    obtain ⟨sent, hsessions⟩ := h.sessions
    rw [hsessions, List.getElem?_append_left (List.getElem?_eq_some_iff.mp ht).1, ht]
  constructor
  · intro hs' r t ht hlive hid
    have hentry := hs' r t (hkeep r t ht) hlive
    rw [h.tcpCl, hid, AList.lookup_insert, Option.some.injEq] at hentry
    have hlt := (List.getElem?_eq_some_iff.mp ht).1
    omega
  · intro hfresh r t ht hlive
    rw [h.tcpCl]
    rcases h.session_cases ht with hold | ⟨rfl, hid, -⟩
    · rw [AList.lookup_insert_ne (hfresh r t hold hlive)]
      exact hs r t hold hlive
    · rw [hid, AList.lookup_insert]

/-- The other sessions do not change with a read. -/
theorem Reads.session_of_ne {e : Endian} {s s' : Server} {ref : ℕ} {c : Completion}
    {session : Session} {ev : ReadEvent} {o : ServerOutput}
    (h : Reads e s ref c session ev s' o) {r : ℕ} (hr : r ≠ ref) :
    s'.sessions[r]? = s.sessions[r]? := by
  obtain ⟨chain, -, hsessions⟩ := h.sessions
  rw [hsessions, List.getElem?_set_ne (Ne.symm hr)]

/-- A session with a read was up. -/
theorem Reads.live {e : Endian} {s s' : Server} {ref : ℕ} {c : Completion} {session : Session}
    {ev : ReadEvent} {o : ServerOutput} (h : Reads e s ref c session ev s' o) : session.Live := by
  obtain ⟨chain, hread, -⟩ := h.sessions
  exact ReadChain.phase_ne_stopped_of_step hread

/-- It is up no more when it has emitted the signal. -/
theorem Reads.not_live {e : Endian} {s s' : Server} {ref : ℕ} {c : Completion}
    {session : Session} {o : ServerOutput} (h : Reads e s ref c session .deleting s' o)
    {t : Session} (ht : s'.sessions[ref]? = some t) : ¬ t.Live := by
  obtain ⟨chain, hread, hsessions⟩ := h.sessions
  rw [hsessions, List.getElem?_set_self (List.getElem?_eq_some_iff.mp h.found).1] at ht
  obtain rfl := Option.some.inj ht
  rcases ReadChain.step_cases hread with hcase | hcase | hcase | hcase
  · exact not_not.mpr hcase.phase'
  all_goals exact absurd hcase.event (by simp)

/-- Two sessions that are up and have their entries have different ids. -/
theorem OwnEntries.id_ne {s : Server} (hs : OwnEntries s) {r r' : ℕ} {t t' : Session}
    (ht : s.sessions[r]? = some t) (hlive : t.Live) (ht' : s.sessions[r']? = some t')
    (hlive' : t'.Live) (hne : r ≠ r') : t.curClientId ≠ t'.curClientId := by
  intro hid
  have hr := hs r t ht hlive
  rw [hid, hs r' t' ht' hlive'] at hr
  exact hne (Option.some.inj hr).symm

theorem Reads.ownEntries {e : Endian} {s s' : Server} {ref : ℕ} {c : Completion}
    {session : Session} {ev : ReadEvent} {o : ServerOutput}
    (h : Reads e s ref c session ev s' o) (hs : OwnEntries s) : OwnEntries s' := by
  intro r t ht hlive
  by_cases hdel : ev = .deleting
  · subst hdel
    by_cases hr : r = ref
    · subst hr
      exact absurd hlive (h.not_live ht)
    · rw [h.session_of_ne hr] at ht
      rw [h.tcpCl, if_pos rfl, AList.lookup_erase_ne (hs.id_ne ht hlive h.found h.live hr)]
      exact hs r t ht hlive
  · rw [h.tcpCl, if_neg hdel]
    by_cases hr : r = ref
    · subst hr
      obtain ⟨t', ht', hid⟩ := h.session_before ht
      obtain rfl := Option.some.inj (h.found.symm.trans ht')
      rw [← hid]
      exact hs r session h.found h.live
    · rw [h.session_of_ne hr] at ht
      exact hs r t ht hlive

/-- Only an accept can break it. -/
theorem ownEntries_step_iff {e : Endian} {s s' : Server} {event : ServerEvent}
    {o : ServerOutput} (hs : OwnEntries s) (h : s.step e event = .ok (s', o)) :
    OwnEntries s' ↔ FreshId s event := by
  rcases step_cases h with ⟨i, rfl, haccepts⟩ | ⟨ec, remote, rfl, rfl, rfl⟩ |
    ⟨ref, c, session, ev, rfl, hreads⟩
  · rw [haccepts.ownEntries_iff hs]
    constructor
    · intro hfresh j heq
      exact hfresh
    · exact fun hfresh => hfresh i rfl
  · refine iff_of_true hs ?_
    rintro i heq
    obtain ⟨rfl, rfl⟩ := ServerEvent.accept.inj heq
    exact absurd (Except.ok.inj h) (by simp [accept])
  · exact iff_of_true (hreads.ownEntries hs) fun i heq => absurd heq (by simp)

theorem Reads.removesOwn {e : Endian} {s s' : Server} {ref : ℕ} {c : Completion}
    {session : Session} {o : ServerOutput} (h : Reads e s ref c session .deleting s' o)
    (hs : OwnEntries s) : RemovesOwn s ref s' := by
  have htcp := h.tcpCl
  have hudp := h.udpCl
  rw [if_pos rfl] at htcp hudp
  constructor
  · intro t ht
    obtain rfl := Option.some.inj (h.found.symm.trans ht)
    refine ⟨hs ref session h.found h.live, ?_, ?_⟩
    · rw [htcp, AList.mem_erase]
      exact fun hmem => hmem.1 rfl
    · rw [hudp, AList.mem_erase]
      exact fun hmem => hmem.1 rfl
  · intro r t hr ht hlive
    have hid := hs.id_ne ht hlive h.found h.live hr
    rw [htcp, hudp, AList.lookup_erase_ne hid, AList.lookup_erase_ne hid]
    exact ⟨rfl, rfl⟩

/-- In every run of the server: the maps are kept as they should be exactly when no accept
gives out the id of a session that is up. -/
theorem entriesKept_iff (e : Endian) (events : List ServerEvent) (s : Server)
    (os : List ServerOutput) (h : Completes (Server.step e) {} events s os) :
    EntriesKept e events ↔ EachStep (Server.step e) {} events FreshId := by
  have hinv : ∀ (s : Server) event s' o, (fun _ : Server => True) s →
      Server.step e s event = .ok (s', o) → (fun _ : Server => True) s' :=
    fun _ _ _ _ _ _ => trivial
  have hiff := throughout_iff_eachStep hinv
    (fun _ _ _ _ _ hs hstep => ownEntries_step_iff hs hstep) h trivial ownEntries_start
  constructor
  · exact fun hkept => hiff.mp hkept.own
  · intro hfresh
    have hown := hiff.mpr hfresh
    refine ⟨hown, ?_⟩
    intro pre ref c post heq s₁ os₁ s₂ hrun hstep
    obtain ⟨session, ev, hreads⟩ := read_cases hstep
    obtain rfl : ev = .deleting := by
      have hout := hreads.output
      rw [ServerOutput.read.injEq] at hout
      exact hout.2.symm
    exact hreads.removesOwn (hown pre _ heq s₁ os₁ hrun)

/-! ## When an id comes again -/

/-- The ids are given out in turn. -/
structure Numbered (s : Server) : Prop where
  nextId : s.nextId = UInt32.ofNat s.sessions.length
  ids : ∀ (r : ℕ) (t : Session), s.sessions[r]? = some t → t.curClientId = UInt32.ofNat r

theorem numbered_start : Numbered {} := by
  refine ⟨rfl, fun r t ht => ?_⟩
  exact absurd ht (by simp)

theorem Numbered.step {e : Endian} {s s' : Server} {event : ServerEvent} {o : ServerOutput}
    (hs : Numbered s) (h : s.step e event = .ok (s', o)) : Numbered s' := by
  rcases step_cases h with ⟨i, -, haccepts⟩ | ⟨_, _, -, rfl, -⟩ | ⟨ref, c, session, ev, -, hreads⟩
  · obtain ⟨sent, hsessions⟩ := haccepts.sessions
    constructor
    · rw [haccepts.nextId, hs.nextId, hsessions, List.length_append, List.length_singleton,
        UInt32.ofNat_add]
      rfl
    · intro r t ht
      rcases haccepts.session_cases ht with hold | ⟨rfl, hid, -⟩
      · exact hs.ids r t hold
      · rw [hid, hs.nextId]
  · exact hs
  · obtain ⟨chain, -, hsessions⟩ := hreads.sessions
    constructor
    · rw [hreads.nextId, hs.nextId, hsessions, List.length_set]
    · intro r t ht
      obtain ⟨t', ht', hid⟩ := hreads.session_before ht
      rw [← hid]
      exact hs.ids r t' ht'

theorem numbered_of_completes {e : Endian} {events : List ServerEvent} {s : Server}
    {os : List ServerOutput} (h : Completes (Server.step e) {} events s os) : Numbered s :=
  invariant_of_completes (fun _ _ _ _ hs hstep => hs.step hstep) h numbered_start

/-- The next id is that of the session `r` when the two numbers are equal modulo 2^32. -/
theorem Numbered.id_eq_iff {s : Server} (hs : Numbered s) {r : ℕ} {t : Session}
    (ht : s.sessions[r]? = some t) :
    t.curClientId = s.nextId ↔ r % 2 ^ 32 = s.sessions.length % 2 ^ 32 := by
  rw [hs.ids r t ht, hs.nextId, ← UInt32.toNat_inj, UInt32.toNat_ofNat', UInt32.toNat_ofNat']

/-- With at most 2^32 clients no id comes again. -/
theorem entriesKept_of_le (e : Endian) (events : List ServerEvent) (s : Server)
    (os : List ServerOutput) (h : Completes (Server.step e) {} events s os)
    (hle : s.sessions.length ≤ 2 ^ 32) : EntriesKept e events := by
  refine (entriesKept_iff e events s os h).mpr ?_
  rintro pre event post rfl s₁ os₁ hrun i rfl r t ht _ hid
  obtain ⟨os₂, hrest, -⟩ := completes_of_append hrun h
  obtain ⟨s₂, o, _, hstep, hpost, -⟩ := (completes_cons_iff _ _ _ _ _ _).mp hrest
  have hgrow : s₁.sessions.length + 1 ≤ s.sessions.length := by
    rcases step_cases hstep with ⟨j, -, haccepts⟩ | ⟨ec, remote, heq, hsame, ho⟩ |
      ⟨_, _, _, _, heq, -⟩
    · obtain ⟨sent, hsessions⟩ := haccepts.sessions
      have hlast : s₂.sessions[s₁.sessions.length]? ≠ none := by
        rw [hsessions, List.getElem?_concat_length]
        exact Option.some_ne_none _
      obtain ⟨t', ht'⟩ := Option.ne_none_iff_exists'.mp hlast
      obtain ⟨_, ht''⟩ := exists_session_of_completes hpost ht'
      exact (List.getElem?_eq_some_iff.mp ht'').1
    · obtain ⟨rfl, rfl⟩ := ServerEvent.accept.inj heq
      rw [ho] at hstep
      exact absurd (Except.ok.inj hstep) (by simp [accept])
    · exact absurd heq (by simp)
  have hlt := (List.getElem?_eq_some_iff.mp ht).1
  have hmod := ((numbered_of_completes hrun).id_eq_iff ht).mp hid
  omega

/-- The first client stays, and `n` others come and go, one after the other. -/
def visitors (i : ClientInfo) (n : ℕ) : List ServerEvent :=
  .accept none (.ok i) :: (List.range n).flatMap fun r =>
    [.accept none (.ok i), .read (r + 1) { data := [], ec := some .eof }]

theorem visitors_succ (i : ClientInfo) (n : ℕ) : visitors i (n + 1) = visitors i n ++
    [.accept none (.ok i), .read (n + 1) { data := [], ec := some .eof }] := by
  rw [visitors, List.range_succ, List.flatMap_append, List.flatMap_singleton, visitors,
    List.cons_append]

/-- A client closes its connection before it has sent anything. -/
theorem exists_read_eof (e : Endian) {s : Server} {ref : ℕ} {t : Session}
    (ht : s.sessions[ref]? = some t) (hchain : t.chain = {}) : ∃ s',
    s.step e (.read ref { data := [], ec := some .eof }) = .ok (s', .read ref .deleting) := by
  obtain ⟨chain, hread⟩ : ∃ chain, AsioTcpClientSession.doRead e t.chain
      { data := [], ec := some .eof } = .ok (chain, .deleting) := by
    rw [hchain]
    cases e <;> exact ⟨_, rfl⟩
  rw [step, read, ht]
  simp only [hread]
  exact ⟨_, rfl⟩

/-- The first session is up, and no other one. -/
structure OnlyFirst (s : Server) : Prop where
  first : ∃ t : Session, s.sessions[0]? = some t ∧ t.Live
  others : ∀ (r : ℕ) (t : Session), s.sessions[r]? = some t → t.Live → r = 0

/-- A client that comes and goes. -/
theorem OnlyFirst.visitor {e : Endian} {s s₁ s₂ : Server} {i : ClientInfo} {o o' : ServerOutput}
    {c : Completion} {session : Session} (hs : OnlyFirst s) (haccepts : Accepts s i s₁ o)
    (hreads : Reads e s₁ s.sessions.length c session .deleting s₂ o') : OnlyFirst s₂ := by
  obtain ⟨t, ht, hlive⟩ := hs.first
  have hlt := (List.getElem?_eq_some_iff.mp ht).1
  obtain ⟨sent, hsessions⟩ := haccepts.sessions
  refine ⟨⟨t, ?_, hlive⟩, fun r t' ht' hlive' => ?_⟩
  · rw [hreads.session_of_ne hlt.ne, hsessions, List.getElem?_append_left hlt, ht]
  · by_cases hr : r = s.sessions.length
    · subst hr
      exact absurd hlive' (hreads.not_live ht')
    · rw [hreads.session_of_ne hr] at ht'
      rcases haccepts.session_cases ht' with hold | ⟨hlast, -⟩
      · exact hs.others r t' hold hlive'
      · exact absurd hlast hr

theorem completes_visitors (e : Endian) (i : ClientInfo) (n : ℕ) : ∃ s os,
    Completes (Server.step e) {} (visitors i n) s os ∧ s.sessions.length = n + 1 ∧
      OnlyFirst s := by
  induction n with
  | zero =>
      refine ⟨_, _, rfl, rfl, ⟨_, rfl, ?_⟩, fun r t ht _ => ?_⟩
      · rw [Session.Live]
        simp [AsioTcpManager.createClient]
      · exact Nat.lt_one_iff.mp (List.getElem?_eq_some_iff.mp ht).1
  | succ n ih =>
      obtain ⟨s, os, hrun, hlen, hs⟩ := ih
      rcases accept_cases e s none (.ok i) with ⟨j, -, -, haccepts⟩ | hsame
      · obtain ⟨sent, hsessions⟩ := haccepts.sessions
        have hlast := congrArg (·[s.sessions.length]?) hsessions
        simp only [List.getElem?_concat_length] at hlast
        obtain ⟨s₂, hread⟩ := exists_read_eof e hlast rfl
        obtain ⟨session, ev, hreads⟩ := read_cases hread
        obtain ⟨-, rfl⟩ := ServerOutput.read.inj hreads.output
        obtain ⟨chain, -, hset⟩ := hreads.sessions
        have haccept : s.step e (.accept none (.ok i)) = .ok (s.accept e none (.ok i)) := rfl
        have hall := (completes_append_iff _ _ _ _ _ _).mpr ⟨s, os, _, hrun,
          (completes_cons_iff _ _ _ _ _ _).mpr ⟨_, _, _, haccept,
            (completes_singleton_iff _ _ _ _ _).mpr ⟨_, hread, rfl⟩, rfl⟩, rfl⟩
        rw [hlen, ← visitors_succ] at hall
        refine ⟨s₂, _, hall, ?_, hs.visitor haccepts hreads⟩
        rw [hset, List.length_set, hsessions, List.length_append, hlen, List.length_singleton]
      · exact absurd (congrArg Prod.snd hsame) (by simp [accept])

/-- The client number 2^32 gets the id 0 while the client number 0 is still connected, and all
others have gone. -/
theorem entriesKept_fails : ∃ (s : Server) (os : List ServerOutput) (t : Session),
    Completes (Server.step .little) {}
      (visitors localClient (2 ^ 32 - 1) ++ [.accept none (.ok localClient)]) s os ∧
    s.sessions[0]? = some t ∧ t.Live ∧ s.tcpCl.lookup t.curClientId = some (2 ^ 32) ∧
    (∀ (r : ℕ) (t' : Session), s.sessions[r]? = some t' → t'.Live → r = 0 ∨ r = 2 ^ 32) ∧
    ¬ EntriesKept .little
      (visitors localClient (2 ^ 32 - 1) ++ [.accept none (.ok localClient)]) := by
  obtain ⟨s, os, hrun, hlen, ⟨t, ht, hlive⟩, hothers⟩ :=
    completes_visitors .little localClient (2 ^ 32 - 1)
  have hlength : s.sessions.length = 2 ^ 32 := by omega
  have hid : t.curClientId = s.nextId :=
    ((numbered_of_completes hrun).id_eq_iff ht).mpr (by
      rw [hlength, Nat.zero_mod, Nat.mod_self])
  rcases accept_cases .little s none (.ok localClient) with ⟨i, -, -, haccepts⟩ | hsame
  · have hall : Completes (Server.step .little) {}
        (visitors localClient (2 ^ 32 - 1) ++ [.accept none (.ok localClient)])
        (s.accept .little none (.ok localClient)).1
        (os ++ [(s.accept .little none (.ok localClient)).2]) :=
      (completes_concat_iff _ _ _ _ _ _).mpr ⟨s, os, _, hrun, rfl, rfl⟩
    obtain ⟨sent, hsessions⟩ := haccepts.sessions
    refine ⟨_, _, t, hall, ?_, hlive, ?_, fun r t' ht' hlive' => ?_, fun hkept => ?_⟩
    · rw [hsessions, List.getElem?_append_left (by omega), ht]
    · rw [hid, haccepts.tcpCl, ← hlength]
      exact AList.lookup_insert _
    · rcases haccepts.session_cases ht' with hold | ⟨hlast, -⟩
      · exact .inl (hothers r t' hold hlive')
      · exact .inr (hlast.trans hlength)
    · have hfresh := (entriesKept_iff _ _ _ _ hall).mp hkept
      exact hfresh _ _ [] rfl s os hrun localClient rfl 0 t ht hlive hid
  · exact absurd (congrArg Prod.snd hsame) (by simp [accept])

/-- Two clients, of which the first closes its connection. -/
theorem entriesKept_iff_two :
    EntriesKept .little [.accept none (.ok localClient), .accept none (.ok localClient),
        .read 0 { data := [], ec := some .eof }] ↔
      EachStep (Server.step .little) {} [.accept none (.ok localClient),
        .accept none (.ok localClient), .read 0 { data := [], ec := some .eof }] FreshId :=
  entriesKept_iff .little _ _ _ rfl

end Server

end P2PWatcher
