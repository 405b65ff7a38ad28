import P2PWatcher.Manager.Parts

/-!
# What the server sends to whom

In the words of `PubSub`, the history of a run of the server process is who was accepted, whose
id was removed, and what was broadcast: the images that the UDP socket has handed out and
the messages of the timer. The datagrams that the socket is given for one client are the
fragments of what this client hears: of every broadcast from its accept until its id is
removed, once each and in order, whatever the other clients do (`sent_eq_heard`). Every call of
`broadCast` sends the same datagrams to everybody whose last accept was not undone, and to
the remote endpoint of the session that is kept under this id (`broadCast_reaches`).
-/

namespace P2PWatcher

open Memory Machine Sequence PubSub

/-- What a call gives to the socket for the client with the id `k`. -/
def BroadCast.sentTo (k : UInt32) (b : BroadCast) : List (ClientInfo × List (List UInt8)) :=
  (List.zipWith (fun client sent => (⟨client.1, sent⟩ : Σ _ : UInt32, ClientInfo × _)) b.walk
    b.sent).lookupAll k

/-- The call of `broadCast`, if there was one. -/
def ManagerOutput.broadCast? : ManagerOutput → Option BroadCast
  | .relayed b => some b
  | .ticked b => some b
  | _ => none

theorem ManagerOutput.broadCast?_eq_some_iff {o : ManagerOutput} {b : BroadCast} :
    o.broadCast? = some b ↔ o = .relayed b ∨ o = .ticked b := by
  cases o <;> simp [broadCast?]

/-- The calls of `broadCast` with the open socket `s` has, in the words of the history. -/
structure BroadCast.Reaches (e : Endian) (s : Manager)
    (history : List (PubSub.Event UInt32 ClientInfo (UInt16 × List UInt8))) (b : BroadCast) :
    Prop where
  sent : b.sent = b.walk.map fun x => (x.2, fragments e b.dataType (counted b.buf))
  nodup : b.walk.NodupKeys
  joined : ∀ k i, ⟨k, i⟩ ∈ b.walk ↔ Joined k i history
  session : ∀ x ∈ b.walk, ∃ ref session, s.server.tcpCl.lookup x.1 = some ref ∧
    s.server.sessions[ref]? = some session ∧ session.remote = x.2

namespace Manager

/-- What happened to the clients in a run. -/
def history (events : List ManagerEvent) (os : List ManagerOutput) :
    List (PubSub.Event UInt32 ClientInfo (UInt16 × List UInt8)) :=
  (views clientView events os).map Prod.fst

/-- The calls of `broadCast` in a run, with those who are in the map. -/
def deliveries (events : List ManagerEvent) (os : List ManagerOutput) :
    List (Option (Delivery UInt32 ClientInfo (UInt16 × List UInt8))) :=
  (views clientView events os).map Prod.snd

/-- What the socket is given in a run for the client with the id `k`. -/
def sentTo (k : UInt32) (os : List ManagerOutput) : List (ClientInfo × List (List UInt8)) :=
  (os.filterMap ManagerOutput.broadCast?).flatMap (BroadCast.sentTo k)

theorem completes_history {asio : Asio} {e : Endian} {events : List ManagerEvent} {s : Manager}
    {os : List ManagerOutput} (h : Completes (step asio e) start events s os) :
    Completes PubSub.step ∅ (history events os) s.members (deliveries events os) :=
  (refines_pubSub asio e).completes h

theorem inStep_of_completes {asio : Asio} {e : Endian} {events : List ManagerEvent}
    {s : Manager} {os : List ManagerOutput} (h : Completes (step asio e) start events s os) :
    Server.InStep s.server :=
  invariant_of_completes (fun _ _ _ _ hs hstep => Server.InStep.step hs hstep)
    ((refines_server asio e).completes h) Server.inStep_start

theorem sends_of_step {asio : Asio} {e : Endian} {s s' : Manager} {event : ManagerEvent}
    {o : ManagerOutput} (h : s.step asio e event = .ok (s', o)) {b : BroadCast}
    (hb : o.broadCast? = some b) : b.Sends e s := by
  cases steps_of_step h with
  | relayed _ hsends =>
      obtain rfl := Option.some.inj hb
      exact hsends
  | ticked _ _ hsends _ _ =>
      obtain rfl := Option.some.inj hb
      exact hsends
  | _ => exact nomatch hb

theorem clientView_of_broadCast? {event : ManagerEvent} {o : ManagerOutput} {b : BroadCast}
    (hb : o.broadCast? = some b) : clientView event o = BroadCast.publication b := by
  cases o with
  | relayed b' =>
      obtain rfl := Option.some.inj hb
      cases event with
      | acceptHandled i remote => cases remote <;> rfl
      | _ => rfl
  | ticked b' =>
      obtain rfl := Option.some.inj hb
      cases event with
      | acceptHandled i remote => cases remote <;> rfl
      | _ => rfl
  | _ => exact nomatch hb

/-- An accept and a removal of an id deliver nothing. -/
theorem clientView_of_not_broadCast? {event : ManagerEvent} {o : ManagerOutput}
    (hb : o.broadCast? = none)
    {x : PubSub.Event UInt32 ClientInfo (UInt16 × List UInt8) ×
      Option (Delivery UInt32 ClientInfo (UInt16 × List UInt8))}
    (hview : clientView event o = some x) : x.2 = none := by
  fun_cases clientView event o with
  | case1 | case2 => rw [← Option.some.inj hview]
  | case3 | case4 => exact nomatch hb
  | case5 => simp_all only [clientView, reduceCtorEq]

/-! ## The datagrams of a client -/

/-- A walk finds each key once. -/
theorem lookupAll_zipWith {walk : Walk} (h : walk.NodupKeys) (k : UInt32)
    (datagrams : List (List UInt8)) :
    (List.zipWith (fun client sent => (⟨client.1, sent⟩ : Σ _ : UInt32, ClientInfo × _)) walk
      (walk.map fun x => (x.2, datagrams))).lookupAll k =
        ((walk.dlookup k).map fun i => (i, datagrams)).toList := by
  rw [List.zipWith_map_right, List.zipWith_self,
    ← List.dlookup_map₂ (f := fun _ (i : ClientInfo) => (i, datagrams)) k]
  exact List.lookupAll_eq_dlookup k (h.map₂ (fun _ (i : ClientInfo) => (i, datagrams)))

theorem sentTo_of_sends {e : Endian} {s : Manager} {b : BroadCast} (h : b.Sends e s)
    (k : UInt32) :
    b.sentTo k = (inbox k ((BroadCast.publication b).map Prod.snd).toList).map fun x =>
      (x.1, fragments e x.2.1 (counted x.2.2)) := by
  rw [BroadCast.sentTo, BroadCast.publication, h.sent]
  split
  · rw [lookupAll_zipWith h.nodupKeys, Option.map_some, Option.toList_some, inbox_cons_some,
      Delivery.to?, Finmap.dlookup_list_toFinmap]
    cases b.walk.dlookup k <;> rfl
  · rw [List.zipWith_nil_right]
    rfl

theorem sentTo_eq_inbox {asio : Asio} {e : Endian} {events : List ManagerEvent} {s s' : Manager}
    {os : List ManagerOutput} (h : Completes (step asio e) s events s' os) (k : UInt32) :
    sentTo k os = (inbox k (deliveries events os)).map fun x =>
      (x.1, fragments e x.2.1 (counted x.2.2)) := by
  induction events generalizing s os with
  | nil =>
      obtain ⟨-, rfl⟩ := (completes_nil_iff _ _ _ _).mp h
      rfl
  | cons event events ih =>
      obtain ⟨t, o, os', hstep, hrest, rfl⟩ := (completes_cons_iff _ _ _ _ _ _).mp h
      rw [deliveries, views_cons, List.map_append, inbox_append, List.map_append, ← deliveries,
        ← ih hrest, sentTo, List.filterMap_cons]
      cases hb : o.broadCast? with
      | some b =>
          rw [clientView_of_broadCast? hb, List.flatMap_cons,
            sentTo_of_sends (sends_of_step hstep hb)]
          cases BroadCast.publication b <;> rfl
      | none =>
          cases hview : clientView event o with
          | none => rfl
          | some x =>
              rw [Option.toList_some, List.map_singleton, clientView_of_not_broadCast? hb hview]
              rfl

/-- In every run: the socket is given for each client the fragments of what is broadcast from
its accept until its id is removed, once each and in order. -/
theorem sent_eq_heard (asio : Asio) (e : Endian) (events : List ManagerEvent) (s : Manager)
    (os : List ManagerOutput) (h : Completes (step asio e) start events s os) (k : UInt32) :
    sentTo k os = (heard k none (history events os)).map fun x =>
      (x.1, fragments e x.2.1 (counted x.2.2)) := by
  have hheard := inbox_eq_heard (completes_history h) k
  rw [Finmap.lookup_empty] at hheard
  rw [sentTo_eq_inbox h, hheard]

/-- A client that is accepted, gets the time once, and closes its connection. -/
def visit (i : ClientInfo) : List ManagerEvent :=
  [.acceptCompleted 0 none, .acceptHandled 0 (.ok i), .expired 0, .timerHandled 0 5 [⟨0, i⟩],
    .read 0 { data := [], ec := some .eof }, .expired 0, .timerHandled 0 10 []]

/-- One datagram. -/
theorem sent_visit : ∃ s os datagram,
    Completes (step .loopback .little) start (visit localClient) s os ∧
    sentTo 0 os = [(localClient, [datagram])] ∧
    sentTo 0 os = (heard 0 none (history (visit localClient) os)).map fun x =>
      (x.1, fragments .little x.2.1 (counted x.2.2)) := by
  obtain ⟨s, os, datagram, h, hsent⟩ : ∃ s os datagram,
      Completes (step .loopback .little) start (visit localClient) s os ∧
      sentTo 0 os = [(localClient, [datagram])] := ⟨_, _, _, rfl, rfl⟩
  exact ⟨s, os, datagram, h, hsent, sent_eq_heard .loopback .little _ s os h 0⟩

/-! ## The clients of a call -/

/-- The walk meets those whose last accept was not undone. -/
theorem mem_walk_iff {asio : Asio} {e : Endian} {events : List ManagerEvent} {s : Manager}
    {os : List ManagerOutput} {walk : Walk} (hwalk : walk.Perm s.server.udpCl.entries)
    (h : Completes (step asio e) start events s os) (k : UInt32) (i : ClientInfo) :
    ⟨k, i⟩ ∈ walk ↔ Joined k i (history events os) := by
  rw [← PubSub.lookup_eq_some_iff (completes_history h), hwalk.mem_iff]
  exact AList.mem_lookup_iff.symm

theorem acceptHandled_of_join {event : ManagerEvent} {o : ManagerOutput} {k : UInt32}
    {i : ClientInfo} {d : Option (Delivery UInt32 ClientInfo (UInt16 × List UInt8))}
    (h : clientView event o = some (.join k i, d)) : ∃ n, event = .acceptHandled n (.ok i) := by
  have hpublication : ∀ b, BroadCast.publication b ≠ some (.join k i, d) := by
    intro b
    rw [BroadCast.publication]
    split <;> simp
  fun_cases clientView event o with
  | case1 n i' k' =>
      obtain ⟨hjoin, -⟩ := Prod.mk.inj (Option.some.inj h)
      exact ⟨n, by rw [(PubSub.Event.join.inj hjoin).2]⟩
  | case2 => simp [clientView] at h
  | case3 _ b => exact absurd ((clientView_of_broadCast? rfl).symm.trans h) (hpublication b)
  | case4 _ b => exact absurd ((clientView_of_broadCast? rfl).symm.trans h) (hpublication b)
  | case5 => simp_all only [clientView, reduceCtorEq]

/-- Whoever joins is the remote endpoint of an accept. -/
theorem exists_acceptHandled_of_joined {events : List ManagerEvent} {os : List ManagerOutput}
    {k : UInt32} {i : ClientInfo} (h : Joined k i (history events os)) :
    ∃ n, .acceptHandled n (.ok i) ∈ events := by
  obtain ⟨pre, post, heq, -⟩ := h
  have hmem : .join k i ∈ history events os :=
    heq ▸ List.mem_append_right pre List.mem_cons_self
  obtain ⟨⟨ev, d⟩, hx, rfl⟩ := List.mem_map.mp hmem
  obtain ⟨⟨event, o⟩, hp, hview⟩ := List.mem_filterMap.mp hx
  obtain ⟨n, rfl⟩ := acceptHandled_of_join hview
  exact ⟨n, (List.of_mem_zip hp).1⟩

/-- Every call of `broadCast` in a run, with the open socket. -/
theorem broadCast_reaches (asio : Asio) (e : Endian) (events : List ManagerEvent) (s : Manager)
    (os : List ManagerOutput) (h : Completes (step asio e) start events s os)
    (event : ManagerEvent) (s' : Manager) (o : ManagerOutput)
    (hstep : s.step asio e event = .ok (s', o)) (b : BroadCast)
    (hb : o = .relayed b ∨ o = .ticked b) (hopen : b.isOpen = true) :
    b.Reaches e s (history events os) := by
  have hsends := sends_of_step hstep (ManagerOutput.broadCast?_eq_some_iff.mpr hb)
  have hinStep := inStep_of_completes h
  refine ⟨?_, hsends.nodupKeys, fun k i => mem_walk_iff hsends.walk h k i, fun x hx => ?_⟩
  · rw [hsends.sent, if_pos hopen]
  · obtain ⟨k, i⟩ := x
    have hudp : s.server.udpCl.lookup k = some i :=
      AList.mem_lookup_iff.mpr (hsends.walk.mem_iff.mp hx)
    have hmem : k ∈ s.server.tcpCl := by
      rw [hinStep.keys, ← AList.lookup_isSome, hudp]
      rfl
    obtain ⟨ref, href⟩ := Option.isSome_iff_exists.mp (AList.lookup_isSome.mpr hmem)
    obtain ⟨session, hsession, hinfo⟩ := hinStep.info k ref href
    rw [hudp] at hinfo
    exact ⟨ref, session, href, hsession, (Option.some.inj hinfo).symm⟩

/-- The message that this client gets. -/
theorem broadCast_reaches_visit : ∃ s os, ∃ b : BroadCast,
    Completes (step .loopback .little) start ((visit localClient).take 3) s os ∧
      b.walk = [⟨0, localClient⟩] ∧
      b.Reaches .little s (history ((visit localClient).take 3) os) := by
  obtain ⟨s, os, s', b, h, hstep, hwalk, hopen⟩ : ∃ s os s', ∃ b : BroadCast,
      Completes (step .loopback .little) start ((visit localClient).take 3) s os ∧
      s.step .loopback .little (.timerHandled 0 5 [⟨0, localClient⟩]) = .ok (s', .ticked b) ∧
      b.walk = [⟨0, localClient⟩] ∧ b.isOpen = true := ⟨_, _, _, _, rfl, rfl, rfl, rfl⟩
  exact ⟨s, os, b, h, hwalk,
    broadCast_reaches .loopback .little _ s os h _ s' _ hstep b (.inr rfl) hopen⟩

end Manager

end P2PWatcher
