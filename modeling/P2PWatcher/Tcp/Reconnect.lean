import P2PWatcher.Tcp.Client

/-!
# The UDP socket of the client

The client opens its UDP socket when it gets a `FirstData`, and opening an open socket throws.
`doDisconnect` closes it, and a failed connect or write calls `doDisconnect`. The two
ends of the read loop do not: behind the end of the stream, or an error of a body
read, the socket stays open, and the `FirstData` of the next connection ends the program. So
does a second one of the same connection. The socket is found closed exactly when there is a
`doDisconnect` between any two `FirstData` (`opensClosed_iff`).
-/

namespace P2PWatcher

open Memory Machine Sequence

namespace Client

/-- The handler of a body read gets as far as `BoostUdpConnection::open`, with the pair `a`. -/
def Opens (e : Endian) (s : Client) (a : TcpData.FirstData) (ec : Option ErrorCode) :
    OpKind → Prop
  | .body _ => ec = none ∧ BoostTcpConnection.prcsPacket e s.buffer = .ok (.firstData a)
  | _ => False

/-- The handler of an attempt to connect, or of a write, calls `doDisconnect`. -/
def GivesUp (s : Client) (ec : Option ErrorCode) : OpKind → Prop
  | .connect rest => s.isOpen = false ∨ ec ≠ none ∧ rest = 0
  | .write => ec ≠ none
  | _ => False

/-- The step gets as far as `BoostUdpConnection::open`, with the pair `a`. -/
def OpensWith (e : Endian) (s : Client) (a : TcpData.FirstData) : ClientEvent → Prop
  | .handled i => ∃ op ec, s.ops[i]? = some op ∧ op.result = some ec ∧ s.Opens e a ec op.kind
  | _ => False

/-- The step gets as far as `BoostUdpConnection::open`. -/
def OpensUdp (e : Endian) (s : Client) (event : ClientEvent) : Prop :=
  ∃ a, s.OpensWith e a event

/-- The step calls `doDisconnect`. -/
def Disconnects (s : Client) : ClientEvent → Prop
  | .doDisconnect => True
  | .resolved _ result => ∃ ec, result = .error ec
  | .handled i => ∃ op ec, s.ops[i]? = some op ∧ op.result = some ec ∧ s.GivesUp ec op.kind
  | _ => False

/-- A `FirstData` that is handed on finds the UDP socket closed, and is processed if the host
has the endpoint. -/
def OpensClosed (asio : Asio) (e : Endian) (s : Client) (event : ClientEvent) : Prop :=
  ∀ a, s.OpensWith e a event → s.udp.isOpen = false ∧
    (asio.Opens a.clientAddr a.clientPort → ∃ r, s.step asio e event = .ok r)

/-! ## One handler -/

theorem prcsPacket_udp {asio : Asio} {e : Endian} {s s' : Client} {effect : TcpEffect}
    (h : s.prcsPacket asio e = .ok (s', effect)) :
    (∃ a, BoostTcpConnection.prcsPacket e s.buffer = .ok (.firstData a)) ∧
      s'.udp.isOpen = true ∨
    (¬ ∃ a, BoostTcpConnection.prcsPacket e s.buffer = .ok (.firstData a)) ∧
      s'.udp = s.udp := by
  rw [prcsPacket] at h
  split at h
  · exact nomatch h
  · next a hframe =>
      split at h
      · exact nomatch h
      · next udp hudp =>
          obtain ⟨rfl, -⟩ := Prod.mk.inj (Except.ok.inj h)
          exact .inl ⟨⟨a, hframe⟩, (BoostTcpConnection.starts_firstData hudp).isOpen⟩
  · next effect' hnot hframe =>
      obtain ⟨rfl, -⟩ := Prod.mk.inj (Except.ok.inj h)
      refine .inr ⟨?_, rfl⟩
      rintro ⟨a, ha⟩
      exact hnot a (Except.ok.inj (hframe.symm.trans ha))

theorem connectHandler_udp (s : Client) (rest : ℕ) (ec : Option ErrorCode) :
    (s.GivesUp ec (.connect rest) → (s.connectHandler rest ec).udp.isOpen = false) ∧
      (¬ s.GivesUp ec (.connect rest) → (s.connectHandler rest ec).udp = s.udp) := by
  rw [GivesUp, connectHandler.eq_def]
  split
  · next hopen =>
      cases ec with
      | none => simp [hopen, asyncRead]
      | some ec => cases rest <;> simp [hopen]
  · next hclosed => simp [hclosed]

/-- The three things a handler may do to the UDP socket. -/
theorem handler_udp {asio : Asio} {e : Endian} {s s' : Client} {ec : Option ErrorCode}
    {kind : OpKind} {o : Option TcpEffect} (h : s.handler asio e ec kind = .ok (s', o)) :
    ((∃ a, s.Opens e a ec kind) → s'.udp.isOpen = true) ∧
    (s.GivesUp ec kind → s'.udp.isOpen = false) ∧
    ((¬ ∃ a, s.Opens e a ec kind) → ¬ s.GivesUp ec kind → s'.udp = s.udp) := by
  cases kind with
  | connect rest =>
      obtain ⟨rfl, -⟩ := Prod.mk.inj (Except.ok.inj h)
      obtain ⟨hgives, hkeeps⟩ := connectHandler_udp s rest ec
      refine ⟨?_, hgives, fun _ => hkeeps⟩
      rintro ⟨_, hopens⟩
      exact hopens.elim
  | length =>
      obtain ⟨rfl, -⟩ := Prod.mk.inj (Except.ok.inj h)
      refine ⟨?_, False.elim, fun _ _ => lengthHandler_udp s ec⟩
      rintro ⟨_, hopens⟩
      exact hopens.elim
  | body n =>
      rw [handler, bodyHandler] at h
      split at h
      · next hec =>
          obtain ⟨rfl, -⟩ := Prod.mk.inj (Except.ok.inj h)
          refine ⟨?_, False.elim, fun _ _ => rfl⟩
          rintro ⟨a, rfl, -⟩
          cases hec
      · next hec =>
          obtain ⟨⟨t, effect⟩, hframe, heq⟩ := (map_eq_ok_iff _ _ _).mp h
          obtain ⟨rfl, -⟩ := Prod.mk.inj heq
          have hnone : ec = none := by simpa using hec
          rcases prcsPacket_udp hframe with ⟨hfirst, hopen⟩ | ⟨hnot, hsame⟩
          · obtain ⟨a, ha⟩ := hfirst
            exact ⟨fun _ => hopen, False.elim, fun hopens => absurd ⟨a, hnone, ha⟩ hopens⟩
          · refine ⟨?_, False.elim, fun _ _ => hsame⟩
            rintro ⟨a, hopens⟩
            exact absurd ⟨a, hopens.2⟩ hnot
  | write =>
      obtain ⟨rfl, -⟩ := Prod.mk.inj (Except.ok.inj h)
      rw [writeHandler, GivesUp]
      cases ec with
      | none => simp [Opens]
      | some ec => simp [Opens]

/-! ## One step -/

theorem udpStep_isOpen {asio : Asio} {e : Endian} {s s' : Client} {event : LoopEvent}
    (hopened : ∀ addr port, event ≠ .opened addr port) (hclosed : event ≠ .closed)
    (h : s.udpStep asio e event = .ok s') : s'.udp.isOpen = s.udp.isOpen := by
  rw [udpStep] at h
  split at h
  · exact nomatch h
  · next udp o hloop =>
      obtain rfl := Except.ok.inj h
      rcases ReceiveLoop.step_cases hloop with ⟨addr, port, rfl, -⟩ |
        ⟨i, result, -, hreceived, -⟩ | ⟨i, -, hfailed⟩ | ⟨i, -, hturn⟩ | ⟨rfl, -⟩
      · exact absurd rfl (hopened addr port)
      · exact hreceived.isOpen
      · exact hfailed.isOpen
      · exact hturn.isOpen
      · exact absurd rfl hclosed

/-- The operation whose handler runs. -/
theorem handle_udp {asio : Asio} {e : Endian} {s s' : Client} {i : ℕ} {o : Option TcpEffect}
    (h : s.handle asio e i = .ok (s', o)) :
    (s.OpensUdp e (.handled i) → s'.udp.isOpen = true) ∧
    (s.Disconnects (.handled i) → s'.udp.isOpen = false) ∧
    (¬ s.OpensUdp e (.handled i) → ¬ s.Disconnects (.handled i) → s'.udp = s.udp) := by
  obtain ⟨pre, op, post, ec, hops, rfl, hec, hhandler⟩ := handle_cases h
  have hfound : s.ops[pre.length]? = some op := by
    rw [hops, getElem?_split]
  obtain ⟨hopens, hgives, hkeeps⟩ := handler_udp hhandler
  have honly : ∀ Q : Op → Option ErrorCode → Prop,
      (∃ op' ec', s.ops[pre.length]? = some op' ∧ op'.result = some ec' ∧ Q op' ec') ↔
        Q op ec := by
    intro Q
    constructor
    · rintro ⟨op', ec', hfound', hec', hQ⟩
      obtain rfl := Option.some.inj (hfound.symm.trans hfound')
      obtain rfl := Option.some.inj (hec.symm.trans hec')
      exact hQ
    · exact fun hQ => ⟨op, ec, hfound, hec, hQ⟩
  have hopensUdp : s.OpensUdp e (.handled pre.length) ↔ ∃ a, s.Opens e a ec op.kind :=
    exists_congr fun a => honly fun op ec => s.Opens e a ec op.kind
  have hdisconnects := honly fun op ec => s.GivesUp ec op.kind
  exact ⟨fun ho => hopens (hopensUdp.mp ho), fun hd => hgives (hdisconnects.mp hd),
    fun ho hd => hkeeps (mt hopensUdp.mpr ho) (mt hdisconnects.mpr hd)⟩

theorem not_opensUdp (e : Endian) (s : Client) {event : ClientEvent}
    (h : ∀ i, event ≠ .handled i) : ¬ s.OpensUdp e event := by
  rintro ⟨a, ha⟩
  cases event with
  | handled i => exact h i rfl
  | _ => exact ha

/-- The UDP socket is opened by a step that opens it, closed by one that disconnects,
and no other step does either. -/
theorem step_udp_isOpen {asio : Asio} {e : Endian} {s s' : Client} {event : ClientEvent}
    {o : Option TcpEffect} (h : s.step asio e event = .ok (s', o)) :
    (s.OpensUdp e event → s'.udp.isOpen = true) ∧
    (s.Disconnects event → s'.udp.isOpen = false) ∧
    (¬ s.OpensUdp e event → ¬ s.Disconnects event → s'.udp.isOpen = s.udp.isOpen) := by
  have hnone : (∀ i, event ≠ .handled i) → s.OpensUdp e event → s'.udp.isOpen = true :=
    fun hne hopens => absurd hopens (not_opensUdp e s hne)
  cases event with
  | doConnect addr port =>
      obtain ⟨rfl, -⟩ := Prod.mk.inj (Except.ok.inj h)
      exact ⟨hnone (by simp), False.elim, fun _ _ => rfl⟩
  | doDisconnect =>
      obtain ⟨rfl, -⟩ := Prod.mk.inj (Except.ok.inj h)
      exact ⟨hnone (by simp), fun _ => doDisconnect_udp_isOpen s, fun _ hd => absurd trivial hd⟩
  | asyncWrite dataType buffer =>
      obtain ⟨rfl, -⟩ := Prod.mk.inj (Except.ok.inj h)
      exact ⟨hnone (by simp), False.elim, fun _ _ => by rw [asyncWrite_udp]⟩
  | resolved i result =>
      obtain ⟨ht, -⟩ := (map_pair_eq_ok_iff _ _ _ _).mp h
      obtain ⟨resolves, ⟨ec, rfl, rfl⟩ | ⟨rest, rfl, rfl⟩⟩ := resolved_cases ht
      · exact ⟨hnone (by simp), fun _ => doDisconnect_udp_isOpen _, fun _ hd => absurd ⟨ec, rfl⟩ hd⟩
      · refine ⟨hnone (by simp), ?_, fun _ _ => by rw [attempt_udp]⟩
        rintro ⟨ec, hec⟩
        exact nomatch hec
  | arrived i data =>
      obtain ⟨ht, -⟩ := (map_pair_eq_ok_iff _ _ _ _).mp h
      exact ⟨hnone (by simp), False.elim, fun _ _ => by rw [arrive_eq ht]⟩
  | completed i c =>
      obtain ⟨ht, -⟩ := (map_pair_eq_ok_iff _ _ _ _).mp h
      obtain ⟨pre, op, post, -, -, -, hsame⟩ := complete_cases ht
      exact ⟨hnone (by simp), False.elim, fun _ _ => by rw [hsame]⟩
  | handled i =>
      obtain ⟨hopens, hdisconnects, hkeeps⟩ := handle_udp h
      exact ⟨hopens, hdisconnects, fun ho hd => by rw [hkeeps ho hd]⟩
  | datagram i result =>
      obtain ⟨ht, -⟩ := (map_pair_eq_ok_iff _ _ _ _).mp h
      exact ⟨hnone (by simp), False.elim, fun _ _ => udpStep_isOpen (by simp) (by simp) ht⟩
  | datagramHandled i =>
      obtain ⟨ht, -⟩ := (map_pair_eq_ok_iff _ _ _ _).mp h
      exact ⟨hnone (by simp), False.elim, fun _ _ => udpStep_isOpen (by simp) (by simp) ht⟩

/-- Opening the closed socket works on an endpoint of the host, and opening the open one ends
the program. -/
theorem step_eq_ok_iff_of_opensWith {asio : Asio} {e : Endian} {s : Client}
    {a : TcpData.FirstData} {event : ClientEvent} (h : s.OpensWith e a event) :
    (∃ r, s.step asio e event = .ok r) ↔
      s.udp.isOpen = false ∧ asio.Opens a.clientAddr a.clientPort := by
  cases event with
  | handled i =>
      obtain ⟨op, ec, hfound, hec, hopens⟩ := h
      obtain ⟨pre, post, hops, rfl⟩ := exists_split hfound
      have hhandle : s.handle asio e pre.length = _ := handle_of_split hops hec
      rw [step, hhandle]
      cases hkind : op.kind with
      | body n =>
          rw [hkind] at hopens
          obtain ⟨rfl, hframe⟩ := hopens
          have hfirst :=
            BoostTcpConnection.firstData_eq_ok_iff asio s.udp a.clientAddr a.clientPort
          rw [handler, bodyHandler, prcsPacket]
          simp only [hframe]
          cases hudp : BoostTcpConnection.firstData asio s.udp a.clientAddr a.clientPort with
          | error why =>
              refine iff_of_false (by simp [Except.map]) fun hopens => ?_
              rw [(hfirst _).mpr ⟨hopens, rfl⟩] at hudp
              cases hudp
          | ok udp => exact iff_of_true ⟨_, rfl⟩ ((hfirst udp).mp hudp).1
      | length | connect rest | write => rw [hkind] at hopens; exact hopens.elim
  | _ => exact h.elim

theorem opensClosed_step_iff (asio : Asio) (e : Endian) (s : Client) (event : ClientEvent) :
    s.OpensClosed asio e event ↔ (s.OpensUdp e event → ¬ s.udp.isOpen = true) := by
  simp only [Bool.not_eq_true]
  constructor
  · rintro h ⟨a, ha⟩
    exact (h a ha).1
  · intro h a ha
    have hclosed := h ⟨a, ha⟩
    exact ⟨hclosed, fun hopens => (step_eq_ok_iff_of_opensWith ha).mpr ⟨hclosed, hopens⟩⟩

/-! ## Whole runs -/

/-- In every run of the client: the UDP socket is opened only while it is closed, exactly when
there is a `doDisconnect` between any two `FirstData` that are handed on. -/
theorem opensClosed_iff (asio : Asio) (e : Endian) (events : List ClientEvent) :
    EachStep (step asio e) {} events (OpensClosed asio e) ↔
      Separated (step asio e) {} events (OpensUdp e) Disconnects := by
  have hflag : OpensClosed asio e = fun s event => s.OpensUdp e event → ¬ s.udp.isOpen = true :=
    funext fun s => funext fun event => propext (opensClosed_step_iff asio e s event)
  rw [hflag]
  refine eachStep_flag_iff (P := fun s : Client => s.udp.isOpen = true)
    (fun s event s' o h => (step_udp_isOpen h).1) (fun s event s' o h hd => ?_)
    (fun s event s' o h ho hd => ?_) (by simp) events
  · rw [(step_udp_isOpen h).2.1 hd]
    exact Bool.false_ne_true
  · rw [(step_udp_isOpen h).2.2 ho hd]

/-- What the client is told about itself. -/
def firstData : TcpData.FirstData := { clientAddr := localhost, clientPort := 7 }

/-- The server's first frame for it. -/
def firstBody : List UInt8 :=
  (AsioTcpClientSession.packet TcpData.DataTypes.firstData
    (firstData.serialize .little)).serialize .little

/-- The server closes the connection, and the client connects again. -/
def closedByServer : List ClientEvent :=
  firstFrame firstBody ++ [.handled 0, .completed 0 { data := [], ec := some .eof }, .handled 0] ++
    firstFrame firstBody

/-- Without a `doDisconnect` the second `FirstData` ends the program. -/
theorem opensClosed_fails : ∃ s os, Completes (step .loopback .little) {} closedByServer s os ∧
    s.udp.isOpen = true ∧ s.OpensUdp .little (.handled 0) ∧
    s.step .loopback .little (.handled 0) = .error (.udp .alreadyOpen) ∧
    ¬ EachStep (step .loopback .little) {} (closedByServer ++ [.handled 0])
      (OpensClosed .loopback .little) := by
  obtain ⟨s, os, hrun, hopen, hopens, hstop⟩ : ∃ s os,
      Completes (step .loopback .little) {} closedByServer s os ∧ s.udp.isOpen = true ∧
        s.OpensWith .little firstData (.handled 0) ∧
        s.step .loopback .little (.handled 0) = .error (.udp .alreadyOpen) :=
    ⟨_, _, rfl, rfl, ⟨_, _, rfl, rfl, rfl, rfl⟩, rfl⟩
  refine ⟨s, os, hrun, hopen, ⟨_, hopens⟩, hstop, fun hall => ?_⟩
  have hclosed := (hall closedByServer (.handled 0) [] rfl s os hrun firstData hopens).1
  rw [hopen] at hclosed
  exact nomatch hclosed

end Client

end P2PWatcher
