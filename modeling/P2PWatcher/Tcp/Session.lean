import P2PWatcher.Wire.Packet
import P2PWatcher.Machine.Run
import P2PWatcher.Sequence.Split
import Mathlib.Data.List.Induction
import Mathlib.Algebra.Group.Nat.Even

/-!
# The read loop of a TCP connection

`doRead` of the server and `asyncRead` of the client are one loop: a read of four
bytes into `size`, in the byte order of the host, then a read into the buffer
resized to `size`, then the handler, and again. `ReadChain.step` is the handler of
whichever read is pending. The outer handler treats only the end of the stream as an
end: after any other error it goes on with the `size` that it finds there. So the
loop keeps what it promises exactly as long as no length read fails in
another way (`readsGuarded_iff`).
-/

namespace P2PWatcher

open Memory Machine Sequence

inductive ErrorCode where
  | eof
  | other (code : ℕ)
  deriving DecidableEq, Repr

/-- The result of an asynchronous read: the bytes read, and the error if there was one. -/
structure Completion where
  data : List UInt8
  ec : Option ErrorCode
  deriving DecidableEq, Repr

/-- A read into `n` bytes completes with a full buffer or with an error. -/
def Completion.Valid (n : ℕ) (c : Completion) : Prop :=
  c.data.length ≤ n ∧ (c.ec = none ↔ c.data.length = n)

instance (n : ℕ) (c : Completion) : Decidable (c.Valid n) := inferInstanceAs (Decidable (_ ∧ _))

inductive Phase where
  /-- the read of the length is pending -/
  | length
  /-- the read of the body is pending -/
  | body
  /-- no read is pending and none will be started -/
  | stopped
  deriving DecidableEq, Repr

/-- The variables `size` and `buffer` of a connection, and the read that is pending. -/
structure ReadChain where
  size : UInt32 := 0
  buffer : List UInt8 := []
  phase : Phase := .length
  deriving DecidableEq, Repr

/-- What a completion handler of the loop does besides its variables. -/
inductive ReadEvent where
  /-- `signal_deleting` was emitted -/
  | deleting
  /-- the client logged the disconnect -/
  | disconnected
  /-- a body read of so many bytes was started -/
  | bodyStarted (n : ℕ)
  /-- the error of a body read was logged -/
  | bodyError
  /-- the buffer was handed to the packet handler, and a length read was started -/
  | process (buffer : List UInt8)
  deriving DecidableEq, Repr

/-- Why there is no step: no read is pending, or the pending one cannot complete so. -/
inductive Refusal where
  | noRead
  | badCompletion
  deriving DecidableEq, Repr

namespace ReadChain

/-- The number of bytes that the pending read asks for. -/
def pending (s : ReadChain) : Option ℕ :=
  match s.phase with
  | .length => some 4
  | .body => some s.buffer.length
  | .stopped => none

/-- The handler of the pending read; `atEof` is what the program does at the end of
the stream. -/
def step (atEof : ReadEvent) (e : Endian) (s : ReadChain) (c : Completion) :
    Except Refusal (ReadChain × ReadEvent) :=
  match s.phase with
  | .length =>
      if c.Valid 4 then
        let size := get32 e (overlay (put32 e s.size) c.data)
        if c.ec = some .eof then .ok ({ s with size, phase := .stopped }, atEof)
        else
          .ok ({ size, buffer := resize 0 s.buffer size.toNat, phase := .body },
            .bodyStarted size.toNat)
      else .error .badCompletion
  | .body =>
      if c.Valid s.buffer.length then
        let buffer := overlay s.buffer c.data
        if c.ec.isSome then .ok ({ s with buffer, phase := .stopped }, .bodyError)
        else .ok ({ s with buffer, phase := .length }, .process buffer)
      else .error .badCompletion
  | .stopped => .error .noRead

end ReadChain

/-- The server's loop. -/
def AsioTcpClientSession.doRead :
    Endian → ReadChain → Completion → Except Refusal (ReadChain × ReadEvent) :=
  ReadChain.step .deleting

/-- The client's loop. -/
def BoostTcpConnection.asyncRead :
    Endian → ReadChain → Completion → Except Refusal (ReadChain × ReadEvent) :=
  ReadChain.step .disconnected

namespace ReadChain

/-! ## The four ways of a step -/

/-- A length read at the end of the stream. -/
structure AtEof (atEof : ReadEvent) (s : ReadChain) (c : Completion) (s' : ReadChain)
    (ev : ReadEvent) : Prop where
  phase : s.phase = .length
  valid : c.Valid 4
  ec : c.ec = some .eof
  phase' : s'.phase = .stopped
  event : ev = atEof

/-- A length read that goes on to a body read. -/
structure ToBody (e : Endian) (s : ReadChain) (c : Completion) (s' : ReadChain)
    (ev : ReadEvent) : Prop where
  phase : s.phase = .length
  valid : c.Valid 4
  ec : c.ec ≠ some .eof
  phase' : s'.phase = .body
  size : s'.size = get32 e (overlay (put32 e s.size) c.data)
  length : s'.buffer.length = s'.size.toNat
  event : ev = .bodyStarted s'.size.toNat

/-- A body read that fails. -/
structure BodyFails (s : ReadChain) (c : Completion) (s' : ReadChain) (ev : ReadEvent) :
    Prop where
  phase : s.phase = .body
  valid : c.Valid s.buffer.length
  ec : c.ec ≠ none
  phase' : s'.phase = .stopped
  event : ev = .bodyError

/-- A body read that succeeds. -/
structure ToLength (s : ReadChain) (c : Completion) (s' : ReadChain) (ev : ReadEvent) :
    Prop where
  phase : s.phase = .body
  valid : c.Valid s.buffer.length
  ec : c.ec = none
  phase' : s'.phase = .length
  event : ev = .process c.data

theorem step_cases {atEof : ReadEvent} {e : Endian} {s s' : ReadChain} {c : Completion}
    {ev : ReadEvent} (h : step atEof e s c = .ok (s', ev)) :
    AtEof atEof s c s' ev ∨ ToBody e s c s' ev ∨ BodyFails s c s' ev ∨ ToLength s c s' ev := by
  rw [step] at h
  split at h
  · next hphase =>
      split at h
      · next hvalid =>
          simp only at h
          split at h
          · next hec =>
              obtain ⟨rfl, rfl⟩ := Prod.mk.inj (Except.ok.inj h)
              exact .inl ⟨hphase, hvalid, hec, rfl, rfl⟩
          · next hec =>
              obtain ⟨rfl, rfl⟩ := Prod.mk.inj (Except.ok.inj h)
              exact .inr (.inl ⟨hphase, hvalid, hec, rfl, rfl, resize_length .., rfl⟩)
      · exact nomatch h
  · next hphase =>
      split at h
      · next hvalid =>
          simp only at h
          split at h
          · next hec =>
              obtain ⟨rfl, rfl⟩ := Prod.mk.inj (Except.ok.inj h)
              exact .inr (.inr (.inl ⟨hphase, hvalid, Option.isSome_iff_ne_none.mp hec, rfl, rfl⟩))
          · next hec =>
              obtain ⟨rfl, rfl⟩ := Prod.mk.inj (Except.ok.inj h)
              have hnone : c.ec = none := by simpa using hec
              refine .inr (.inr (.inr ⟨hphase, hvalid, hnone, rfl, ?_⟩))
              rw [overlay_of_length_eq (hvalid.2.mp hnone)]
      · exact nomatch h
  · exact nomatch h

theorem phase_ne_stopped_of_step {atEof : ReadEvent} {e : Endian} {s s' : ReadChain}
    {c : Completion} {ev : ReadEvent} (h : step atEof e s c = .ok (s', ev)) :
    s.phase ≠ .stopped := by
  rcases step_cases h with h | h | h | h <;> rw [h.phase] <;> decide

/-! ## Lengths and bodies alternate -/

theorem phase_iff_even {atEof : ReadEvent} {e : Endian} {s s' : ReadChain}
    (hs : s.phase = .length) {cs : List Completion} {evs : List ReadEvent}
    (h : Completes (step atEof e) s cs s' evs) (hs' : s'.phase ≠ .stopped) :
    s'.phase = .length ↔ Even cs.length := by
  induction cs using List.reverseRecOn generalizing s' evs with
  | nil =>
      obtain ⟨rfl, -⟩ := (completes_nil_iff _ _ _ _).mp h
      simp [hs]
  | append_singleton cs c ih =>
      obtain ⟨s₁, evs₁, ev, h₁, hstep, -⟩ := (completes_concat_iff _ _ _ _ _ _).mp h
      have hiff := ih h₁ (phase_ne_stopped_of_step hstep)
      rw [List.length_append, List.length_singleton, Nat.even_add_one, ← hiff]
      rcases step_cases hstep with hc | hc | hc | hc
      · exact absurd hc.phase' hs'
      · simp [hc.phase, hc.phase']
      · exact absurd hc.phase' hs'
      · simp [hc.phase, hc.phase']

/-- Before a pending body read there was the length read that asked for it. -/
theorem exists_toBody_of_body {atEof : ReadEvent} {e : Endian} {s s₁ : ReadChain}
    (hs : s.phase = .length) {pre : List Completion} {evs : List ReadEvent}
    (h : Completes (step atEof e) s pre s₁ evs) (hbody : s₁.phase = .body) :
    ∃ pre' c s₀ evs₀ ev, pre = pre' ++ [c] ∧ Completes (step atEof e) s pre' s₀ evs₀ ∧
      ToBody e s₀ c s₁ ev := by
  rcases List.eq_nil_or_concat' pre with rfl | ⟨pre', c, rfl⟩
  · obtain ⟨rfl, -⟩ := (completes_nil_iff _ _ _ _).mp h
    exact absurd (hs.symm.trans hbody) (by decide)
  · obtain ⟨s₀, evs₀, ev, hrun, hstep, -⟩ := (completes_concat_iff _ _ _ _ _ _).mp h
    rcases step_cases hstep with hcase | hcase | hcase | hcase
    · exact absurd (hcase.phase'.symm.trans hbody) (by decide)
    · exact ⟨pre', c, s₀, evs₀, ev, rfl, hrun, hcase⟩
    · exact absurd (hcase.phase'.symm.trans hbody) (by decide)
    · exact absurd (hcase.phase'.symm.trans hbody) (by decide)

theorem ToBody.buffer_length {e : Endian} {s s' : ReadChain} {c : Completion} {ev : ReadEvent}
    (h : ToBody e s c s' ev) (hec : c.ec = none) :
    s'.buffer.length = (get32 e c.data).toNat := by
  have hfour : c.data.length = (put32 e s.size).length := by
    rw [put32_length]
    exact h.valid.2.mp hec
  rw [h.length, h.size, overlay_of_length_eq hfour]

end ReadChain

/-! ## The guarded loop -/

/-- In the run on `cs` from `s`: a length read that fails stops the loop, and a buffer is
handed to the packet handler only if the length read immediately before it succeeded and
the buffer has exactly the length that was read. -/
def ReadsGuarded (e : Endian)
    (step : ReadChain → Completion → Except Refusal (ReadChain × ReadEvent)) (s : ReadChain)
    (cs : List Completion) : Prop :=
  ∀ pre c post, cs = pre ++ c :: post → ∀ s₁ evs s₂ ev, Completes step s pre s₁ evs →
    step s₁ c = .ok (s₂, ev) →
      (s₁.phase = .length → c.ec ≠ none → s₂.phase = .stopped) ∧
      ∀ buffer, ev = .process buffer → ∃ pre' c', pre = pre' ++ [c'] ∧ c'.ec = none ∧
        buffer.length = (get32 e c'.data).toNat

theorem forall_getElem?_two_mul_iff {α : Type*} (cs : List α) (P : α → Prop) :
    (∀ k c, cs[2 * k]? = some c → P c) ↔
      ∀ pre c post, cs = pre ++ c :: post → Even pre.length → P c := by
  constructor
  · rintro h pre c post rfl ⟨k, hk⟩
    refine h k c ?_
    rw [show 2 * k = pre.length by omega]
    simp
  · intro h k c hc
    obtain ⟨pre, post, hsplit, hlen⟩ := exists_split hc
    refine h pre c post hsplit ?_
    rw [hlen]
    exact even_two_mul k

/-- Without another error than the end of the stream on a length read, a buffer that is
handed on has the length that was read. -/
theorem exists_length_of_process {atEof : ReadEvent} (hatEof : ∀ b, atEof ≠ .process b)
    {e : Endian} {s s₁ s₂ : ReadChain} (hs : s.phase = .length) {pre : List Completion}
    {evs : List ReadEvent} (h : Completes (ReadChain.step atEof e) s pre s₁ evs)
    {c : Completion} {buffer : List UInt8}
    (hstep : ReadChain.step atEof e s₁ c = .ok (s₂, .process buffer))
    (hcond : ∀ pre' c' post, pre = pre' ++ c' :: post → Even pre'.length →
      c'.ec = none ∨ c'.ec = some .eof) :
    ∃ pre' c', pre = pre' ++ [c'] ∧ c'.ec = none ∧
      buffer.length = (get32 e c'.data).toNat := by
  rcases ReadChain.step_cases hstep with hcase | hcase | hcase | hcase
  · exact absurd hcase.event.symm (hatEof buffer)
  · exact absurd hcase.event (by simp)
  · exact absurd hcase.event (by simp)
  · obtain rfl := ReadEvent.process.inj hcase.event
    obtain ⟨pre', c', s₀, evs₀, ev₀, rfl, h₀, hbody⟩ :=
      ReadChain.exists_toBody_of_body hs h hcase.phase
    have hlength : s₀.phase ≠ .stopped := by
      rw [hbody.phase]
      decide
    have heven := (ReadChain.phase_iff_even hs h₀ hlength).mp hbody.phase
    have hnone : c'.ec = none := (hcond pre' c' [] rfl heven).resolve_right hbody.ec
    refine ⟨pre', c', rfl, hnone, ?_⟩
    rw [hcase.valid.2.mp hcase.ec, hbody.buffer_length hnone]

theorem readsGuarded_step_iff (atEof : ReadEvent) (hatEof : ∀ b, atEof ≠ .process b)
    (e : Endian) {s s' : ReadChain} (hs : s.phase = .length) {cs : List Completion}
    {evs : List ReadEvent} (h : Completes (ReadChain.step atEof e) s cs s' evs) :
    ReadsGuarded e (ReadChain.step atEof e) s cs ↔
      ∀ k c, cs[2 * k]? = some c → c.ec = none ∨ c.ec = some .eof := by
  rw [forall_getElem?_two_mul_iff cs fun c => c.ec = none ∨ c.ec = some .eof]
  constructor
  · rintro hguard pre c post rfl heven
    obtain ⟨s₁, evs₁, evs₂, h₁, h₂, -⟩ := (completes_append_iff _ _ _ _ _ _).mp h
    obtain ⟨s₂, ev, _, hstep, -, -⟩ := (completes_cons_iff _ _ _ _ _ _).mp h₂
    have hphase : s₁.phase = .length :=
      (ReadChain.phase_iff_even hs h₁ (ReadChain.phase_ne_stopped_of_step hstep)).mpr heven
    have hstop := (hguard pre c post rfl s₁ evs₁ s₂ ev h₁ hstep).1 hphase
    rcases ReadChain.step_cases hstep with hcase | hcase | hcase | hcase
    · exact .inr hcase.ec
    · -- a guarded loop does not go on to a body after an error
      by_contra hec
      have hstopped := hstop fun hnone => hec (.inl hnone)
      exact absurd (hcase.phase'.symm.trans hstopped) (by decide)
    · exact absurd (hcase.phase.symm.trans hphase) (by decide)
    · exact .inl hcase.ec
  · rintro hcond pre c post rfl s₁ evs₁ s₂ ev h₁ hstep
    constructor
    · intro hphase hne
      have heven := (ReadChain.phase_iff_even hs h₁
        (ReadChain.phase_ne_stopped_of_step hstep)).mp hphase
      have heof := (hcond pre c post rfl heven).resolve_left hne
      rcases ReadChain.step_cases hstep with hcase | hcase | hcase | hcase
      · exact hcase.phase'
      · exact absurd heof hcase.ec
      · exact hcase.phase'
      · exact absurd hcase.ec hne
    · rintro buffer rfl
      refine exists_length_of_process hatEof hs h₁ hstep ?_
      rintro pre' c' post' rfl
      exact hcond pre' c' (post' ++ c :: post) (List.append_assoc ..)

/-- On both sides: the loop is guarded exactly when no length read fails with another
error than the end of the stream. -/
theorem readsGuarded_iff (e : Endian) {s : ReadChain} (hs : s.phase = .length)
    (cs : List Completion) :
    (∀ s' evs, Completes (AsioTcpClientSession.doRead e) s cs s' evs →
      (ReadsGuarded e (AsioTcpClientSession.doRead e) s cs ↔
        ∀ k c, cs[2 * k]? = some c → c.ec = none ∨ c.ec = some .eof)) ∧
    ∀ s' evs, Completes (BoostTcpConnection.asyncRead e) s cs s' evs →
      (ReadsGuarded e (BoostTcpConnection.asyncRead e) s cs ↔
        ∀ k c, cs[2 * k]? = some c → c.ec = none ∨ c.ec = some .eof) :=
  ⟨fun _ _ h => readsGuarded_step_iff .deleting (by simp) e hs h,
    fun _ _ h => readsGuarded_step_iff .disconnected (by simp) e hs h⟩

/-- A connection is reset before the first length, and the body read with the initial
length 0 succeeds. -/
def resetAtStart : List Completion :=
  [{ data := [], ec := some (.other 104) }, { data := [], ec := none }]

theorem completes_resetAtStart (atEof : ReadEvent) :
    Completes (ReadChain.step atEof .little) {} resetAtStart {}
      [.bodyStarted 0, .process []] := rfl

theorem readsGuarded_fails :
    (∃ s' evs, Completes (AsioTcpClientSession.doRead .little) {} resetAtStart s' evs) ∧
      ¬ ReadsGuarded .little (AsioTcpClientSession.doRead .little) {} resetAtStart ∧
    (∃ s' evs, Completes (BoostTcpConnection.asyncRead .little) {} resetAtStart s' evs) ∧
      ¬ ReadsGuarded .little (BoostTcpConnection.asyncRead .little) {} resetAtStart := by
  have hcond : ¬ ∀ k c, resetAtStart[2 * k]? = some c → c.ec = none ∨ c.ec = some .eof := by
    intro h
    exact absurd (h 0 _ rfl) (by decide)
  have hserver := completes_resetAtStart .deleting
  have hclient := completes_resetAtStart .disconnected
  exact ⟨⟨_, _, hserver⟩, mt (readsGuarded_step_iff .deleting (by simp) _ rfl hserver).mp hcond,
    ⟨_, _, hclient⟩, mt (readsGuarded_step_iff .disconnected (by simp) _ rfl hclient).mp hcond⟩

theorem readsGuarded_iff_reset :
    ReadsGuarded .little (AsioTcpClientSession.doRead .little) {} resetAtStart ↔
      ∀ k c, resetAtStart[2 * k]? = some c → c.ec = none ∨ c.ec = some .eof :=
  (readsGuarded_iff .little rfl resetAtStart).1 _ _ (completes_resetAtStart .deleting)

end P2PWatcher
