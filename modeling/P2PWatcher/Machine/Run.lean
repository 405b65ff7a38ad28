import Mathlib.Data.List.Basic
import Mathlib.Data.List.Induction
import Mathlib.Tactic.Common

/-!
# Runs of a machine

A machine takes an input in a state and either fails or goes to the next state
with an output. `run step s is` feeds it the inputs `is`: it gives the outputs
up to the first failure, and the last state or that failure. What a completed
run does is `Completes`, with the rules for the empty run, for one more input at
the front or at the end, and for two runs one after the other. A property that
every step preserves holds at the end of every completed run; where a step may
break it, the property holds throughout a run exactly when no step of the run
does (`throughout_iff_eachStep`). A flag that some steps set is down whenever they set
it, exactly when one that clears it comes between any two of them (`eachStep_flag_iff`).
-/

namespace Machine

/-- The outputs of a run and how it ends. -/
def run {S I O E : Type*} (step : S → I → Except E (S × O)) :
    S → List I → List O × Except E S
  | s, [] => ([], .ok s)
  | s, i :: is =>
      match step s i with
      | .error e => ([], .error e)
      | .ok (s', o) => (o :: (run step s' is).1, (run step s' is).2)

/-- The run on `is` from `s` does not fail, ends in `s'` and puts out `os`. -/
def Completes {S I O E : Type*} (step : S → I → Except E (S × O))
    (s : S) (is : List I) (s' : S) (os : List O) : Prop :=
  run step s is = (os, .ok s')

theorem run_nil {S I O E : Type*} (step : S → I → Except E (S × O)) (s : S) :
    run step s [] = ([], .ok s) := rfl

theorem run_cons_of_ok {S I O E : Type*} {step : S → I → Except E (S × O)}
    {s s' : S} {i : I} {o : O} (h : step s i = .ok (s', o)) (is : List I) :
    run step s (i :: is) = (o :: (run step s' is).1, (run step s' is).2) := by
  rw [run, h]

theorem run_cons_of_error {S I O E : Type*} {step : S → I → Except E (S × O)}
    {s : S} {i : I} {e : E} (h : step s i = .error e) (is : List I) :
    run step s (i :: is) = ([], .error e) := by
  rw [run, h]

theorem completes_nil_iff {S I O E : Type*} (step : S → I → Except E (S × O))
    (s s' : S) (os : List O) :
    Completes step s [] s' os ↔ s = s' ∧ os = [] := by
  rw [Completes, run_nil, Prod.mk.injEq, Except.ok.injEq, and_comm, eq_comm (a := os)]

theorem completes_cons_iff {S I O E : Type*} (step : S → I → Except E (S × O))
    (s s'' : S) (i : I) (is : List I) (os : List O) :
    Completes step s (i :: is) s'' os ↔
      ∃ s' o os', step s i = .ok (s', o) ∧ Completes step s' is s'' os' ∧ os = o :: os' := by
  rw [Completes]
  cases h : step s i with
  | error e =>
      rw [run_cons_of_error h]
      simp
  | ok so =>
      obtain ⟨s', o⟩ := so
      rw [run_cons_of_ok h]
      simp only [Except.ok.injEq, Completes, Prod.ext_iff]
      constructor
      · rintro ⟨rfl, hend⟩
        exact ⟨s', o, _, ⟨rfl, rfl⟩, ⟨rfl, hend⟩, rfl⟩
      · rintro ⟨t, p, os', ⟨rfl, rfl⟩, ⟨rfl, hend⟩, rfl⟩
        exact ⟨rfl, hend⟩

theorem completes_append_iff {S I O E : Type*} (step : S → I → Except E (S × O))
    (s s'' : S) (is js : List I) (os : List O) :
    Completes step s (is ++ js) s'' os ↔
      ∃ s' os₁ os₂, Completes step s is s' os₁ ∧ Completes step s' js s'' os₂ ∧
        os = os₁ ++ os₂ := by
  induction is generalizing s os with
  | nil =>
      simp only [List.nil_append, completes_nil_iff]
      constructor
      · intro h
        exact ⟨s, [], os, ⟨rfl, rfl⟩, h, rfl⟩
      · rintro ⟨_, _, os₂, ⟨rfl, rfl⟩, h, rfl⟩
        exact h
  | cons i is ih =>
      simp only [List.cons_append, completes_cons_iff, ih]
      constructor
      · rintro ⟨t, o, _, hstep, ⟨s', os₁, os₂, h₁, h₂, rfl⟩, rfl⟩
        exact ⟨s', o :: os₁, os₂, ⟨t, o, os₁, hstep, h₁, rfl⟩, h₂, rfl⟩
      · rintro ⟨s', _, os₂, ⟨t, o, os₁, hstep, h₁, rfl⟩, h₂, rfl⟩
        exact ⟨t, o, os₁ ++ os₂, hstep, ⟨s', os₁, os₂, h₁, h₂, rfl⟩, rfl⟩

theorem completes_singleton_iff {S I O E : Type*} (step : S → I → Except E (S × O))
    (s s' : S) (i : I) (os : List O) :
    Completes step s [i] s' os ↔ ∃ o, step s i = .ok (s', o) ∧ os = [o] := by
  rw [completes_cons_iff]
  constructor
  · rintro ⟨t, o, _, hstep, hnil, rfl⟩
    obtain ⟨rfl, rfl⟩ := (completes_nil_iff step _ _ _).mp hnil
    exact ⟨o, hstep, rfl⟩
  · rintro ⟨o, hstep, rfl⟩
    exact ⟨s', o, [], hstep, (completes_nil_iff step _ _ _).mpr ⟨rfl, rfl⟩, rfl⟩

/-- One more input at the end. -/
theorem completes_concat_iff {S I O E : Type*} (step : S → I → Except E (S × O))
    (s s'' : S) (is : List I) (i : I) (os : List O) :
    Completes step s (is ++ [i]) s'' os ↔
      ∃ s' os' o, Completes step s is s' os' ∧ step s' i = .ok (s'', o) ∧ os = os' ++ [o] := by
  simp only [completes_append_iff, completes_singleton_iff]
  constructor
  · rintro ⟨s', os', _, h, ⟨o, hstep, rfl⟩, rfl⟩
    exact ⟨s', os', o, h, hstep, rfl⟩
  · rintro ⟨s', os', o, h, hstep, rfl⟩
    exact ⟨s', os', [o], h, ⟨o, hstep, rfl⟩, rfl⟩

theorem completes_unique {S I O E : Type*} {step : S → I → Except E (S × O)}
    {s s₁ s₂ : S} {is : List I} {os₁ os₂ : List O}
    (h₁ : Completes step s is s₁ os₁) (h₂ : Completes step s is s₂ os₂) :
    s₁ = s₂ ∧ os₁ = os₂ := by
  rw [Completes] at h₁ h₂
  rw [h₁, Prod.mk.injEq, Except.ok.injEq] at h₂
  exact h₂.symm

/-- Behind a step that is known, the rest of a run starts where the step ends. -/
theorem completes_of_cons {S I O E : Type*} {step : S → I → Except E (S × O)} {s t s' : S}
    {i : I} {o : O} {is : List I} {os : List O} (h : step s i = .ok (t, o))
    (hrun : Completes step s (i :: is) s' os) :
    ∃ os', Completes step t is s' os' ∧ os = o :: os' := by
  obtain ⟨t', o', os', hstep, hrest, rfl⟩ := (completes_cons_iff step _ _ _ _ _).mp hrun
  obtain ⟨rfl, rfl⟩ := Prod.mk.inj (Except.ok.inj (h.symm.trans hstep))
  exact ⟨os', hrest, rfl⟩

/-- And so it does behind a run that is known. -/
theorem completes_of_append {S I O E : Type*} {step : S → I → Except E (S × O)} {s t s' : S}
    {is js : List I} {os os₁ : List O} (h : Completes step s is t os₁)
    (hrun : Completes step s (is ++ js) s' os) :
    ∃ os₂, Completes step t js s' os₂ ∧ os = os₁ ++ os₂ := by
  obtain ⟨t', os₁', os₂, h', hrest, rfl⟩ := (completes_append_iff step _ _ _ _ _).mp hrun
  obtain ⟨rfl, rfl⟩ := completes_unique h h'
  exact ⟨os₂, hrest, rfl⟩

/-- What every step preserves holds at the end of every completed run. -/
theorem invariant_of_completes {S I O E : Type*} {step : S → I → Except E (S × O)}
    {P : S → Prop} (hstep : ∀ s i s' o, P s → step s i = .ok (s', o) → P s')
    {s s' : S} {is : List I} {os : List O} (h : Completes step s is s' os)
    (hs : P s) : P s' := by
  induction is generalizing s os with
  | nil =>
      obtain ⟨rfl, -⟩ := (completes_nil_iff step _ _ _).mp h
      exact hs
  | cons i is ih =>
      obtain ⟨t, o, os', hst, hrest, rfl⟩ := (completes_cons_iff step _ _ _ _ _).mp h
      exact ih hrest (hstep s i t o hs hst)

/-- The same for a property of the state, the inputs and the outputs so far. -/
theorem history_of_completes {S I O E : Type*} {step : S → I → Except E (S × O)} {s : S}
    {P : List I → S → List O → Prop} (hstart : P [] s [])
    (hstep : ∀ is t os i t' o, Completes step s is t os → P is t os →
      step t i = .ok (t', o) → P (is ++ [i]) t' (os ++ [o]))
    {is : List I} {s' : S} {os : List O} (h : Completes step s is s' os) : P is s' os := by
  induction is using List.reverseRecOn generalizing s' os with
  | nil =>
      obtain ⟨rfl, rfl⟩ := (completes_nil_iff step _ _ _).mp h
      exact hstart
  | append_singleton is i ih =>
      obtain ⟨t, os', o, hrun, hlast, rfl⟩ := (completes_concat_iff step _ _ _ _ _).mp h
      exact hstep is t os' i s' o hrun (ih hrun) hlast

/-- `P` holds in every state that the run on `is` reaches. -/
def Throughout {S I O E : Type*} (step : S → I → Except E (S × O)) (s : S) (is : List I)
    (P : S → Prop) : Prop :=
  ∀ pre post, is = pre ++ post → ∀ s' os, Completes step s pre s' os → P s'

/-- `Q` holds of every step of the run on `is`. -/
def EachStep {S I O E : Type*} (step : S → I → Except E (S × O)) (s : S) (is : List I)
    (Q : S → I → Prop) : Prop :=
  ∀ pre i post, is = pre ++ i :: post → ∀ s' os, Completes step s pre s' os → Q s' i

theorem throughout_nil_iff {S I O E : Type*} (step : S → I → Except E (S × O)) (s : S)
    (P : S → Prop) : Throughout step s [] P ↔ P s := by
  constructor
  · intro h
    exact h [] [] rfl s [] rfl
  · intro h pre post heq s' os hrun
    obtain ⟨rfl, -⟩ := List.append_eq_nil_iff.mp heq.symm
    obtain ⟨rfl, -⟩ := (completes_nil_iff step _ _ _).mp hrun
    exact h

theorem eachStep_nil {S I O E : Type*} (step : S → I → Except E (S × O)) (s : S)
    (Q : S → I → Prop) : EachStep step s [] Q := by
  intro pre i post heq
  simp at heq

theorem throughout_cons_iff {S I O E : Type*} {step : S → I → Except E (S × O)} {s t : S}
    {i : I} {o : O} (h : step s i = .ok (t, o)) (is : List I) (P : S → Prop) :
    Throughout step s (i :: is) P ↔ P s ∧ Throughout step t is P := by
  constructor
  · intro hall
    refine ⟨hall [] (i :: is) rfl s [] rfl, ?_⟩
    rintro pre post rfl s' os hrun
    exact hall (i :: pre) post rfl s' (o :: os)
      ((completes_cons_iff step _ _ _ _ _).mpr ⟨t, o, os, h, hrun, rfl⟩)
  · rintro ⟨hs, hall⟩ pre post heq s' os hrun
    cases pre with
    | nil =>
        obtain ⟨rfl, -⟩ := (completes_nil_iff step _ _ _).mp hrun
        exact hs
    | cons j pre =>
        obtain ⟨rfl, rfl⟩ := List.cons.inj heq
        obtain ⟨os', hrest, -⟩ := completes_of_cons h hrun
        exact hall pre post rfl s' os' hrest

theorem eachStep_cons_iff {S I O E : Type*} {step : S → I → Except E (S × O)} {s t : S}
    {i : I} {o : O} (h : step s i = .ok (t, o)) (is : List I) (Q : S → I → Prop) :
    EachStep step s (i :: is) Q ↔ Q s i ∧ EachStep step t is Q := by
  constructor
  · intro hall
    refine ⟨hall [] i is rfl s [] rfl, ?_⟩
    rintro pre j post rfl s' os hrun
    exact hall (i :: pre) j post rfl s' (o :: os)
      ((completes_cons_iff step _ _ _ _ _).mpr ⟨t, o, os, h, hrun, rfl⟩)
  · rintro ⟨hs, hall⟩ pre j post heq s' os hrun
    cases pre with
    | nil =>
        obtain ⟨rfl, -⟩ := (completes_nil_iff step _ _ _).mp hrun
        obtain ⟨rfl, -⟩ := List.cons.inj heq
        exact hs
    | cons k pre =>
        obtain ⟨rfl, rfl⟩ := List.cons.inj heq
        obtain ⟨os', hrest, -⟩ := completes_of_cons h hrun
        exact hall pre j post rfl s' os' hrest

/-- If `Q` says of every single step whether it keeps `P`, then `P` holds throughout a run
exactly when all its steps meet `Q`. -/
theorem throughout_iff_eachStep {S I O E : Type*} {step : S → I → Except E (S × O)}
    {Inv P : S → Prop} {Q : S → I → Prop}
    (hinv : ∀ s i s' o, Inv s → step s i = .ok (s', o) → Inv s')
    (hiff : ∀ s i s' o, Inv s → P s → step s i = .ok (s', o) → (P s' ↔ Q s i))
    {s s' : S} {is : List I} {os : List O} (h : Completes step s is s' os) (hs : Inv s)
    (hP : P s) : Throughout step s is P ↔ EachStep step s is Q := by
  induction is generalizing s os with
  | nil => exact iff_of_true ((throughout_nil_iff step s P).mpr hP) (eachStep_nil step s Q)
  | cons i is ih =>
      obtain ⟨t, o, os', hstep, hrest, -⟩ := (completes_cons_iff step _ _ _ _ _).mp h
      have hkeeps := hiff s i t o hs hP hstep
      have ht := hinv s i t o hs hstep
      rw [throughout_cons_iff hstep, eachStep_cons_iff hstep]
      constructor
      · rintro ⟨-, hall⟩
        have htP : P t := hall [] is rfl t [] rfl
        exact ⟨hkeeps.mp htP, (ih hrest ht htP).mp hall⟩
      · rintro ⟨hQ, hall⟩
        exact ⟨hP, (ih hrest ht (hkeeps.mpr hQ)).mpr hall⟩

/-- What the steps with `Q` preserve holds throughout a run of such steps. -/
theorem throughout_of_eachStep {S I O E : Type*} {step : S → I → Except E (S × O)}
    {P : S → Prop} {Q : S → I → Prop}
    (hstep : ∀ s i s' o, P s → Q s i → step s i = .ok (s', o) → P s') {s : S} {is : List I}
    (hs : P s) (h : EachStep step s is Q) : Throughout step s is P := by
  intro pre post heq s' os hrun
  refine history_of_completes (P := fun js t _ => (∃ ks, is = js ++ ks) → P t) (fun _ => hs) ?_
    hrun ⟨post, heq⟩
  rintro js t os i t' o hjs ih hlast ⟨ks, rfl⟩
  have ht : P t := ih ⟨i :: ks, List.append_assoc ..⟩
  exact hstep t i t' o ht (h js i ks (List.append_assoc ..) t os hjs) hlast

/-! ## A flag that some steps set and others clear -/

/-- Some step of the run met `A`, and no later one met `B`. -/
def SetSince {S I O E : Type*} (step : S → I → Except E (S × O)) (s : S) (is : List I)
    (A B : S → I → Prop) : Prop :=
  ∃ pre i mid, is = pre ++ i :: mid ∧ (∃ s₁ os₁, Completes step s pre s₁ os₁ ∧ A s₁ i) ∧
    ∀ pre' k post, mid = pre' ++ k :: post → ∀ s₂ os₂,
      Completes step s (pre ++ i :: pre') s₂ os₂ → ¬ B s₂ k

/-- Between any two steps of the run on `is` that meet `A` there is one that meets `B`. -/
def Separated {S I O E : Type*} (step : S → I → Except E (S × O)) (s : S) (is : List I)
    (A B : S → I → Prop) : Prop :=
  ∀ pre i mid j post, is = pre ++ i :: (mid ++ j :: post) → ∀ s₁ os₁ s₂ os₂,
    Completes step s pre s₁ os₁ → Completes step s (pre ++ i :: mid) s₂ os₂ → A s₁ i → A s₂ j →
      ∃ pre' k post', mid = pre' ++ k :: post' ∧
        ∃ s₃ os₃, Completes step s (pre ++ i :: pre') s₃ os₃ ∧ B s₃ k

theorem not_setSince_nil {S I O E : Type*} (step : S → I → Except E (S × O)) (s : S)
    (A B : S → I → Prop) : ¬ SetSince step s [] A B := by
  rintro ⟨pre, i, mid, heq, -⟩
  simp at heq

theorem setSince_concat_iff {S I O E : Type*} {step : S → I → Except E (S × O)} {s t : S}
    {is : List I} {os : List O} (h : Completes step s is t os) (i : I) (A B : S → I → Prop) :
    SetSince step s (is ++ [i]) A B ↔ A t i ∨ SetSince step s is A B ∧ ¬ B t i := by
  constructor
  · rintro ⟨pre, j, mid, heq, ⟨s₁, os₁, hrun, hA⟩, hB⟩
    rcases List.eq_nil_or_concat' mid with rfl | ⟨mid, k, rfl⟩
    · obtain ⟨rfl, hji⟩ := List.append_inj' heq rfl
      obtain rfl := (List.cons.inj hji).1
      obtain ⟨rfl, -⟩ := completes_unique h hrun
      exact .inl hA
    · rw [← List.cons_append, ← List.append_assoc] at heq
      obtain ⟨rfl, hki⟩ := List.append_inj' heq rfl
      obtain rfl := (List.cons.inj hki).1
      refine .inr ⟨⟨pre, j, mid, rfl, ⟨s₁, os₁, hrun, hA⟩, ?_⟩, hB mid i [] rfl t os h⟩
      rintro pre' k post rfl
      exact hB pre' k (post ++ [i]) (by simp)
  · rintro (hA | ⟨⟨pre, j, mid, rfl, hset, hB⟩, hnot⟩)
    · refine ⟨is, i, [], rfl, ⟨t, os, h, hA⟩, ?_⟩
      intro pre' k post heq
      simp at heq
    · refine ⟨pre, j, mid ++ [i], by simp, hset, ?_⟩
      intro pre' k post heq s₂ os₂ hrun
      rcases List.eq_nil_or_concat' post with rfl | ⟨post, l, rfl⟩
      · obtain ⟨rfl, hki⟩ := List.append_inj' heq rfl
        obtain rfl := (List.cons.inj hki).1
        obtain ⟨rfl, -⟩ := completes_unique h hrun
        exact hnot
      · rw [← List.cons_append, ← List.append_assoc] at heq
        obtain ⟨rfl, -⟩ := List.append_inj' heq rfl
        exact hB pre' k post rfl s₂ os₂ hrun

section Flag

variable {S I O E : Type*} {step : S → I → Except E (S × O)} {P : S → Prop} {A B : S → I → Prop}
  (hset : ∀ s i s' o, step s i = .ok (s', o) → A s i → P s')
  (hclear : ∀ s i s' o, step s i = .ok (s', o) → B s i → ¬ P s')
  (hkeep : ∀ s i s' o, step s i = .ok (s', o) → ¬ A s i → ¬ B s i → (P s' ↔ P s))

include hset hclear hkeep

/-- A flag that the steps with `A` set, those with `B` clear and the others leave is up
when it has been set and not cleared since. -/
theorem flag_iff_setSince {s s' : S} (hs : ¬ P s) {is : List I} {os : List O}
    (h : Completes step s is s' os) : P s' ↔ SetSince step s is A B := by
  refine history_of_completes (P := fun is t _ => P t ↔ SetSince step s is A B)
    (iff_of_false hs (not_setSince_nil step s A B)) ?_ h
  intro is t os i t' o hrun ih hstep
  rw [setSince_concat_iff hrun, ← ih]
  by_cases hA : A t i
  · exact iff_of_true (hset t i t' o hstep hA) (.inl hA)
  · by_cases hB : B t i
    · exact iff_of_false (hclear t i t' o hstep hB) (by simp [hA, hB])
    · simp [hkeep t i t' o hstep hA hB, hA, hB]

/-- The steps with `A` find the flag down exactly when there is always one with `B` between
two of them. -/
theorem eachStep_flag_iff {s : S} (hs : ¬ P s) (is : List I) :
    EachStep step s is (fun s i => A s i → ¬ P s) ↔ Separated step s is A B := by
  constructor
  · intro hdown pre i mid j post heq s₁ os₁ s₂ os₂ h₁ h₂ hA₁ hA₂
    by_contra hnone
    refine hdown (pre ++ i :: mid) j post (by rw [heq]; simp) s₂ os₂ h₂ hA₂ ?_
    rw [flag_iff_setSince hset hclear hkeep hs h₂]
    refine ⟨pre, i, mid, rfl, ⟨s₁, os₁, h₁, hA₁⟩, ?_⟩
    intro pre' k post' hmid s₃ os₃ h₃ hB
    exact hnone ⟨pre', k, post', hmid, s₃, os₃, h₃, hB⟩
  · intro hsep pre j post heq s₂ os₂ h₂ hA₂ hP
    rw [flag_iff_setSince hset hclear hkeep hs h₂] at hP
    obtain ⟨pre, i, mid, rfl, ⟨s₁, os₁, h₁, hA₁⟩, hB⟩ := hP
    obtain ⟨pre', k, post', hmid, s₃, os₃, h₃, hk⟩ :=
      hsep pre i mid j post (by rw [heq]; simp) s₁ os₁ s₂ os₂ h₁ h₂ hA₁ hA₂
    exact hB pre' k post' hmid s₃ os₃ h₃ hk

end Flag

/-- Simulation. If on the inputs `c j` the machine does what another one does on
`g j`, seen through the abstraction `a` of the states and the translation `f` of
the outputs, then so do whole runs. -/
theorem completes_map_iff {S I O E T J O' K : Type*} {step : S → I → Except E (S × O)}
    {step' : T → J → Except E (T × O')} {a : S → T} {f : O' → O} {c : K → I} {g : K → J}
    {js : List K}
    (hsim : ∀ j ∈ js, ∀ s, (step s (c j)).map (fun x => (a x.1, x.2)) =
      (step' (a s) (g j)).map (fun y => (y.1, f y.2)))
    (s : S) (t' : T) (os : List O) :
    (∃ s', Completes step s (js.map c) s' os ∧ a s' = t') ↔
      ∃ os', Completes step' (a s) (js.map g) t' os' ∧ os = os'.map f := by
  induction js generalizing s os with
  | nil =>
      simp only [List.map_nil, completes_nil_iff]
      constructor
      · rintro ⟨_, ⟨rfl, rfl⟩, habs⟩
        exact ⟨[], ⟨habs, rfl⟩, rfl⟩
      · rintro ⟨_, ⟨habs, rfl⟩, rfl⟩
        exact ⟨s, ⟨rfl, rfl⟩, habs⟩
  | cons j js ih =>
      have hrest := ih fun k hk => hsim k (List.mem_cons_of_mem j hk)
      have hj := hsim j (List.mem_cons_self ..) s
      simp only [List.map_cons, completes_cons_iff]
      constructor
      · rintro ⟨s'', ⟨s', o, os₀, hstep, hrun, rfl⟩, rfl⟩
        rw [hstep] at hj
        cases hstep' : step' (a s) (g j) with
        | error e =>
            rw [hstep'] at hj
            exact absurd hj (by simp [Except.map])
        | ok y =>
            rw [hstep'] at hj
            obtain ⟨habs, rfl⟩ := Prod.mk.inj (Except.ok.inj hj)
            obtain ⟨os', hrun', rfl⟩ := (hrest s' os₀).mp ⟨s'', hrun, rfl⟩
            rw [habs] at hrun'
            exact ⟨y.2 :: os', ⟨y.1, y.2, os', rfl, hrun', rfl⟩, rfl⟩
      · rintro ⟨_, ⟨t, o', os', hstep', hrun', rfl⟩, rfl⟩
        rw [hstep'] at hj
        cases hstep : step s (c j) with
        | error e =>
            rw [hstep] at hj
            exact absurd hj (by simp [Except.map])
        | ok x =>
            rw [hstep] at hj
            obtain ⟨habs, ho⟩ := Prod.mk.inj (Except.ok.inj hj)
            replace habs : a x.1 = t := habs
            rw [← habs] at hrun'
            obtain ⟨s'', hrun, hs''⟩ := (hrest x.1 (os'.map f)).mpr ⟨os', hrun', rfl⟩
            refine ⟨s'', ⟨x.1, x.2, os'.map f, rfl, hrun, ?_⟩, hs''⟩
            rw [List.map_cons, ho]

end Machine
