import P2PWatcher.Machine.Run

/-!
# A machine seen through a view

A machine may be a part of another one, or say in fewer words what it does. `view` tells
from an input and its output what the other machine does on this occasion, if anything,
and `π` is the state that the other machine is in. If the two agree on every step
(`Refines`), then what is seen of a completed run is a completed run of the other machine
(`Refines.completes`), and what holds of all its runs holds of what is seen.

The other way round, a machine may take a few steps for one of another machine. If it does so
from every state that is related by `R` (`Realizes`), then it can take them for whole
runs (`Realizes.completes`).
-/

namespace Machine

/-- Every step is seen as a step of `step'`, or it does not change what is seen of the
state. -/
structure Refines {S I O E T J O' E' : Type*} (step : S → I → Except E (S × O))
    (step' : T → J → Except E' (T × O')) (π : S → T) (view : I → O → Option (J × O')) :
    Prop where
  seen : ∀ {s i s' o j o'}, step s i = .ok (s', o) → view i o = some (j, o') →
    step' (π s) j = .ok (π s', o')
  unseen : ∀ {s i s' o}, step s i = .ok (s', o) → view i o = none → π s' = π s

/-- What is seen of a run. -/
def views {I O J O' : Type*} (view : I → O → Option (J × O')) (is : List I) (os : List O) :
    List (J × O') :=
  (is.zip os).filterMap fun p => view p.1 p.2

theorem views_cons {I O J O' : Type*} (view : I → O → Option (J × O')) (i : I) (is : List I)
    (o : O) (os : List O) :
    views view (i :: is) (o :: os) = (view i o).toList ++ views view is os := by
  rw [views, List.zip_cons_cons, List.filterMap_cons]
  cases view i o <;> rfl

/-- What is seen of a completed run is a completed run. -/
theorem Refines.completes {S I O E T J O' E' : Type*} {step : S → I → Except E (S × O)}
    {step' : T → J → Except E' (T × O')} {π : S → T} {view : I → O → Option (J × O')} {s s' : S}
    {is : List I} {os : List O} (href : Refines step step' π view) (h : Completes step s is s' os) :
    Completes step' (π s) ((views view is os).map Prod.fst) (π s')
      ((views view is os).map Prod.snd) := by
  induction is generalizing s os with
  | nil =>
      obtain ⟨rfl, rfl⟩ := (completes_nil_iff step _ _ _).mp h
      exact (completes_nil_iff step' _ _ _).mpr ⟨rfl, rfl⟩
  | cons i is ih =>
      obtain ⟨t, o, os', hstep, hrest, rfl⟩ := (completes_cons_iff step _ _ _ _ _).mp h
      rw [views_cons, List.map_append, List.map_append]
      cases hview : view i o with
      | none =>
          rw [← href.unseen hstep hview]
          exact ih hrest
      | some p =>
          obtain ⟨j, o'⟩ := p
          exact (completes_cons_iff step' _ _ _ _ _).mpr
            ⟨π t, o', _, href.seen hstep hview, ih hrest, rfl⟩

section

variable {S I O E J O' A : Type*} {step : S → I → Except E (S × O)}
  {view : I → O → Option (J × O')} {s s' : S} {is : List I} {os : List O}

end

/-- For a step of `step` with an output in `P` the other machine can take the steps `f i`,
with the outputs `g o`. -/
def Realizes {S I O E T J O' E' : Type*} (step : S → I → Except E (S × O))
    (step' : T → J → Except E' (T × O')) (R : S → T → Prop) (f : I → List J) (g : O → List O')
    (P : O → Prop) : Prop :=
  ∀ ⦃s i s' o t⦄, R s t → step s i = .ok (s', o) → P o →
    ∃ t', R s' t' ∧ Completes step' t (f i) t' (g o)

/-- Whole runs. -/
theorem Realizes.completes {S I O E T J O' E' : Type*} {step : S → I → Except E (S × O)}
    {step' : T → J → Except E' (T × O')} {R : S → T → Prop} {f : I → List J} {g : O → List O'}
    {P : O → Prop} (hreal : Realizes step step' R f g P) {s s' : S} {t : T} {is : List I}
    {os : List O} (h : Completes step s is s' os) (hR : R s t) (hP : ∀ o ∈ os, P o) :
    ∃ t', R s' t' ∧ Completes step' t (is.flatMap f) t' (os.flatMap g) := by
  induction is generalizing s t os with
  | nil =>
      obtain ⟨rfl, rfl⟩ := (completes_nil_iff step _ _ _).mp h
      exact ⟨t, hR, rfl⟩
  | cons i is ih =>
      obtain ⟨s₁, o, os, hstep, hrest, rfl⟩ := (completes_cons_iff step _ _ _ _ _).mp h
      obtain ⟨ho, hos⟩ := List.forall_mem_cons.mp hP
      obtain ⟨t₁, hR₁, hfirst⟩ := hreal hR hstep ho
      obtain ⟨t', hR', hrun⟩ := ih hrest hR₁ hos
      refine ⟨t', hR', ?_⟩
      rw [List.flatMap_cons, List.flatMap_cons]
      exact (completes_append_iff step' _ _ _ _ _).mpr ⟨t₁, _, _, hfirst, hrun, rfl⟩

end Machine
