import P2PWatcher.Machine.Run
import Mathlib.Data.List.ReduceOption
import Mathlib.Data.Finmap

/-!
# Publishing to members

Members join under a key and leave; what is published goes to everybody who is a member at
that time. The machine `step` keeps the members in a finite map. For one key, a run is
described without the map (`heard`): its owner gets what is published between a join
and the next leave, once each and in order, at the address that it joined with last
(`inbox_eq_heard`). Who is a member, and at which address, can be read off the history too
(`lookup_eq_some_iff`).
-/

namespace Machine

namespace PubSub

variable {K A C : Type*}

/-- The members, with their addresses. -/
abbrev Members (K A : Type*) : Type _ := Finmap fun _ : K => A

inductive Event (K A C : Type*) where
  | join (k : K) (a : A)
  | leave (k : K)
  | publish (c : C)

/-- A content and those it goes to. -/
abbrev Delivery (K A C : Type*) : Type _ := Members K A × C

/-- Nothing can fail. -/
def step [DecidableEq K] (s : Members K A) :
    Event K A C → Except Empty (Members K A × Option (Delivery K A C))
  | .join k a => .ok (s.insert k a, none)
  | .leave k => .ok (s.erase k, none)
  | .publish c => .ok (s, some (s, c))

/-- What a delivery brings to the owner of a key, and to which address. -/
def Delivery.to? [DecidableEq K] (k : K) (d : Delivery K A C) : Option (A × C) :=
  (d.1.lookup k).map fun a => (a, d.2)

/-- What the owner of a key gets. -/
def inbox [DecidableEq K] (k : K) (os : List (Option (Delivery K A C))) : List (A × C) :=
  os.reduceOption.filterMap (Delivery.to? k)

/-- What somebody hears who looks at his own joins and leaves and at what is published, and
whose address is `a` at the start. -/
def heard [DecidableEq K] (k : K) : Option A → List (Event K A C) → List (A × C)
  | _, [] => []
  | a, .join k' a' :: events => heard k (if k' = k then some a' else a) events
  | a, .leave k' :: events => heard k (if k' = k then none else a) events
  | a, .publish c :: events => (a.map fun a => (a, c)).toList ++ heard k a events

/-- The last thing that the owner of the key has done is to join with the address `a`. -/
def Joined (k : K) (a : A) (events : List (Event K A C)) : Prop :=
  ∃ pre post, events = pre ++ .join k a :: post ∧ .leave k ∉ post ∧ ∀ a', .join k a' ∉ post

theorem not_joined_nil (k : K) (a : A) : ¬ Joined (C := C) k a [] := by
  rintro ⟨pre, post, heq, -⟩
  simp at heq

theorem joined_concat_iff (k : K) (a : A) (events : List (Event K A C)) (event : Event K A C) :
    Joined k a (events ++ [event]) ↔
      event = .join k a ∨ Joined k a events ∧ event ≠ .leave k ∧ ∀ a', event ≠ .join k a' := by
  constructor
  · rintro ⟨pre, post, heq, hleave, hjoin⟩
    rcases List.eq_nil_or_concat' post with rfl | ⟨post, event', rfl⟩
    · exact .inl (List.cons.inj (List.append_inj' heq rfl).2).1
    · rw [← List.cons_append, ← List.append_assoc] at heq
      obtain ⟨rfl, hlast⟩ := List.append_inj' heq rfl
      obtain rfl := (List.cons.inj hlast).1
      simp only [List.mem_append, List.mem_singleton, not_or] at hleave hjoin
      exact .inr ⟨⟨pre, post, rfl, hleave.1, fun a' => (hjoin a').1⟩, Ne.symm hleave.2,
        fun a' => Ne.symm (hjoin a').2⟩
  · rintro (rfl | ⟨⟨pre, post, rfl, hleave, hjoin⟩, hne, hnot⟩)
    · exact ⟨events, [], rfl, List.not_mem_nil, fun _ => List.not_mem_nil⟩
    · refine ⟨pre, post ++ [event], by simp, ?_, fun a' => ?_⟩
      · simpa using ⟨hleave, Ne.symm hne⟩
      · simpa using ⟨hjoin a', Ne.symm (hnot a')⟩

variable [DecidableEq K]

theorem inbox_append (k : K) (os os' : List (Option (Delivery K A C))) :
    inbox k (os ++ os') = inbox k os ++ inbox k os' := by
  rw [inbox, List.reduceOption_append, List.filterMap_append, inbox, inbox]

theorem inbox_cons_none (k : K) (os : List (Option (Delivery K A C))) :
    inbox k (none :: os) = inbox k os := rfl

theorem inbox_cons_some (k : K) (d : Delivery K A C) (os : List (Option (Delivery K A C))) :
    inbox k (some d :: os) = (d.to? k).toList ++ inbox k os := by
  rw [inbox, List.reduceOption_cons_of_some, List.filterMap_cons]
  cases d.to? k <;> rfl

theorem lookup_join (s : Members K A) (k k' : K) (a : A) :
    (s.insert k' a).lookup k = if k' = k then some a else s.lookup k := by
  by_cases h : k' = k
  · rw [if_pos h, h, Finmap.lookup_insert]
  · rw [if_neg h, Finmap.lookup_insert_of_ne s (Ne.symm h)]

theorem lookup_leave (s : Members K A) (k k' : K) :
    (s.erase k').lookup k = if k' = k then none else s.lookup k := by
  by_cases h : k' = k
  · rw [if_pos h, h, Finmap.lookup_erase]
  · rw [if_neg h, Finmap.lookup_erase_ne (Ne.symm h)]

/-- Nobody gets anything else than he hears, whatever the others do. -/
theorem inbox_eq_heard {s s' : Members K A} {events : List (Event K A C)}
    {os : List (Option (Delivery K A C))} (h : Completes step s events s' os) (k : K) :
    inbox k os = heard k (s.lookup k) events := by
  induction events generalizing s os with
  | nil =>
      obtain ⟨-, rfl⟩ := (completes_nil_iff _ _ _ _).mp h
      rfl
  | cons event events ih =>
      obtain ⟨t, o, os', hstep, hrest, rfl⟩ := (completes_cons_iff _ _ _ _ _ _).mp h
      cases event with
      | join k' a =>
          obtain ⟨rfl, rfl⟩ := Prod.mk.inj (Except.ok.inj hstep)
          rw [inbox_cons_none, ih hrest, heard, lookup_join]
      | leave k' =>
          obtain ⟨rfl, rfl⟩ := Prod.mk.inj (Except.ok.inj hstep)
          rw [inbox_cons_none, ih hrest, heard, lookup_leave]
      | publish c =>
          obtain ⟨rfl, rfl⟩ := Prod.mk.inj (Except.ok.inj hstep)
          rw [inbox_cons_some, ih hrest, heard, Delivery.to?]

/-- The members are those who have joined and not left since. -/
theorem lookup_eq_some_iff {s' : Members K A} {events : List (Event K A C)}
    {os : List (Option (Delivery K A C))} (h : Completes step ∅ events s' os) (k : K) (a : A) :
    s'.lookup k = some a ↔ Joined k a events := by
  refine history_of_completes (P := fun events (s : Members K A) _ =>
    s.lookup k = some a ↔ Joined k a events) ?_ ?_ h
  · rw [Finmap.lookup_empty]
    exact iff_of_false (Option.some_ne_none a).symm (not_joined_nil k a)
  · intro events s os event s' o _ ih hstep
    rw [joined_concat_iff, ← ih]
    cases event with
    | join k' a' =>
        obtain ⟨rfl, -⟩ := Prod.mk.inj (Except.ok.inj hstep)
        rw [lookup_join]
        by_cases hk : k' = k
        · simp [hk]
        · simp [hk]
    | leave k' =>
        obtain ⟨rfl, -⟩ := Prod.mk.inj (Except.ok.inj hstep)
        rw [lookup_leave]
        by_cases hk : k' = k
        · simp [hk]
        · simp [hk]
    | publish c =>
        obtain ⟨rfl, -⟩ := Prod.mk.inj (Except.ok.inj hstep)
        simp

end PubSub

end Machine
