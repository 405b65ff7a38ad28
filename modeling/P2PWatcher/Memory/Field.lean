import P2PWatcher.Memory.Buffer
import P2PWatcher.Memory.ByteOrder

/-!
# Fields read at an offset

`Holds bs off xs` says that the cells `xs` lie in the buffer `bs` from the
offset `off` on. A typed read returns `v` exactly when the buffer holds the
memory image of `v` there, so a decoder that walks over its fields succeeds
exactly when the buffer holds the images one behind the other. The images then
merge into one by `holds_append_iff`, and `holds_zero_iff` turns an image at
the start of the buffer into a prefix.
-/

namespace Memory

universe u

/-- A sequence of two steps succeeds when both steps do. -/
theorem bind_eq_ok_iff {ε : Type*} {α β : Type u} (x : Except ε α) (f : α → Except ε β) (b : β) :
    (x >>= f) = .ok b ↔ ∃ a, x = .ok a ∧ f a = .ok b := by
  cases x with
  | error e => simp [bind, Except.bind]
  | ok a => simp [bind, Except.bind]

theorem map_eq_ok_iff {ε : Type*} {α β : Type u} (f : α → β) (x : Except ε α) (b : β) :
    f <$> x = .ok b ↔ ∃ a, x = .ok a ∧ f a = b := by
  cases x with
  | error e => simp [Functor.map, Except.map]
  | ok a => simp [Functor.map, Except.map]

/-- A result that gets a constant beside it. -/
theorem map_pair_eq_ok_iff {ε : Type*} {α β : Type u} (x : Except ε α) (a : α) (b b' : β) :
    (fun a => (a, b)) <$> x = .ok (a, b') ↔ x = .ok a ∧ b = b' := by
  rw [map_eq_ok_iff]
  constructor
  · rintro ⟨a', ha', heq⟩
    obtain ⟨rfl, rfl⟩ := Prod.mk.inj heq
    exact ⟨ha', rfl⟩
  · rintro ⟨ha, rfl⟩
    exact ⟨a, ha, rfl⟩

/-- A loop over a list succeeds when its first turn and the rest of it do. -/
theorem mapM_cons_eq_ok_iff {ε : Type*} {α : Type*} {β : Type u} (f : α → Except ε β) (x : α)
    (xs : List α) (ys : List β) :
    (x :: xs).mapM f = .ok ys ↔
      ∃ z, f x = .ok z ∧ ∃ zs, xs.mapM f = .ok zs ∧ z :: zs = ys := by
  simp only [List.mapM_cons, bind_eq_ok_iff, pure, Except.pure, Except.ok.injEq]

/-- A loop over a list whose turn at `x` succeeds under the condition `P x`, and
then yields `g x`. -/
theorem mapM_eq_ok_iff {ε : Type*} {α : Type*} {β : Type u} {f : α → Except ε β}
    {P : α → Prop} {g : α → β} (xs : List α)
    (hf : ∀ x ∈ xs, ∀ y, f x = .ok y ↔ P x ∧ g x = y) (ys : List β) :
    xs.mapM f = .ok ys ↔ (∀ x ∈ xs, P x) ∧ xs.map g = ys := by
  induction xs generalizing ys with
  | nil => simp [pure, Except.pure]
  | cons x xs ih =>
      have hx := hf x (List.mem_cons_self ..)
      have hxs := ih fun z hz => hf z (List.mem_cons_of_mem x hz)
      simp only [mapM_cons_eq_ok_iff, hx, hxs, List.forall_mem_cons, List.map_cons]
      constructor
      · rintro ⟨_, ⟨hp, rfl⟩, _, ⟨hps, rfl⟩, rfl⟩
        exact ⟨⟨hp, hps⟩, rfl⟩
      · rintro ⟨⟨hp, hps⟩, rfl⟩
        exact ⟨_, ⟨hp, rfl⟩, _, ⟨hps, rfl⟩, rfl⟩

/-- The cells `xs` lie in `bs` from `off` on. -/
def Holds {α : Type*} (bs : List α) (off : ℕ) (xs : List α) : Prop :=
  readAt bs off xs.length = .ok xs

theorem holds_append_iff {α : Type*} (bs : List α) (off : ℕ) (xs ys : List α) :
    Holds bs off (xs ++ ys) ↔ Holds bs off xs ∧ Holds bs (off + xs.length) ys := by
  rw [Holds, List.length_append, readAt_add_eq_ok_iff]
  constructor
  · rintro ⟨xs', ys', hx, hy, heq⟩
    have hlen : xs.length = xs'.length := (readAt_length hx).symm
    obtain ⟨rfl, rfl⟩ := List.append_inj heq hlen
    exact ⟨hx, hy⟩
  · rintro ⟨hx, hy⟩
    exact ⟨xs, ys, hx, hy, rfl⟩

theorem holds_zero_iff {α : Type*} (bs xs : List α) :
    Holds bs 0 xs ↔ ∃ t, bs = xs ++ t := by
  rw [Holds, readAt_zero_eq_ok_iff]
  simp

theorem holds_nil_iff {α : Type*} (bs : List α) (off : ℕ) :
    Holds bs off [] ↔ off ≤ bs.length := by
  rw [Holds, readAt_eq_ok_iff]
  simp

theorem readAt_eq_ok_iff_holds {α : Type*} (bs : List α) (off n : ℕ) (xs : List α) :
    readAt bs off n = .ok xs ↔ xs.length = n ∧ Holds bs off xs := by
  constructor
  · intro h
    obtain rfl := readAt_length h
    exact ⟨rfl, h⟩
  · rintro ⟨rfl, h⟩
    exact h

theorem holds_length_le {α : Type*} {bs : List α} {off : ℕ} {xs : List α}
    (h : Holds bs off xs) : off + xs.length ≤ bs.length :=
  ((readAt_eq_ok_iff _ _ _ _).mp h).1

/-! ## Typed reads -/

def read8 (bs : List UInt8) (off : ℕ) : Except Fault UInt8 :=
  get8 <$> readAt bs off 1

def read16 (e : Endian) (bs : List UInt8) (off : ℕ) : Except Fault UInt16 :=
  get16 e <$> readAt bs off 2

def read32 (e : Endian) (bs : List UInt8) (off : ℕ) : Except Fault UInt32 :=
  get32 e <$> readAt bs off 4

def read64 (e : Endian) (bs : List UInt8) (off : ℕ) : Except Fault UInt64 :=
  get64 e <$> readAt bs off 8

/-- A read of `w` cells through a decoding `get` with inverse `put`. -/
theorem map_readAt_eq_ok_iff {β : Type} {w : ℕ} {put : β → List UInt8}
    {get : List UInt8 → β} (hlen : ∀ v, (put v).length = w)
    (hget : ∀ v, get (put v) = v) (hput : ∀ xs, xs.length = w → put (get xs) = xs)
    (bs : List UInt8) (off : ℕ) (v : β) :
    get <$> readAt bs off w = .ok v ↔ Holds bs off (put v) := by
  rw [map_eq_ok_iff]
  constructor
  · rintro ⟨xs, hxs, rfl⟩
    rw [hput xs (readAt_length hxs)]
    exact ((readAt_eq_ok_iff_holds _ _ _ _).mp hxs).2
  · intro h
    exact ⟨put v, (readAt_eq_ok_iff_holds _ _ _ _).mpr ⟨hlen v, h⟩, hget v⟩

theorem read8_eq_ok_iff (bs : List UInt8) (off : ℕ) (v : UInt8) :
    read8 bs off = .ok v ↔ Holds bs off (put8 v) :=
  map_readAt_eq_ok_iff put8_length get8_put8 put8_get8 bs off v

theorem read16_eq_ok_iff (e : Endian) (bs : List UInt8) (off : ℕ) (v : UInt16) :
    read16 e bs off = .ok v ↔ Holds bs off (put16 e v) :=
  map_readAt_eq_ok_iff (put16_length e) (get16_put16 e) (put16_get16 e) bs off v

theorem read32_eq_ok_iff (e : Endian) (bs : List UInt8) (off : ℕ) (v : UInt32) :
    read32 e bs off = .ok v ↔ Holds bs off (put32 e v) :=
  map_readAt_eq_ok_iff (put32_length e) (get32_put32 e) (put32_get32 e) bs off v

theorem read64_eq_ok_iff (e : Endian) (bs : List UInt8) (off : ℕ) (v : UInt64) :
    read64 e bs off = .ok v ↔ Holds bs off (put64 e v) :=
  map_readAt_eq_ok_iff (put64_length e) (get64_put64 e) (put64_get64 e) bs off v

/-- The cells from `off` to the end, as a new buffer. -/
def suffixFrom {α : Type*} (bs : List α) (off : ℕ) : Except Fault (List α) :=
  if off ≤ bs.length then .ok (bs.drop off) else .error .read

theorem suffixFrom_eq_ok_iff {α : Type*} (bs : List α) (off : ℕ) (xs : List α) :
    suffixFrom bs off = .ok xs ↔ off ≤ bs.length ∧ bs.drop off = xs := by
  by_cases h : off ≤ bs.length
  · simp [suffixFrom, h]
  · simp [suffixFrom, h]

/-- A prefix together with the cells behind it is the whole buffer. -/
theorem holds_zero_and_suffixFrom_iff {α : Type*} (bs xs ys : List α) :
    Holds bs 0 xs ∧ suffixFrom bs xs.length = .ok ys ↔ bs = xs ++ ys := by
  rw [holds_zero_iff, suffixFrom_eq_ok_iff]
  constructor
  · rintro ⟨⟨t, rfl⟩, -, hdrop⟩
    rw [List.drop_left] at hdrop
    rw [hdrop]
  · rintro rfl
    simp

/-- Every failure of a read is a read past the end. -/
theorem readAt_error {α : Type*} {bs : List α} {off n : ℕ} {f : Fault}
    (h : readAt bs off n = .error f) : f = .read :=
  ((readAt_eq_error_iff bs off n f).mp h).2

theorem map_readAt_append {β : Type} (get : List UInt8 → β) {bs : List UInt8} {off n : ℕ}
    {v : β} (h : get <$> readAt bs off n = .ok v) (t : List UInt8) :
    get <$> readAt (bs ++ t) off n = .ok v := by
  obtain ⟨xs, hxs, rfl⟩ := (map_eq_ok_iff _ _ _).mp h
  exact (map_eq_ok_iff _ _ _).mpr ⟨xs, readAt_append hxs t, rfl⟩

/-! ## Decoders that only read -/

/-- The only way to fail is a read past the end. -/
def OnlyReads {α : Type u} (x : Except Fault α) : Prop := ∀ f, x = .error f → f = .read

theorem onlyReads_ok {α : Type u} (a : α) : OnlyReads (.ok a) := by
  intro f h
  exact absurd h (by simp)

theorem onlyReads_readAt {α : Type u} (bs : List α) (off n : ℕ) :
    OnlyReads (readAt bs off n) := fun _ => readAt_error

theorem onlyReads_suffixFrom {α : Type u} (bs : List α) (off : ℕ) :
    OnlyReads (suffixFrom bs off) := by
  intro f h
  rw [suffixFrom] at h
  split at h
  · cases h
  · exact (Except.error.inj h).symm

theorem OnlyReads.map {α β : Type u} {x : Except Fault α} (hx : OnlyReads x) (f : α → β) :
    OnlyReads (f <$> x) := by
  intro e h
  cases x with
  | error e' => exact hx e (congrArg Except.error (Except.error.inj h))
  | ok a => exact absurd h (by simp [Functor.map, Except.map])

theorem OnlyReads.bind {α β : Type u} {x : Except Fault α} {f : α → Except Fault β}
    (hx : OnlyReads x) (hf : ∀ a, OnlyReads (f a)) : OnlyReads (x >>= f) := by
  intro e h
  cases x with
  | error e' => exact hx e (congrArg Except.error (Except.error.inj h))
  | ok a => exact hf a e h

/-- Two of them that succeed together are equal. -/
theorem OnlyReads.eq_of_ok_iff {α : Type u} {x y : Except Fault α} (hx : OnlyReads x)
    (hy : OnlyReads y) (h : ∀ a, x = .ok a ↔ y = .ok a) : x = y := by
  cases x with
  | ok a => exact ((h a).mp rfl).symm
  | error e =>
      cases y with
      | ok b => exact (h b).mpr rfl
      | error e' => rw [hx e rfl, hy e' rfl]

end Memory
