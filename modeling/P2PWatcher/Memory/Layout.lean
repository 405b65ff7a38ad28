import P2PWatcher.Memory.Field

/-!
# Records, member by member

A record has members that lie in memory, and perhaps a part that does not. Members are copied
to the end of a buffer one after the other (`insertAll`), and they are copied back out of a
buffer by a walk with a running offset (`walk`); each line of either names the member and the
number of its bytes. The walk is the exact inverse of the copies where both name all
members in one order, each of them once and with its whole size (`walk_whole_eq_ok_iff`).
-/

namespace Memory

variable {R M T : Type}

/-- The images of the members of a record, which say with the rest what the record is. -/
structure Layout (R M T : Type) where
  size : M → ℕ
  image : M → R → List UInt8
  store : M → List UInt8 → R → R
  rest : R → T
  image_length : ∀ m r, (image m r).length = size m
  image_store : ∀ m xs r, xs.length = size m → image m (store m xs r) = xs
  image_store_of_ne : ∀ m m' xs r, m ≠ m' → image m' (store m xs r) = image m' r
  rest_store : ∀ m xs r, rest (store m xs r) = rest r
  ext : ∀ r s, (∀ m, image m r = image m s) → rest r = rest s → r = s

namespace Layout

/-- Each line copies the first bytes of a member to the end of the buffer. -/
def insertAll (L : Layout R M T) (r : R) : List (M × ℕ) → Except Fault (List UInt8)
  | [] => .ok []
  | (m, n) :: lines => do
      let xs ← readAt (L.image m r) 0 n
      let ys ← L.insertAll r lines
      .ok (xs ++ ys)

/-- Each line copies bytes over the beginning of a member and advances the offset. -/
def walk (L : Layout R M T) (buf : List UInt8) :
    List (M × ℕ × ℕ) → ℕ → R → Except Fault (ℕ × R)
  | [], off, r => .ok (off, r)
  | (m, n, k) :: lines, off, r => do
      let xs ← readAt buf off n
      let image ← writeAt (L.image m r) 0 xs
      L.walk buf lines (off + k) (L.store m image r)

/-- The lines that copy the whole of each member. -/
def whole (L : Layout R M T) (ms : List M) : List (M × ℕ) := ms.map fun m => (m, L.size m)

/-- The lines that copy the whole of each member and advance by that much. -/
def wholeSteps (L : Layout R M T) (ms : List M) : List (M × ℕ × ℕ) :=
  ms.map fun m => (m, L.size m, L.size m)

/-- The members one after the other. -/
def images (L : Layout R M T) (ms : List M) (r : R) : List UInt8 := ms.flatMap fun m => L.image m r

variable (L : Layout R M T)

theorem images_cons (m : M) (ms : List M) (r : R) :
    L.images (m :: ms) r = L.image m r ++ L.images ms r := List.flatMap_cons

theorem insertAll_whole (ms : List M) (r : R) :
    L.insertAll r (L.whole ms) = .ok (L.images ms r) := by
  induction ms with
  | nil => rfl
  | cons m ms ih =>
      have hread : readAt (L.image m r) 0 (L.size m) = .ok (L.image m r) := by
        rw [readAt_zero_eq_ok_iff]
        exact ⟨L.image_length m r, [], (List.append_nil _).symm⟩
      rw [whole, List.map_cons, insertAll, hread, ← whole, ih, images_cons]
      rfl

/-- Over the whole of a member, a copy leaves nothing of it. -/
theorem writeAt_image (m : M) (r : R) {xs : List UInt8} (h : xs.length = L.size m) :
    writeAt (L.image m r) 0 xs = .ok xs := by
  have hlen := L.image_length m r
  rw [writeAt, if_pos (by omega), splice, List.take_zero, List.nil_append,
    List.drop_of_length_le (by omega), List.append_nil]

theorem walk_cons_eq (buf : List UInt8) (m : M) (ms : List M) (off : ℕ) (r : R) :
    L.walk buf (L.wholeSteps (m :: ms)) off r =
      readAt buf off (L.size m) >>= fun xs =>
        L.walk buf (L.wholeSteps ms) (off + L.size m) (L.store m xs r) := by
  rw [wholeSteps, List.map_cons, walk, ← wholeSteps]
  cases hxs : readAt buf off (L.size m) with
  | error f => rfl
  | ok xs =>
      change (writeAt (L.image m r) 0 xs >>= fun image => _) = _
      rw [L.writeAt_image m r (readAt_length hxs)]

/-- The members that were walked over hold the bytes, and the others what they held. -/
theorem walk_eq_ok_iff (buf : List UInt8) {ms : List M} (hms : ms.Nodup) {off : ℕ}
    (hoff : off ≤ buf.length) (r : R) (off' : ℕ) (r' : R) :
    L.walk buf (L.wholeSteps ms) off r = .ok (off', r') ↔
      off' = off + (L.images ms r').length ∧ Holds buf off (L.images ms r') ∧
        (∀ m, m ∉ ms → L.image m r' = L.image m r) ∧ L.rest r' = L.rest r := by
  induction ms generalizing off r with
  | nil =>
      have hwalk : L.walk buf (L.wholeSteps []) off r = .ok (off, r) := rfl
      have himages : L.images [] r' = [] := rfl
      rw [hwalk, himages, holds_nil_iff, Except.ok.injEq, Prod.mk.injEq]
      constructor
      · rintro ⟨rfl, rfl⟩
        exact ⟨rfl, hoff, fun _ _ => rfl, rfl⟩
      · rintro ⟨rfl, -, himage, hrest⟩
        exact ⟨rfl, (L.ext r' r (fun m => himage m List.not_mem_nil) hrest).symm⟩
  | cons m ms ih =>
      obtain ⟨hm, hms⟩ := List.nodup_cons.mp hms
      rw [walk_cons_eq, bind_eq_ok_iff, images_cons, List.length_append, L.image_length,
        holds_append_iff, L.image_length]
      constructor
      · rintro ⟨xs, hxs, hwalk⟩
        have hlen := readAt_length hxs
        have hle := ((readAt_eq_ok_iff _ _ _ _).mp hxs).1
        obtain ⟨hoff', hholds, hother, hrest⟩ := (ih hms hle (L.store m xs r)).mp hwalk
        have himage : L.image m r' = xs := by
          rw [hother m hm, L.image_store m xs r hlen]
        refine ⟨by omega, ⟨?_, hholds⟩, fun m' hm' => ?_, ?_⟩
        · rw [himage]
          exact ((readAt_eq_ok_iff_holds _ _ _ _).mp hxs).2
        · obtain ⟨hne, hmem⟩ := not_or.mp (fun h => hm' (List.mem_cons.mpr h))
          rw [hother m' hmem, L.image_store_of_ne m m' xs r (Ne.symm hne)]
        · rw [hrest, L.rest_store]
      · rintro ⟨hoff', ⟨hhead, hholds⟩, hother, hrest⟩
        have hlen := L.image_length m r'
        have hle := holds_length_le hhead
        refine ⟨L.image m r', (readAt_eq_ok_iff_holds _ _ _ _).mpr ⟨hlen, hhead⟩, ?_⟩
        refine (ih hms (by omega) _).mpr ⟨by omega, hholds, fun m' hm' => ?_, ?_⟩
        · by_cases hne : m = m'
          · rw [← hne, L.image_store m _ r hlen]
          · rw [L.image_store_of_ne m m' _ r hne]
            exact hother m' fun h => (List.mem_cons.mp h).elim (Ne.symm hne) hm'
        · rw [L.rest_store, hrest]

/-- A walk over all members from the start finds the record whose members lie there. -/
theorem walk_whole_eq_ok_iff (buf : List UInt8) {ms : List M} (hms : ms.Nodup)
    (hall : ∀ m, m ∈ ms) (r : R) (off : ℕ) (r' : R) :
    L.walk buf (L.wholeSteps ms) 0 r = .ok (off, r') ↔
      off = (L.images ms r').length ∧ Holds buf 0 (L.images ms r') ∧ L.rest r' = L.rest r := by
  rw [L.walk_eq_ok_iff buf hms (Nat.zero_le _), zero_add]
  constructor
  · rintro ⟨hoff, hholds, -, hrest⟩
    exact ⟨hoff, hholds, hrest⟩
  · rintro ⟨hoff, hholds, hrest⟩
    exact ⟨hoff, hholds, fun m hm => absurd (hall m) hm, hrest⟩

theorem onlyReads_walk (buf : List UInt8) (ms : List M) (off : ℕ) (r : R) :
    OnlyReads (L.walk buf (L.wholeSteps ms) off r) := by
  induction ms generalizing off r with
  | nil => exact onlyReads_ok _
  | cons m ms ih =>
      rw [walk_cons_eq]
      exact (onlyReads_readAt _ _ _).bind fun xs => ih _ _

end Layout

end Memory
