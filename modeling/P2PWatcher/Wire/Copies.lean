import P2PWatcher.Wire.Decode

/-!
# The two copies of the payload types

`GroupData.h` exists twice, and the copies differ. The server's `serilize` keeps the numbers
in `int32_t`, the client's in `u32`; the offset of `TestStruct::deserialize` is a `u32` on the
server and a `size_t` on the client. `TestMessage` and `FirstData` are the same
in both. A `Copy` is an encoder with a decoder, `Program` says which one a program has, and
`Understands` what it takes for one copy to read what the other has written. All four pairs
understand each other (`copies_agree`), and on a buffer below 2^32 bytes the width
of the offset makes no difference.
-/

namespace P2PWatcher

open Memory

inductive Program where
  | client
  | server
  deriving DecidableEq, Repr

/-- The encoder and the decoder that a program has for a payload type. -/
structure Copy (α : Type) where
  serialize : Endian → α → List UInt8
  deserialize : Endian → List UInt8 → Except Fault α

/-- The memory image of an `int32_t`. -/
def putInt32 (e : Endian) (i : Int32) : List UInt8 := put32 e i.toUInt32

/-- The server's `serilize`. -/
def TcpData.TestStruct.serilizeServer (e : Endian) (v : TestStruct) : List UInt8 :=
  putStr e v.a ++ putInt32 e (htonl e v.b.toUInt32).toInt32 ++ put64 e v.c ++
    put32 e (htonl e (UInt32.ofNat v.d.length)) ++
    v.d.flatMap fun val => putInt32 e (htonl e val.toUInt32).toInt32

namespace Program

def testMessage (_ : Program) : Copy UdpData.TestMessage where
  serialize := UdpData.TestMessage.serialize
  deserialize := UdpData.TestMessage.deserialize

def firstData (_ : Program) : Copy TcpData.FirstData where
  serialize := TcpData.FirstData.serialize
  deserialize := TcpData.FirstData.deserialize

def testStruct : Program → Copy TcpData.TestStruct
  | client => {
      serialize := TcpData.TestStruct.serilize
      deserialize := TcpData.TestStruct.deserialize 64 }
  | server => {
      serialize := TcpData.TestStruct.serilizeServer
      deserialize := TcpData.TestStruct.deserialize 32 }

end Program

namespace Copy

/-- What the copy `s` writes the copy `r` reads, whatever lies behind it; and what `r` reads
in a buffer `s` reads as well, and has written. -/
structure Understands {α : Type} (s r : Copy α) (e : Endian) : Prop where
  roundTrip : ∀ (v : α) (t : List UInt8), (s.serialize e v).length < 2 ^ 32 →
    r.deserialize e (s.serialize e v ++ t) = .ok v
  converse : ∀ (data : List UInt8) (v : α), data.length < 2 ^ 32 →
    r.deserialize e data = .ok v →
      s.deserialize e data = .ok v ∧ ∃ t, data = s.serialize e v ++ t

/-- The copy is one for the encoding `enc`. -/
structure Implements {α : Type} (c : Copy α) (e : Endian) (enc : α → List UInt8) : Prop where
  serialize : ∀ v, c.serialize e v = enc v
  deserialize : ∀ (data : List UInt8) (v : α), data.length < 2 ^ 32 →
    (c.deserialize e data = .ok v ↔ ∃ t, data = enc v ++ t)
  append : ∀ (data t : List UInt8) (v : α), c.deserialize e data = .ok v →
    c.deserialize e (data ++ t) = .ok v

/-- Copies for one encoding understand each other. -/
theorem Implements.understands {α : Type} {s r : Copy α} {e : Endian} {enc : α → List UInt8}
    (hs : s.Implements e enc) (hr : r.Implements e enc) : s.Understands r e := by
  constructor
  · intro v t hlen
    rw [hs.serialize] at hlen ⊢
    exact hr.append _ t v ((hr.deserialize _ v hlen).mpr ⟨[], (List.append_nil _).symm⟩)
  · intro data v hlen hread
    have htail := (hr.deserialize data v hlen).mp hread
    rw [hs.serialize]
    exact ⟨(hs.deserialize data v hlen).mpr htail, htail⟩

end Copy

/-! ## More bytes behind the encoding -/

theorem map_ntohl_read32_append {e : Endian} {data : List UInt8} {off : ℕ} {n : UInt32}
    (h : ntohl e <$> read32 e data off = .ok n) (t : List UInt8) :
    ntohl e <$> read32 e (data ++ t) off = .ok n := by
  obtain ⟨m, hm, rfl⟩ := (map_eq_ok_iff _ _ _).mp h
  exact (map_eq_ok_iff _ _ _).mpr ⟨m, map_readAt_append _ hm t, rfl⟩

theorem UdpData.TestMessage.deserialize_append {e : Endian} {data : List UInt8}
    {v : TestMessage} (h : deserialize e data = .ok v) (t : List UInt8) :
    deserialize e (data ++ t) = .ok v := by
  obtain ⟨n, hn, h⟩ := (bind_eq_ok_iff _ _ _).mp h
  obtain ⟨s, hs, h⟩ := (bind_eq_ok_iff _ _ _).mp h
  exact (bind_eq_ok_iff _ _ _).mpr ⟨n, map_ntohl_read32_append hn t,
    (bind_eq_ok_iff _ _ _).mpr ⟨s, readAt_append hs t, h⟩⟩

theorem TcpData.FirstData.deserialize_append {e : Endian} {data : List UInt8}
    {v : FirstData} (h : deserialize e data = .ok v) (t : List UInt8) :
    deserialize e (data ++ t) = .ok v := by
  obtain ⟨n, hn, h⟩ := (bind_eq_ok_iff _ _ _).mp h
  obtain ⟨s, hs, h⟩ := (bind_eq_ok_iff _ _ _).mp h
  obtain ⟨p, hp, h⟩ := (bind_eq_ok_iff _ _ _).mp h
  exact (bind_eq_ok_iff _ _ _).mpr ⟨n, map_ntohl_read32_append hn t,
    (bind_eq_ok_iff _ _ _).mpr ⟨s, readAt_append hs t,
      (bind_eq_ok_iff _ _ _).mpr ⟨p, map_readAt_append _ hp t, h⟩⟩⟩

namespace TcpData.TestStruct

theorem deserializeLoop_append {w : ℕ} {e : Endian} {data : List UInt8} {off n : ℕ}
    {ds : List Int32} (h : deserializeLoop w e data off n = .ok ds) (t : List UInt8) :
    deserializeLoop w e (data ++ t) off n = .ok ds := by
  induction n generalizing off ds with
  | zero => exact h
  | succ n ih =>
      obtain ⟨val, hval, h⟩ := (bind_eq_ok_iff _ _ _).mp h
      obtain ⟨rest, hrest, h⟩ := (bind_eq_ok_iff _ _ _).mp h
      exact (bind_eq_ok_iff _ _ _).mpr ⟨val, map_ntohl_read32_append hval t,
        (bind_eq_ok_iff _ _ _).mpr ⟨rest, ih hrest, h⟩⟩

theorem deserialize_append {w : ℕ} {e : Endian} {data : List UInt8} {v : TestStruct}
    (h : deserialize w e data = .ok v) (t : List UInt8) :
    deserialize w e (data ++ t) = .ok v := by
  obtain ⟨n, hn, h⟩ := (bind_eq_ok_iff _ _ _).mp h
  obtain ⟨s, hs, h⟩ := (bind_eq_ok_iff _ _ _).mp h
  obtain ⟨b, hb, h⟩ := (bind_eq_ok_iff _ _ _).mp h
  obtain ⟨c, hc, h⟩ := (bind_eq_ok_iff _ _ _).mp h
  obtain ⟨m, hm, h⟩ := (bind_eq_ok_iff _ _ _).mp h
  obtain ⟨d, hd, h⟩ := (bind_eq_ok_iff _ _ _).mp h
  refine (bind_eq_ok_iff _ _ _).mpr ⟨n, map_ntohl_read32_append hn t, ?_⟩
  refine (bind_eq_ok_iff _ _ _).mpr ⟨s, readAt_append hs t, ?_⟩
  refine (bind_eq_ok_iff _ _ _).mpr ⟨b, map_ntohl_read32_append hb t, ?_⟩
  refine (bind_eq_ok_iff _ _ _).mpr ⟨c, map_readAt_append _ hc t, ?_⟩
  refine (bind_eq_ok_iff _ _ _).mpr ⟨m, map_ntohl_read32_append hm t, ?_⟩
  exact (bind_eq_ok_iff _ _ _).mpr ⟨d, deserializeLoop_append hd t, h⟩

/-! ## The width of the offset -/

theorem onlyReads_deserializeLoop (w : ℕ) (e : Endian) (data : List UInt8) (off n : ℕ) :
    OnlyReads (deserializeLoop w e data off n) := by
  induction n generalizing off with
  | zero => exact onlyReads_ok _
  | succ n ih =>
      refine (((onlyReads_readAt _ _ _).map _).map _).bind fun val => ?_
      exact (ih _).bind fun rest => onlyReads_ok _

theorem onlyReads_deserialize (w : ℕ) (e : Endian) (data : List UInt8) :
    OnlyReads (deserialize w e data) := by
  refine (((onlyReads_readAt _ _ _).map _).map _).bind fun strLen => ?_
  refine (onlyReads_readAt _ _ _).bind fun a => ?_
  refine (((onlyReads_readAt _ _ _).map _).map _).bind fun b => ?_
  refine ((onlyReads_readAt _ _ _).map _).bind fun c => ?_
  refine (((onlyReads_readAt _ _ _).map _).map _).bind fun vecSize => ?_
  exact (onlyReads_deserializeLoop _ _ _ _ _).bind fun d => onlyReads_ok _

/-- On a buffer that 32 bits can count a wider offset changes nothing. -/
theorem deserialize_width (w : ℕ) (hw : 32 ≤ w) (e : Endian) (data : List UInt8)
    (hdata : data.length < 2 ^ 32) : deserialize w e data = deserialize 32 e data := by
  refine (onlyReads_deserialize w e data).eq_of_ok_iff (onlyReads_deserialize 32 e data) ?_
  intro v
  rw [deserialize_eq_ok_iff w hw e data hdata, deserialize_eq_ok_iff 32 (le_refl 32) e data hdata]

/-- The detour over `int32_t` does not change the bytes. -/
theorem serilizeServer_eq (e : Endian) (v : TestStruct) : v.serilizeServer e = v.serilize e := by
  have hint : ∀ i : Int32, putInt32 e (htonl e i.toUInt32).toInt32 = putInt e i := by
    intro i
    rw [putInt32, UInt32.toUInt32_toInt32, putInt]
  simp only [serilizeServer, serilize, hint]

end TcpData.TestStruct

/-! ## The copies -/

theorem implements_testMessage (p : Program) (e : Endian) :
    p.testMessage.Implements e (UdpData.TestMessage.serialize e) where
  serialize _ := rfl
  deserialize data v hdata := UdpData.TestMessage.deserialize_eq_ok_iff e data hdata v
  append _ t _ h := UdpData.TestMessage.deserialize_append h t

theorem implements_firstData (p : Program) (e : Endian) :
    p.firstData.Implements e (TcpData.FirstData.serialize e) where
  serialize _ := rfl
  deserialize data v hdata := TcpData.FirstData.deserialize_eq_ok_iff e data hdata v
  append _ t _ h := TcpData.FirstData.deserialize_append h t

theorem implements_testStruct (p : Program) (e : Endian) :
    p.testStruct.Implements e (TcpData.TestStruct.serilize e) := by
  cases p with
  | client =>
      exact {
        serialize := fun _ => rfl
        deserialize := fun data v hdata =>
          TcpData.TestStruct.deserialize_eq_ok_iff 64 (by decide) e data hdata v
        append := fun _ t _ h => TcpData.TestStruct.deserialize_append h t }
  | server =>
      exact {
        serialize := TcpData.TestStruct.serilizeServer_eq e
        deserialize := fun data v hdata =>
          TcpData.TestStruct.deserialize_eq_ok_iff 32 (le_refl 32) e data hdata v
        append := fun _ t _ h => TcpData.TestStruct.deserialize_append h t }

/-- Sender and receiver may be either program. -/
theorem copies_agree (s r : Program) (e : Endian) :
    s.testStruct.Understands r.testStruct e ∧ s.firstData.Understands r.firstData e ∧
      s.testMessage.Understands r.testMessage e ∧
      ∀ (w : ℕ) (data : List UInt8), 32 ≤ w → data.length < 2 ^ 32 →
        TcpData.TestStruct.deserialize w e data = TcpData.TestStruct.deserialize 32 e data :=
  ⟨(implements_testStruct s e).understands (implements_testStruct r e),
    (implements_firstData s e).understands (implements_firstData r e),
    (implements_testMessage s e).understands (implements_testMessage r e),
    fun w data hw hdata => TcpData.TestStruct.deserialize_width w hw e data hdata⟩

/-- The client reads a structure of the server, with one byte behind it. -/
theorem copies_agree_one :
    Program.client.testStruct.deserialize .big
        (Program.server.testStruct.serialize .big { a := [7], b := -1, c := 3, d := [5, -6] } ++
          [9]) = .ok { a := [7], b := -1, c := 3, d := [5, -6] } ∧
      TcpData.TestStruct.deserialize 64 .big [] = TcpData.TestStruct.deserialize 32 .big [] :=
  ⟨(copies_agree .server .client .big).1.roundTrip _ [9] (by decide),
    (copies_agree .server .client .big).2.2.2 64 [] (by decide) (by decide)⟩

end P2PWatcher
