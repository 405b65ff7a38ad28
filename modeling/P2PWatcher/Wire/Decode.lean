import P2PWatcher.Wire.GroupData

/-!
# What the decoders accept

A decoder returns `v` on a buffer exactly when the buffer begins with the
encoding of `v`. Read from the right this is the round trip with arbitrary bytes
behind the encoding. Read from the left it says that all reads of the decoder
stay inside the buffer only when an encoding is there, whatever the lengths
inside the data pretend.
-/

namespace P2PWatcher

open Memory

theorem map_ntohl_read32_eq_ok_iff (e : Endian) (bs : List UInt8) (off : ℕ) (v : UInt32) :
    ntohl e <$> read32 e bs off = .ok v ↔ Holds bs off (put32 e (htonl e v)) := by
  rw [← read32_eq_ok_iff]
  cases read32 e bs off with
  | error f => simp [Functor.map, Except.map]
  | ok u =>
      simp only [Functor.map, Except.map, Except.ok.injEq]
      constructor
      · rintro rfl
        rw [htonl_ntohl]
      · rintro rfl
        rw [ntohl_htonl]

/-- A string is its length and then that many characters. The bound on the
buffer is what makes the length fit into its 32 bits. -/
theorem holds_putStr_iff (e : Endian) (bs : List UInt8) (off : ℕ) (s : List UInt8)
    (hbs : bs.length < 2 ^ 32) :
    Holds bs off (putStr e s) ↔
      ∃ n, Holds bs off (put32 e (htonl e n)) ∧ readAt bs (off + 4) n.toNat = .ok s := by
  rw [putStr, holds_append_iff, put32_length]
  constructor
  · rintro ⟨hlen, hs⟩
    refine ⟨_, hlen, ?_⟩
    have hlt : s.length < 2 ^ 32 := by
      have hle := holds_length_le hs
      omega
    rw [UInt32.toNat_ofNat_of_lt' hlt]
    exact hs
  · rintro ⟨n, hn, hs⟩
    obtain ⟨hlen, hs⟩ := (readAt_eq_ok_iff_holds _ _ _ _).mp hs
    rw [hlen, UInt32.ofNat_toNat]
    exact ⟨hn, hs⟩

theorem putInt_toInt32 (e : Endian) (v : UInt32) :
    putInt e v.toInt32 = put32 e (htonl e v) := by
  rw [putInt, UInt32.toUInt32_toInt32]

namespace UdpData.TestMessage

theorem deserialize_eq_ok_iff (e : Endian) (buf : List UInt8) (hbuf : buf.length < 2 ^ 32)
    (m : TestMessage) :
    deserialize e buf = .ok m ↔ ∃ t, buf = m.serialize e ++ t := by
  rw [← holds_zero_iff, serialize, holds_putStr_iff e buf 0 _ hbuf]
  simp only [deserialize, bind_eq_ok_iff, map_ntohl_read32_eq_ok_iff, Except.ok.injEq]
  constructor
  · rintro ⟨n, hn, s, hs, rfl⟩
    exact ⟨n, hn, hs⟩
  · rintro ⟨n, hn, hs⟩
    exact ⟨n, hn, m.message, hs, rfl⟩

theorem onlyReads_deserialize (e : Endian) (buf : List UInt8) :
    OnlyReads (deserialize e buf) := by
  refine (((onlyReads_readAt _ _ _).map _).map _).bind fun strlen => ?_
  exact (onlyReads_readAt _ _ _).bind fun message => onlyReads_ok _

end UdpData.TestMessage

namespace TcpData

theorem FirstData.serialize_length (e : Endian) (v : FirstData) :
    (v.serialize e).length = 4 + v.clientAddr.length + 2 := by
  rw [serialize, List.length_append, putStr_length, put16_length]

theorem FirstData.deserialize_eq_ok_iff (e : Endian) (buf : List UInt8)
    (hbuf : buf.length < 2 ^ 32) (v : FirstData) :
    deserialize e buf = .ok v ↔ ∃ t, buf = v.serialize e ++ t := by
  rw [← holds_zero_iff, serialize, holds_append_iff, holds_putStr_iff e buf 0 _ hbuf,
    putStr_length]
  simp only [deserialize, bind_eq_ok_iff, map_ntohl_read32_eq_ok_iff, read16_eq_ok_iff,
    Except.ok.injEq]
  -- the characters were read, so the counter behind them has not wrapped
  have hoff : ∀ {n : UInt32} {s : List UInt8}, readAt buf 4 n.toNat = .ok s →
      advance 32 4 n.toNat = 0 + (4 + s.length) := by
    intro n s hs
    have hle := ((readAt_eq_ok_iff _ _ _ _).mp hs).1
    rw [advance_of_lt (by omega), readAt_length hs, zero_add]
  constructor
  · rintro ⟨n, hn, s, hs, p, hp, rfl⟩
    rw [show advance 32 0 4 = 4 from rfl] at hs hp
    rw [hoff hs] at hp
    exact ⟨⟨n, hn, hs⟩, hp⟩
  · rintro ⟨⟨n, hn, hs⟩, hp⟩
    rw [zero_add] at hs
    refine ⟨n, hn, _, hs, _, ?_, rfl⟩
    rw [show advance 32 0 4 = 4 from rfl, hoff hs]
    exact hp

namespace TestStruct

theorem serilize_length (e : Endian) (v : TestStruct) :
    (v.serilize e).length = 20 + v.a.length + 4 * v.d.length := by
  have hd : (v.d.flatMap (putInt e)).length = v.d.length * 4 := by simp [List.length_flatMap]
  simp only [serilize, List.length_append, putStr_length, putInt_length, put64_length,
    put32_length, hd]
  omega

/-- The loop reads the `n` numbers that lie one behind the other. -/
theorem deserializeLoop_eq_ok_iff (w : ℕ) (e : Endian) (data : List UInt8)
    (hdata : data.length < 2 ^ w) (off n : ℕ) (hoff : off ≤ data.length)
    (ds : List Int32) :
    deserializeLoop w e data off n = .ok ds ↔
      ds.length = n ∧ Holds data off (ds.flatMap (putInt e)) := by
  induction n generalizing off ds with
  | zero =>
      rw [deserializeLoop, List.length_eq_zero_iff]
      constructor
      · intro h
        obtain rfl := Except.ok.inj h
        exact ⟨rfl, (holds_nil_iff data off).mpr hoff⟩
      · rintro ⟨rfl, -⟩
        rfl
  | succ n ih =>
      simp only [deserializeLoop, bind_eq_ok_iff, map_ntohl_read32_eq_ok_iff,
        Except.ok.injEq]
      have hstep : ∀ {v : UInt32}, Holds data off (put32 e (htonl e v)) →
          off + 4 ≤ data.length ∧ advance w off 4 = off + 4 := by
        intro v hv
        have hle := holds_length_le hv
        rw [put32_length] at hle
        exact ⟨hle, advance_of_lt (by omega)⟩
      constructor
      · rintro ⟨v, hv, rest, hrest, rfl⟩
        obtain ⟨hle, hadv⟩ := hstep hv
        rw [hadv, ih (off + 4) hle] at hrest
        refine ⟨by rw [List.length_cons, hrest.1], ?_⟩
        rw [List.flatMap_cons, holds_append_iff, putInt_length, putInt_toInt32]
        exact ⟨hv, hrest.2⟩
      · rintro ⟨hlen, hds⟩
        cases ds with
        | nil => exact absurd hlen (by simp)
        | cons i ds =>
            rw [List.flatMap_cons, holds_append_iff, putInt_length] at hds
            obtain ⟨hle, hadv⟩ := hstep hds.1
            refine ⟨_, hds.1, ds, ?_, by rw [Int32.toInt32_toUInt32]⟩
            rw [hadv, ih (off + 4) hle]
            exact ⟨Nat.succ.inj hlen, hds.2⟩

/-- The law of `deserialize`, for the 32-bit counter of the server and for the
wider one of the client. -/
theorem deserialize_eq_ok_iff (w : ℕ) (hw : 32 ≤ w) (e : Endian) (data : List UInt8)
    (hdata : data.length < 2 ^ 32) (v : TestStruct) :
    deserialize w e data = .ok v ↔ ∃ t, data = v.serilize e ++ t := by
  have hlt : data.length < 2 ^ w :=
    lt_of_lt_of_le hdata (Nat.pow_le_pow_right (by omega) hw)
  -- whatever was read, the counter behind it has not wrapped
  have hadv : ∀ {off : ℕ} {xs : List UInt8} {k : ℕ}, Holds data off xs → xs.length = k →
      advance w off k = off + k ∧ off + k ≤ data.length := by
    rintro off xs k h rfl
    have hle := holds_length_le h
    exact ⟨advance_of_lt (by omega), hle⟩
  have hstr : ∀ {off n : ℕ} {s : List UInt8}, readAt data off n = .ok s →
      advance w off n = off + n ∧ off + n ≤ data.length ∧ s.length = n := by
    intro off n s h
    obtain ⟨hlen, hs⟩ := (readAt_eq_ok_iff_holds _ _ _ _).mp h
    exact ⟨(hadv hs hlen).1, (hadv hs hlen).2, hlen⟩
  rw [← holds_zero_iff]
  simp only [serilize, deserialize, holds_append_iff, holds_putStr_iff e data 0 _ hdata,
    bind_eq_ok_iff, map_ntohl_read32_eq_ok_iff, read64_eq_ok_iff, Except.ok.injEq,
    List.length_append, putStr_length, putInt_length, put64_length, put32_length, zero_add]
  constructor
  · rintro ⟨n, hn, s, hs, b, hb, c, hc, m, hm, d, hd, rfl⟩
    have h4 : advance w 0 4 = 4 := by simpa using (hadv hn (by simp)).1
    rw [h4] at hs hb hc hm hd
    obtain ⟨has, -, hslen⟩ := hstr hs
    rw [has] at hb hc hm hd
    rw [(hadv hb (by simp)).1] at hc hm hd
    rw [(hadv hc (by simp)).1] at hm hd
    obtain ⟨ham, hle⟩ := hadv (k := 4) hm (by simp)
    rw [ham, deserializeLoop_eq_ok_iff w e data hlt _ _ hle] at hd
    obtain ⟨hdlen, hd⟩ := hd
    rw [hslen, putInt_toInt32, hdlen, UInt32.ofNat_toNat]
    exact ⟨⟨⟨⟨⟨n, hn, hs⟩, hb⟩, hc⟩, hm⟩, hd⟩
  · rintro ⟨⟨⟨⟨⟨n, hn, hs⟩, hb⟩, hc⟩, hm⟩, hd⟩
    have h4 : advance w 0 4 = 4 := by simpa using (hadv hn (by simp)).1
    obtain ⟨has, -, hslen⟩ := hstr hs
    rw [hslen] at hb hc hm hd
    obtain ⟨hab, -⟩ := hadv (k := 4) hb (by simp)
    obtain ⟨hac, -⟩ := hadv (k := 8) hc (by simp)
    obtain ⟨ham, hle⟩ := hadv (k := 4) hm (by simp)
    have hdlen : v.d.length < 2 ^ 32 := by
      have hlen : (v.d.flatMap (putInt e)).length = v.d.length * 4 := by
        simp [List.length_flatMap]
      have hdle := holds_length_le hd
      omega
    refine ⟨n, hn, v.a, ?_, v.b.toUInt32, ?_, v.c, ?_,
      UInt32.ofNat v.d.length, ?_, v.d, ?_, ?_⟩
    · rw [h4]
      exact hs
    · rw [h4, has]
      exact hb
    · rw [h4, has, hab]
      exact hc
    · rw [h4, has, hab, hac]
      exact hm
    · rw [h4, has, hab, hac, ham, deserializeLoop_eq_ok_iff w e data hlt _ _ hle,
        UInt32.toNat_ofNat_of_lt' hdlen]
      exact ⟨rfl, hd⟩
    · rw [Int32.toInt32_toUInt32]

end TestStruct

end TcpData

end P2PWatcher
