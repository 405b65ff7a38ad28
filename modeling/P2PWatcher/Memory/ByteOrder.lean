import Mathlib.Data.List.Basic
import Mathlib.Data.List.Palindrome
import Mathlib.Tactic.Common
import Mathlib.Tactic.Ring

/-!
# Machine words in memory

`Endian.encode e w n` is the memory image of the `w`-byte word `n` on a host
of byte order `e`, and `Endian.decode e` reads an image back. Both directions
are laws for words of every width. `htonl` and `ntohl` are defined by what
they do to the memory image: the image of `htonl v` is the big-endian image of
`v`, on either kind of host.
-/

namespace Memory

/-- The byte order of a host. -/
inductive Endian where
  | little
  | big
  deriving DecidableEq, Repr

/-- The `w` low base-256 digits of `n`, the lowest first. -/
def digits : ℕ → ℕ → List UInt8
  | 0, _ => []
  | w + 1, n => UInt8.ofNat n :: digits w (n / 256)

/-- The number with the given base-256 digits, the lowest first. -/
def ofDigits : List UInt8 → ℕ
  | [] => 0
  | b :: bs => b.toNat + 256 * ofDigits bs

@[simp] theorem digits_length (w n : ℕ) : (digits w n).length = w := by
  induction w generalizing n with
  | zero => rfl
  | succ w ih => simp [digits, ih]

theorem ofDigits_digits (w n : ℕ) : ofDigits (digits w n) = n % 256 ^ w := by
  induction w generalizing n with
  | zero => simp [digits, ofDigits, Nat.mod_one]
  | succ w ih =>
      rw [digits, ofDigits, ih, pow_succ, mul_comm (256 ^ w) 256, Nat.mod_mul]
      simp

theorem digits_ofDigits (bs : List UInt8) : digits bs.length (ofDigits bs) = bs := by
  induction bs with
  | nil => rfl
  | cons b bs ih =>
      have hb : b.toNat < 256 := b.toNat_lt
      have hdiv : (b.toNat + 256 * ofDigits bs) / 256 = ofDigits bs := by omega
      have hhead : UInt8.ofNat (b.toNat + 256 * ofDigits bs) = b := by
        apply UInt8.toNat_inj.mp
        rw [UInt8.toNat_ofNat']
        omega
      rw [List.length_cons, ofDigits, digits, hdiv, hhead, ih]

theorem ofDigits_lt (bs : List UInt8) : ofDigits bs < 256 ^ bs.length := by
  induction bs with
  | nil => simp [ofDigits]
  | cons b bs ih =>
      have hb : b.toNat < 256 := b.toNat_lt
      rw [ofDigits, List.length_cons, pow_succ]
      omega

theorem ofDigits_append (xs ys : List UInt8) :
    ofDigits (xs ++ ys) = ofDigits xs + 256 ^ xs.length * ofDigits ys := by
  induction xs with
  | nil => simp [ofDigits]
  | cons x xs ih =>
      rw [List.cons_append, ofDigits, ofDigits, ih, List.length_cons, pow_succ]
      ring

theorem ofDigits_replicate_zero (k : ℕ) : ofDigits (List.replicate k 0) = 0 := by
  induction k with
  | zero => rfl
  | succ k ih => rw [List.replicate_succ, ofDigits, ih, UInt8.toNat_zero]

namespace Endian

/-- The memory image of the `w`-byte word `n`. -/
def encode : Endian → ℕ → ℕ → List UInt8
  | little, w, n => digits w n
  | big, w, n => (digits w n).reverse

/-- The word with the given memory image. -/
def decode : Endian → List UInt8 → ℕ
  | little, bs => ofDigits bs
  | big, bs => ofDigits bs.reverse

@[simp] theorem encode_length (e : Endian) (w n : ℕ) : (e.encode w n).length = w := by
  cases e <;> simp [encode]

theorem decode_encode (e : Endian) (w n : ℕ) :
    e.decode (e.encode w n) = n % 256 ^ w := by
  cases e <;> simp [encode, decode, ofDigits_digits]

theorem encode_decode (e : Endian) (bs : List UInt8) :
    e.encode bs.length (e.decode bs) = bs := by
  cases e with
  | little => exact digits_ofDigits bs
  | big =>
      have h := digits_ofDigits bs.reverse
      rw [List.length_reverse] at h
      rw [encode, decode, h, List.reverse_reverse]

theorem decode_lt (e : Endian) (bs : List UInt8) : e.decode bs < 256 ^ bs.length := by
  cases e with
  | little => exact ofDigits_lt bs
  | big =>
      rw [← List.length_reverse]
      exact ofDigits_lt bs.reverse

/-- Of the big-endian images with given first bytes the one filled with zeros is the least. -/
theorem decode_big_replicate_zero_le (xs ys : List UInt8) :
    big.decode (xs ++ List.replicate ys.length 0) ≤ big.decode (xs ++ ys) := by
  rw [decode, decode, List.reverse_append, List.reverse_append, List.reverse_replicate,
    ofDigits_append, ofDigits_append, ofDigits_replicate_zero, List.length_replicate,
    List.length_reverse]
  omega

end Endian

/-! ## Words of the four widths

`putN e v` is the memory image of `v` and `getN e` reads it back.
-/

def put8 (v : UInt8) : List UInt8 := [v]

def put16 (e : Endian) (v : UInt16) : List UInt8 := e.encode 2 v.toNat

def put32 (e : Endian) (v : UInt32) : List UInt8 := e.encode 4 v.toNat

def put64 (e : Endian) (v : UInt64) : List UInt8 := e.encode 8 v.toNat

def get8 (bs : List UInt8) : UInt8 := bs.headD 0

def get16 (e : Endian) (bs : List UInt8) : UInt16 := UInt16.ofNat (e.decode bs)

def get32 (e : Endian) (bs : List UInt8) : UInt32 := UInt32.ofNat (e.decode bs)

def get64 (e : Endian) (bs : List UInt8) : UInt64 := UInt64.ofNat (e.decode bs)

@[simp] theorem put8_length (v : UInt8) : (put8 v).length = 1 := rfl

@[simp] theorem put16_length (e : Endian) (v : UInt16) : (put16 e v).length = 2 :=
  e.encode_length 2 _

@[simp] theorem put32_length (e : Endian) (v : UInt32) : (put32 e v).length = 4 :=
  e.encode_length 4 _

@[simp] theorem put64_length (e : Endian) (v : UInt64) : (put64 e v).length = 8 :=
  e.encode_length 8 _

@[simp] theorem get8_put8 (v : UInt8) : get8 (put8 v) = v := rfl

@[simp] theorem get16_put16 (e : Endian) (v : UInt16) : get16 e (put16 e v) = v := by
  have hlt : v.toNat < 256 ^ 2 := v.toNat_lt
  rw [get16, put16, e.decode_encode, Nat.mod_eq_of_lt hlt, UInt16.ofNat_toNat]

theorem put16_injective (e : Endian) : Function.Injective (put16 e) :=
  Function.LeftInverse.injective (get16_put16 e)

@[simp] theorem get32_put32 (e : Endian) (v : UInt32) : get32 e (put32 e v) = v := by
  have hlt : v.toNat < 256 ^ 4 := v.toNat_lt
  rw [get32, put32, e.decode_encode, Nat.mod_eq_of_lt hlt, UInt32.ofNat_toNat]

@[simp] theorem get64_put64 (e : Endian) (v : UInt64) : get64 e (put64 e v) = v := by
  have hlt : v.toNat < 256 ^ 8 := v.toNat_lt
  rw [get64, put64, e.decode_encode, Nat.mod_eq_of_lt hlt, UInt64.ofNat_toNat]

theorem put8_get8 (bs : List UInt8) (h : bs.length = 1) : put8 (get8 bs) = bs := by
  obtain ⟨b, rfl⟩ := List.length_eq_one_iff.mp h
  rfl

theorem put16_get16 (e : Endian) (bs : List UInt8) (h : bs.length = 2) :
    put16 e (get16 e bs) = bs := by
  have hlt : e.decode bs < 2 ^ 16 := by simpa [h] using e.decode_lt bs
  rw [put16, get16, UInt16.toNat_ofNat_of_lt' hlt, ← h, e.encode_decode]

theorem put32_get32 (e : Endian) (bs : List UInt8) (h : bs.length = 4) :
    put32 e (get32 e bs) = bs := by
  have hlt : e.decode bs < 2 ^ 32 := by simpa [h] using e.decode_lt bs
  rw [put32, get32, UInt32.toNat_ofNat_of_lt' hlt, ← h, e.encode_decode]

theorem get32_toNat (e : Endian) (bs : List UInt8) (h : bs.length = 4) :
    (get32 e bs).toNat = e.decode bs := by
  have hlt : e.decode bs < 2 ^ 32 := by simpa [h] using e.decode_lt bs
  rw [get32, UInt32.toNat_ofNat_of_lt' hlt]

theorem put64_get64 (e : Endian) (bs : List UInt8) (h : bs.length = 8) :
    put64 e (get64 e bs) = bs := by
  have hlt : e.decode bs < 2 ^ 64 := by simpa [h] using e.decode_lt bs
  rw [put64, get64, UInt64.toNat_ofNat_of_lt' hlt, ← h, e.encode_decode]

/-! ## Words that every host reads alike -/

/-- The `w` bytes of `n` are the same from the lowest up as from the highest down. -/
def Mirrored (w n : ℕ) : Prop := (digits w n).Palindrome

instance (w n : ℕ) : Decidable (Mirrored w n) :=
  inferInstanceAs (Decidable (List.Palindrome _))

theorem Endian.encode_eq_encode_iff (e e' : Endian) (w n : ℕ) :
    e.encode w n = e'.encode w n ↔ e = e' ∨ Mirrored w n := by
  rw [Mirrored, List.Palindrome.iff_reverse_eq]
  cases e <;> cases e' <;> simp [encode, eq_comm]

theorem put16_eq_put16_iff (e e' : Endian) (v : UInt16) :
    put16 e v = put16 e' v ↔ e = e' ∨ Mirrored 2 v.toNat :=
  e.encode_eq_encode_iff e' 2 _

theorem put32_eq_put32_iff (e e' : Endian) (v : UInt32) :
    put32 e v = put32 e' v ↔ e = e' ∨ Mirrored 4 v.toNat :=
  e.encode_eq_encode_iff e' 4 _

theorem put64_eq_put64_iff (e e' : Endian) (v : UInt64) :
    put64 e v = put64 e' v ↔ e = e' ∨ Mirrored 8 v.toNat :=
  e.encode_eq_encode_iff e' 8 _

/-- A word that one host writes and another one reads. -/
theorem get32_put32_iff (e e' : Endian) (v : UInt32) :
    get32 e' (put32 e v) = v ↔ e = e' ∨ Mirrored 4 v.toNat := by
  rw [← put32_eq_put32_iff]
  constructor
  · intro h
    have hbytes := put32_get32 e' (put32 e v) (put32_length e v)
    rw [h] at hbytes
    exact hbytes.symm
  · intro h
    rw [h, get32_put32]

/-! ## Network order -/

/-- The host word whose memory image is the big-endian image of `v`. -/
def htonl (e : Endian) (v : UInt32) : UInt32 := get32 e (put32 .big v)

/-- The word whose big-endian image is the memory image of `v`. -/
def ntohl (e : Endian) (v : UInt32) : UInt32 := get32 .big (put32 e v)

@[simp] theorem ntohl_htonl (e : Endian) (v : UInt32) : ntohl e (htonl e v) = v := by
  rw [ntohl, htonl, put32_get32 e _ (by simp), get32_put32]

/-- On every host the image of `htonl v` is the same. -/
theorem put32_htonl (e : Endian) (v : UInt32) : put32 e (htonl e v) = put32 .big v :=
  put32_get32 e _ (put32_length .big v)

@[simp] theorem htonl_ntohl (e : Endian) (v : UInt32) : htonl e (ntohl e v) = v := by
  rw [ntohl, htonl, put32_get32 .big _ (by simp), get32_put32]

end Memory
