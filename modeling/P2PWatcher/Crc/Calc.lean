import Mathlib.Data.Nat.Bitwise
import P2PWatcher.Register.Shift
import P2PWatcher.Text.Read

/-!
# The checksum

`calcCrc` works on an `int` and shifts bit by bit, or on 16 bits with a table that is read
from a file; `crcCcitt` is the same loop in Python, where numbers have no width. Both loops
over the bits run a register of 16 bits with the feedback `0x1021` on the bytes
(`calcCrc_func`, `crcCcitt_toNat`).
-/

namespace P2PWatcher

namespace Crc

open Text Register

inductive ModeCrc where
  | func
  | table
  deriving DecidableEq, Repr

/-! ## Bit by bit -/

def poly : Int32 := 0x1021

def funcBit (crc : Int32) : Int32 :=
  (if crc &&& 0x8000 ≠ 0 then (crc <<< 1) ^^^ poly else crc <<< 1) &&& 0xFFFF

def funcByte (crc : Int32) (byte : UInt8) : Int32 :=
  funcBit^[8] (crc ^^^ (Int32.ofNat byte.toNat <<< 8))

/-! ## With the table -/

/-- Empty lines are left out, and a number is cut to 16 bits. -/
def readTable (fsz : List UInt8) : Except StdError (List UInt16) :=
  ((getlines fsz).filter (· ≠ [])).mapM fun s => (stoul s).map Nat.toUInt16

def tableByte (tbl : List UInt16) (htbl : 256 ≤ tbl.length) (crc : UInt16) (byte : UInt8) :
    UInt16 :=
  let index := (crc >>> 8).toUInt8 ^^^ byte
  ((crc <<< 8) ^^^ tbl.get ⟨index.toNat, lt_of_lt_of_le index.toNat_lt htbl⟩) &&& 0xFFFF

/-- The content of `crc.dat` is `fsz`; a file that is not there has none. -/
def calcCrc (fsz : List UInt8) (bytes : List UInt8) : ModeCrc → Except StdError Int32
  | .func => .ok (bytes.foldl funcByte 0)
  | .table => do
      let tbl ← readTable fsz
      if h : tbl.length < 256 then .error (.runtimeError "Ошибка: таблица CRC слишком мала!")
      else .ok (Int32.ofNat (bytes.foldl (tableByte tbl (Nat.le_of_not_lt h)) 0).toNat)

theorem calcCrc_of_readTable {fsz : List UInt8} {tbl : List UInt16} (h : readTable fsz = .ok tbl)
    (htbl : 256 ≤ tbl.length) (bytes : List UInt8) :
    calcCrc fsz bytes .table = .ok (Int32.ofNat (bytes.foldl (tableByte tbl htbl) 0).toNat) := by
  rw [calcCrc, h]
  exact dif_neg (Nat.not_lt.mpr htbl)

/-! ## The same in Python -/

def ccittBit (crc : ℕ) : ℕ :=
  (if crc &&& 0x8000 ≠ 0 then (crc <<< 1) ^^^ 0x1021 else crc <<< 1) &&& 0xFFFF

def crcCcitt (data : List UInt8) (init : ℕ) : ℕ :=
  data.foldl (fun crc byte => ccittBit^[8] (crc ^^^ (byte.toNat <<< 8))) init

/-! ## The register behind them -/

/-- A byte as a word of 8 bits. -/
def words (bytes : List UInt8) : List (BitVec 8) := bytes.map UInt8.toBitVec

@[simp] theorem words_length (bytes : List UInt8) : (words bytes).length = bytes.length :=
  List.length_map _

theorem words_injective : Function.Injective words :=
  List.map_injective_iff.mpr fun _ _ => UInt8.toBitVec_inj.mp

/-- What the register holds after the bytes. -/
def register (bytes : List UInt8) : BitVec 16 := run 0x1021#16 0 (words bytes)

/-- What the register holds, as the `int` of `calcCrc`. -/
def ofRegister (r : BitVec 16) : Int32 := Int32.ofBitVec (r.setWidth 32)

@[simp] theorem toBitVec_ofRegister (r : BitVec 16) : (ofRegister r).toBitVec = r.setWidth 32 :=
  rfl

theorem toNat_ofRegister (r : BitVec 16) : (ofRegister r).toBitVec.toNat = r.toNat := by
  rw [toBitVec_ofRegister, BitVec.toNat_setWidth]
  exact Nat.mod_eq_of_lt (r.isLt.trans (by decide))

theorem toInt_ofRegister (r : BitVec 16) : (ofRegister r).toInt = r.toNat := by
  rw [← Int32.toInt_toBitVec, BitVec.toInt_eq_toNat_of_lt, toNat_ofRegister]
  rw [toNat_ofRegister]
  exact lt_of_lt_of_le (Nat.mul_lt_mul_of_pos_left r.isLt (by decide)) (by decide)

theorem ofRegister_injective : Function.Injective ofRegister := by
  intro r s h
  refine BitVec.eq_of_toNat_eq ?_
  rw [← toNat_ofRegister, h, toNat_ofRegister]

/-! ## The register in an `int` -/

theorem and_mask (x : BitVec 32) : x &&& 0xFFFF#32 = (x.setWidth 16).setWidth 32 := by
  refine BitVec.eq_of_getLsbD_eq fun i hi => ?_
  have hmask : (0xFFFF#32).getLsbD i = decide (i < 16) := by
    rw [BitVec.getLsbD_ofNat, show 0xFFFF = 2 ^ 16 - 1 from rfl, Nat.testBit_two_pow_sub_one]
    simp [hi]
  rw [BitVec.getLsbD_and, hmask, BitVec.getLsbD_setWidth, BitVec.getLsbD_setWidth]
  simp [hi, Bool.and_comm]

theorem funcBit_ofRegister (r : BitVec 16) :
    funcBit (ofRegister r) = ofRegister (shift 0x1021#16 r) := by
  have hmsb : ofRegister r &&& 0x8000 ≠ 0 ↔ r.msb = true := by
    rw [ne_eq, ← Int32.toBitVec_inj, Int32.toBitVec_and, toBitVec_ofRegister]
    change ¬ r.setWidth 32 &&& BitVec.twoPow 32 15 = 0#32 ↔ _
    rw [BitVec.and_twoPow, BitVec.msb_eq_getLsbD_last, BitVec.getLsbD_setWidth]
    cases r.getLsbD 15 <;> decide
  have hshift : (ofRegister r <<< 1).toBitVec = r.setWidth 32 <<< 1 := by
    rw [Int32.toBitVec_shiftLeft]
    rfl
  have hcut : (r.setWidth 32 <<< 1).setWidth 16 = r <<< 1 := by
    rw [BitVec.setWidth_shiftLeft_of_le (by decide)]
    simp
  have hpoly : poly.toBitVec.setWidth 16 = 0x1021#16 := rfl
  have hand (x : Int32) : (x &&& 0xFFFF).toBitVec = (x.toBitVec.setWidth 16).setWidth 32 := by
    rw [Int32.toBitVec_and, ← and_mask]
    rfl
  rw [← Int32.toBitVec_inj, funcBit, hand, toBitVec_ofRegister, shift]
  by_cases hr : r.msb = true
  · rw [if_pos (hmsb.mpr hr), if_pos hr, Int32.toBitVec_xor, hshift, BitVec.setWidth_xor, hcut,
      hpoly]
  · rw [if_neg (fun h' => hr (hmsb.mp h')), if_neg hr, hshift, hcut]

theorem ofRegister_xor (r s : BitVec 16) :
    ofRegister (r ^^^ s) = ofRegister r ^^^ ofRegister s := by
  rw [← Int32.toBitVec_inj, Int32.toBitVec_xor, toBitVec_ofRegister, BitVec.setWidth_xor,
    toBitVec_ofRegister, toBitVec_ofRegister]

/-- A byte at the upper end of the register. -/
theorem ofRegister_byte (byte : UInt8) :
    ofRegister (byte.toBitVec.setWidth 16 <<< (16 - 8)) = Int32.ofNat byte.toNat <<< 8 := by
  have hword : (Int32.ofNat byte.toNat).toBitVec = byte.toBitVec.setWidth 32 :=
    BitVec.ofNat_toNat 32 byte.toBitVec
  rw [← Int32.toBitVec_inj, Int32.toBitVec_shiftLeft, hword, toBitVec_ofRegister]
  change _ = byte.toBitVec.setWidth 32 <<< 8
  refine BitVec.eq_of_getLsbD_eq fun i hi => ?_
  rw [BitVec.getLsbD_setWidth, BitVec.getLsbD_shiftLeft, BitVec.getLsbD_setWidth,
    BitVec.getLsbD_shiftLeft, BitVec.getLsbD_setWidth]
  by_cases h16 : i < 16
  · simp [hi, h16, show i - 8 < 32 by omega, show i - 8 < 16 by omega]
  · simp [hi, h16, BitVec.getLsbD_of_ge byte.toBitVec (i - 8) (by omega)]

theorem funcByte_ofRegister (r : BitVec 16) (byte : UInt8) :
    funcByte (ofRegister r) byte = ofRegister (feed 0x1021#16 r byte.toBitVec) := by
  have hiter : Function.Semiconj ofRegister (shift 0x1021#16) funcBit :=
    fun r => (funcBit_ofRegister r).symm
  rw [funcByte, ← ofRegister_byte, ← ofRegister_xor, ← (hiter.iterate_right 8).eq, feed]

/-- Bit by bit, nothing is thrown. -/
theorem calcCrc_func (fsz bytes : List UInt8) :
    calcCrc fsz bytes .func = .ok (ofRegister (register bytes)) := by
  have hfold : bytes.foldl funcByte (ofRegister 0) =
      ofRegister (bytes.foldl (fun r byte => feed 0x1021#16 r byte.toBitVec) 0) :=
    List.foldl_hom ofRegister funcByte_ofRegister
  rw [calcCrc, register, run, words, List.foldl_map, ← hfold]
  rfl

/-! ## The register in a Python number -/

theorem ccittBit_toNat (r : BitVec 16) : ccittBit r.toNat = (shift 0x1021#16 r).toNat := by
  have hmsb : r.toNat &&& 0x8000 ≠ 0 ↔ r.msb = true := by
    rw [show 0x8000 = 2 ^ 15 from rfl, Nat.and_two_pow, BitVec.msb_eq_getLsbD_last,
      BitVec.getLsbD]
    cases r.toNat.testBit (16 - 1) <;> decide
  have hcut (n : ℕ) : n &&& 0xFFFF = n % 2 ^ 16 := Nat.and_two_pow_sub_one_eq_mod n 16
  rw [ccittBit, hcut, shift]
  by_cases hr : r.msb = true
  · rw [if_pos (hmsb.mpr hr), if_pos hr, Nat.xor_mod_two_pow, BitVec.toNat_xor,
      BitVec.toNat_shiftLeft]
    rfl
  · rw [if_neg (fun h' => hr (hmsb.mp h')), if_neg hr, BitVec.toNat_shiftLeft]

theorem toNat_byte (byte : UInt8) :
    (byte.toBitVec.setWidth 16 <<< (16 - 8)).toNat = byte.toNat <<< 8 := by
  have hbyte := byte.toNat_lt
  have hword : (byte.toBitVec.setWidth 16).toNat = byte.toNat := by
    rw [BitVec.toNat_setWidth]
    exact Nat.mod_eq_of_lt (hbyte.trans (by decide))
  rw [BitVec.toNat_shiftLeft, hword, Nat.shiftLeft_eq]
  exact Nat.mod_eq_of_lt (by omega)

theorem ccittByte_toNat (r : BitVec 16) (byte : UInt8) :
    ccittBit^[8] (r.toNat ^^^ (byte.toNat <<< 8)) = (feed 0x1021#16 r byte.toBitVec).toNat := by
  have hiter : Function.Semiconj BitVec.toNat (shift 0x1021#16) ccittBit :=
    fun r => (ccittBit_toNat r).symm
  rw [← toNat_byte, ← BitVec.toNat_xor, ← (hiter.iterate_right 8).eq, feed]

theorem crcCcitt_toNat (bytes : List UInt8) (r : BitVec 16) :
    crcCcitt bytes r.toNat = (run 0x1021#16 r (words bytes)).toNat := by
  have hfold : crcCcitt bytes r.toNat =
      (bytes.foldl (fun r byte => feed 0x1021#16 r byte.toBitVec) r).toNat :=
    List.foldl_hom BitVec.toNat ccittByte_toNat
  rw [run, words, List.foldl_map, hfold]

end Crc

end P2PWatcher
