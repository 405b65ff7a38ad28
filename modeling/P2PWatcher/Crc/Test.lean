import P2PWatcher.Crc.Hex
import P2PWatcher.Crc.Table
import P2PWatcher.Text.Print

/-!
# The test of the checksum

`testCrc` prints the checksum of a text of digits bit by bit and with the table, for somebody
to compare. The two lines agree for all texts if and only if the first 256 numbers of the
file are the table, and the texts of two digits are enough to find out (`testCrc_agrees_iff`).
-/

namespace P2PWatcher

namespace Crc

open Text Register Memory

/-- What a program has printed: the lines, and the exception that was caught. -/
structure Console where
  cout : List (List UInt8)
  cerr : Option StdError
  deriving DecidableEq

/-- A line with an `int`. With `std::hex` it is printed as an `unsigned int`. -/
def hexLine (v : Int32) : List UInt8 := print 16 v.toBitVec.toNat

/-- What `calcCrc` prints before it throws. `std::hex` is still set. -/
def tooSmall (fsz : List UInt8) : List (List UInt8) :=
  match readTable fsz with
  | .error _ => []
  | .ok tbl => [bytesOf "Размер таблицы:" ++ print 16 tbl.length]

def testCrc (fsz strHexBytes : List UInt8) : Console :=
  match hexToBytes strHexBytes with
  | .error e => { cout := [], cerr := some e }
  | .ok bytes =>
      match calcCrc fsz bytes .func with
      | .error e => { cout := [], cerr := some e }
      | .ok func =>
          match calcCrc fsz bytes .table with
          | .error e => { cout := hexLine func :: tooSmall fsz, cerr := some e }
          | .ok table => { cout := [hexLine func, hexLine table], cerr := none }

/-- The test has printed two equal lines. -/
def Agrees (fsz s : List UInt8) : Prop :=
  ∃ line, testCrc fsz s = { cout := [line, line], cerr := none }

/-- All lines of the file can be read, and the first 256 numbers are the checksums of the
bytes. -/
def BeginsWithTable (fsz : List UInt8) : Prop :=
  ∃ tbl, readTable fsz = .ok tbl ∧ tbl.take 256 = (List.range 256).map entry

/-! ## What is printed -/

theorem stoul_hexLine (v : Int32) : stoul (hexLine v) = .ok v.toBitVec.toNat :=
  stoul_print (v.toBitVec.isLt.trans (by decide))

theorem hexLine_injective : Function.Injective hexLine := by
  intro v v' h
  have hread := stoul_hexLine v
  rw [h, stoul_hexLine, Except.ok.injEq, BitVec.toNat_inj] at hread
  exact Int32.toBitVec_inj.mp hread.symm

/-- Two equal lines say that the two modes agree. -/
theorem testCrc_eq_iff {fsz s bytes : List UInt8} (hs : hexToBytes s = .ok bytes)
    (line : List UInt8) : testCrc fsz s = { cout := [line, line], cerr := none } ↔
      calcCrc fsz bytes .table = calcCrc fsz bytes .func ∧
        line = hexLine (ofRegister (register bytes)) := by
  simp only [testCrc, hs, calcCrc_func]
  cases htable : calcCrc fsz bytes .table with
  | error e => simp
  | ok table =>
      simp only [Console.mk.injEq, List.cons.injEq, and_true, Except.ok.injEq]
      constructor
      · rintro ⟨hfunc, hline⟩
        exact ⟨hexLine_injective (hline.trans hfunc.symm), hfunc.symm⟩
      · rintro ⟨rfl, rfl⟩
        exact ⟨rfl, rfl⟩

/-! ## The tables that agree -/

/-- The numbers behind the first 256 are not looked at. -/
theorem tableByte_take {tbl entries : List UInt16} (htake : tbl.take 256 = entries)
    (htbl : 256 ≤ tbl.length) (hentries : 256 ≤ entries.length) :
    tableByte tbl htbl = tableByte entries hentries := by
  subst htake
  funext crc byte
  simp only [tableByte, List.get_eq_getElem, List.getElem_take]

theorem calcCrc_of_take {fsz : List UInt8} {tbl : List UInt16} (h : readTable fsz = .ok tbl)
    (htake : tbl.take 256 = (List.range 256).map entry) (bytes : List UInt8) :
    calcCrc fsz bytes .table = calcCrc fsz bytes .func := by
  have hentries : 256 ≤ ((List.range 256).map entry).length := by simp
  have htbl : 256 ≤ tbl.length := by
    rw [← htake, List.length_take] at hentries
    omega
  rw [calcCrc_of_readTable h htbl, tableByte_take htake htbl hentries,
    ← calcCrc_of_readTable readTable_crcDat hentries, calcCrc_table, calcCrc_func]

/-- The checksum of one byte is its number in the table. -/
theorem tableByte_zero {tbl : List UInt16} (htbl : 256 ≤ tbl.length) (byte : UInt8) :
    tableByte tbl htbl 0 byte = tbl.get ⟨byte.toNat, lt_of_lt_of_le byte.toNat_lt htbl⟩ := by
  have hmask (x : UInt16) : x &&& 0xFFFF = x := UInt16.and_neg_one
  have hindex : ((0 : UInt16) >>> 8).toUInt8 ^^^ byte = byte := UInt8.zero_xor
  simp only [tableByte, hindex, hmask]
  exact UInt16.zero_xor

/-- A byte finds out about its number in the table. -/
theorem get_of_agrees {fsz : List UInt8} {tbl : List UInt16} (h : readTable fsz = .ok tbl)
    (htbl : 256 ≤ tbl.length) (byte : UInt8)
    (hagrees : calcCrc fsz [byte] .table = calcCrc fsz [byte] .func) :
    tbl.get ⟨byte.toNat, lt_of_lt_of_le byte.toNat_lt htbl⟩ = entry byte.toNat := by
  have hentries : 256 ≤ ((List.range 256).map entry).length := by simp
  rw [calcCrc_of_readTable h htbl, calcCrc_func, ← calcCrc_table,
    calcCrc_of_readTable readTable_crcDat hentries, Except.ok.injEq] at hagrees
  simp only [List.foldl_cons, List.foldl_nil, tableByte_zero] at hagrees
  have hnat (x : UInt16) : (Int32.ofNat x.toNat).toBitVec.toNat = x.toNat :=
    Nat.mod_eq_of_lt (x.toNat_lt.trans (by decide))
  have hget := congrArg (fun v : Int32 => v.toBitVec.toNat) hagrees
  simp only [hnat, List.get_eq_getElem, List.getElem_map, List.getElem_range] at hget
  exact UInt16.toNat_inj.mp hget

theorem exists_readTable {fsz bytes : List UInt8} {v : Int32}
    (h : calcCrc fsz bytes .table = .ok v) :
    ∃ tbl, readTable fsz = .ok tbl ∧ 256 ≤ tbl.length := by
  obtain ⟨tbl, htbl, hcalc⟩ := (bind_eq_ok_iff _ _ _).mp h
  split at hcalc
  · exact nomatch hcalc
  · next hlen => exact ⟨tbl, htbl, Nat.le_of_not_lt hlen⟩

theorem take_of_agrees {fsz : List UInt8}
    (h : ∀ byte, calcCrc fsz [byte] .table = calcCrc fsz [byte] .func) :
    BeginsWithTable fsz := by
  have hzero := h 0
  rw [calcCrc_func] at hzero
  obtain ⟨tbl, htbl, hlen⟩ := exists_readTable hzero
  refine ⟨tbl, htbl, List.ext_getElem (by simpa using hlen) fun i hi _ => ?_⟩
  have hlt : i < 256 := lt_of_lt_of_le hi (by rw [List.length_take]; exact Nat.min_le_left _ _)
  have hget := get_of_agrees htbl hlen (UInt8.ofNat i) (h _)
  simp only [List.get_eq_getElem, UInt8.toNat_ofNat_of_lt' hlt] at hget
  rw [List.getElem_take, hget, List.getElem_map, List.getElem_range]

/-- The lines agree for all texts of digits exactly when the file can be read and begins with the
table, and they do so if they agree for the texts of two digits. -/
theorem testCrc_agrees_iff (fsz : List UInt8) :
    ((∀ s, IsHex s → Agrees fsz s) ↔ BeginsWithTable fsz) ∧
      ((∀ s, IsHex s → s.length = 2 → Agrees fsz s) ↔ BeginsWithTable fsz) := by
  have hall (h : BeginsWithTable fsz) (s : List UInt8) (hs : IsHex s) : Agrees fsz s := by
    obtain ⟨tbl, htbl, htake⟩ := h
    exact ⟨_, (testCrc_eq_iff (hexToBytes_of_isHex hs) _).mpr
      ⟨calcCrc_of_take htbl htake _, rfl⟩⟩
  have htwo (h : ∀ s, IsHex s → s.length = 2 → Agrees fsz s) : BeginsWithTable fsz := by
    refine take_of_agrees fun byte => ?_
    obtain ⟨line, hline⟩ := h (encode [byte]) (isHex_encode [byte]) rfl
    exact ((testCrc_eq_iff (hexToBytes_encode [byte]) line).mp hline).1
  exact ⟨⟨fun h => htwo fun s hs _ => h s hs, hall⟩, htwo, fun h s hs _ => hall h s hs⟩

end Crc

end P2PWatcher
