import P2PWatcher.Crc.Calc

/-!
# The table of the checksum

The lines of `crc.dat` are numbers of 32 bits, of which the reader keeps 16. What is kept is,
for every byte, what 8 shifts make of it (`readTable_crcDat`), so that with this file the table
gives the checksum that is computed bit by bit, and that of the Python program
(`calcCrc_table_eq_func`).
-/

namespace P2PWatcher

namespace Crc

open Text Register

/-- The lines of `crc.dat`. -/
def crcLines : List String := [
  "0x00000000", "0x00011021", "0x00022042", "0x00033063", "0x00044084", "0x000550a5",
  "0x000660c6", "0x000770e7", "0x00088108", "0x00099129", "0x000aa14a", "0x000bb16b",
  "0x000cc18c", "0x000dd1ad", "0x000ee1ce", "0x000ff1ef", "0x00111231", "0x00100210",
  "0x00133273", "0x00122252", "0x001552b5", "0x00144294", "0x001772f7", "0x001662d6",
  "0x00199339", "0x00188318", "0x001bb37b", "0x001aa35a", "0x001dd3bd", "0x001cc39c",
  "0x001ff3ff", "0x001ee3de", "0x00222462", "0x00233443", "0x00200420", "0x00211401",
  "0x002664e6", "0x002774c7", "0x002444a4", "0x00255485", "0x002aa56a", "0x002bb54b",
  "0x00288528", "0x00299509", "0x002ee5ee", "0x002ff5cf", "0x002cc5ac", "0x002dd58d",
  "0x00333653", "0x00322672", "0x00311611", "0x00300630", "0x003776d7", "0x003666f6",
  "0x00355695", "0x003446b4", "0x003bb75b", "0x003aa77a", "0x00399719", "0x00388738",
  "0x003ff7df", "0x003ee7fe", "0x003dd79d", "0x003cc7bc", "0x004448c4", "0x004558e5",
  "0x00466886", "0x004778a7", "0x00400840", "0x00411861", "0x00422802", "0x00433823",
  "0x004cc9cc", "0x004dd9ed", "0x004ee98e", "0x004ff9af", "0x00488948", "0x00499969",
  "0x004aa90a", "0x004bb92b", "0x00555af5", "0x00544ad4", "0x00577ab7", "0x00566a96",
  "0x00511a71", "0x00500a50", "0x00533a33", "0x00522a12", "0x005ddbfd", "0x005ccbdc",
  "0x005ffbbf", "0x005eeb9e", "0x00599b79", "0x00588b58", "0x005bbb3b", "0x005aab1a",
  "0x00666ca6", "0x00677c87", "0x00644ce4", "0x00655cc5", "0x00622c22", "0x00633c03",
  "0x00600c60", "0x00611c41", "0x006eedae", "0x006ffd8f", "0x006ccdec", "0x006dddcd",
  "0x006aad2a", "0x006bbd0b", "0x00688d68", "0x00699d49", "0x00777e97", "0x00766eb6",
  "0x00755ed5", "0x00744ef4", "0x00733e13", "0x00722e32", "0x00711e51", "0x00700e70",
  "0x007fff9f", "0x007eefbe", "0x007ddfdd", "0x007ccffc", "0x007bbf1b", "0x007aaf3a",
  "0x00799f59", "0x00788f78", "0x00889188", "0x008981a9", "0x008ab1ca", "0x008ba1eb",
  "0x008cd10c", "0x008dc12d", "0x008ef14e", "0x008fe16f", "0x00801080", "0x008100a1",
  "0x008230c2", "0x008320e3", "0x00845004", "0x00854025", "0x00867046", "0x00876067",
  "0x009983b9", "0x00989398", "0x009ba3fb", "0x009ab3da", "0x009dc33d", "0x009cd31c",
  "0x009fe37f", "0x009ef35e", "0x009102b1", "0x00901290", "0x009322f3", "0x009232d2",
  "0x00954235", "0x00945214", "0x00976277", "0x00967256", "0x00aab5ea", "0x00aba5cb",
  "0x00a895a8", "0x00a98589", "0x00aef56e", "0x00afe54f", "0x00acd52c", "0x00adc50d",
  "0x00a234e2", "0x00a324c3", "0x00a014a0", "0x00a10481", "0x00a67466", "0x00a76447",
  "0x00a45424", "0x00a54405", "0x00bba7db", "0x00bab7fa", "0x00b98799", "0x00b897b8",
  "0x00bfe75f", "0x00bef77e", "0x00bdc71d", "0x00bcd73c", "0x00b326d3", "0x00b236f2",
  "0x00b10691", "0x00b016b0", "0x00b76657", "0x00b67676", "0x00b54615", "0x00b45634",
  "0x00ccd94c", "0x00cdc96d", "0x00cef90e", "0x00cfe92f", "0x00c899c8", "0x00c989e9",
  "0x00cab98a", "0x00cba9ab", "0x00c45844", "0x00c54865", "0x00c67806", "0x00c76827",
  "0x00c018c0", "0x00c108e1", "0x00c23882", "0x00c328a3", "0x00ddcb7d", "0x00dcdb5c",
  "0x00dfeb3f", "0x00defb1e", "0x00d98bf9", "0x00d89bd8", "0x00dbabbb", "0x00dabb9a",
  "0x00d54a75", "0x00d45a54", "0x00d76a37", "0x00d67a16", "0x00d10af1", "0x00d01ad0",
  "0x00d32ab3", "0x00d23a92", "0x00eefd2e", "0x00efed0f", "0x00ecdd6c", "0x00edcd4d",
  "0x00eabdaa", "0x00ebad8b", "0x00e89de8", "0x00e98dc9", "0x00e67c26", "0x00e76c07",
  "0x00e45c64", "0x00e54c45", "0x00e23ca2", "0x00e32c83", "0x00e01ce0", "0x00e10cc1",
  "0x00ffef1f", "0x00feff3e", "0x00fdcf5d", "0x00fcdf7c", "0x00fbaf9b", "0x00fabfba",
  "0x00f98fd9", "0x00f89ff8", "0x00f76e17", "0x00f67e36", "0x00f54e55", "0x00f45e74",
  "0x00f32e93", "0x00f23eb2", "0x00f10ed1", "0x00f01ef0"]

/-- The content of `crc.dat`: each line ends with a newline. -/
def crcDat : List UInt8 := crcLines.flatMap fun line => bytesOf line ++ [10]

/-- What 8 shifts make of a byte. -/
def entry (i : ℕ) : UInt16 := UInt16.ofBitVec (feed 0x1021#16 0 (BitVec.ofNat 8 i))

theorem readTable_crcDat : readTable crcDat = .ok ((List.range 256).map entry) := by
  decide +kernel

theorem get_entry (htbl : 256 ≤ ((List.range 256).map entry).length) (index : UInt8) :
    ((List.range 256).map entry).get ⟨index.toNat, lt_of_lt_of_le index.toNat_lt htbl⟩ =
      UInt16.ofBitVec (feed 0x1021#16 0 index.toBitVec) := by
  rw [List.get_eq_getElem, List.getElem_map, List.getElem_range, entry]
  congr 2
  exact BitVec.ofNat_toNat 8 index.toBitVec

theorem tableByte_ofBitVec (htbl : 256 ≤ ((List.range 256).map entry).length) (r : BitVec 16)
    (byte : UInt8) :
    tableByte ((List.range 256).map entry) htbl (UInt16.ofBitVec r) byte =
      UInt16.ofBitVec (feed 0x1021#16 r byte.toBitVec) := by
  have hindex : ((UInt16.ofBitVec r >>> 8).toUInt8 ^^^ byte).toBitVec =
      (r >>> (16 - 8)).setWidth 8 ^^^ byte.toBitVec := by
    rw [UInt8.toBitVec_xor]
    rfl
  have hmask (x : UInt16) : x &&& 0xFFFF = x := UInt16.and_neg_one
  rw [tableByte, get_entry htbl, hindex, hmask, feed_eq_table (by decide) _ r,
    ← UInt16.toBitVec_inj, UInt16.toBitVec_xor]
  rfl

theorem ofNat_toNat_ofBitVec (r : BitVec 16) :
    Int32.ofNat (UInt16.ofBitVec r).toNat = ofRegister r := by
  rw [← Int32.toBitVec_inj, toBitVec_ofRegister]
  exact BitVec.ofNat_toNat 32 r

/-- With the table, nothing is thrown. -/
theorem calcCrc_table (bytes : List UInt8) :
    calcCrc crcDat bytes .table = .ok (ofRegister (register bytes)) := by
  have hlen : 256 ≤ ((List.range 256).map entry).length := by simp
  have hfold : bytes.foldl (tableByte ((List.range 256).map entry) hlen) (UInt16.ofBitVec 0) =
      UInt16.ofBitVec (bytes.foldl (fun r byte => feed 0x1021#16 r byte.toBitVec) 0) :=
    List.foldl_hom UInt16.ofBitVec (tableByte_ofBitVec hlen)
  have hinit : UInt16.ofBitVec 0 = 0 := rfl
  rw [hinit] at hfold
  rw [calcCrc_of_readTable readTable_crcDat hlen, hfold, ofNat_toNat_ofBitVec, register, run,
    words, List.foldl_map]

/-- In either mode the checksum is what the register holds. -/
theorem calcCrc_eq (mode : ModeCrc) (bytes : List UInt8) :
    calcCrc crcDat bytes mode = .ok (ofRegister (register bytes)) := by
  cases mode with
  | func => exact calcCrc_func crcDat bytes
  | table => exact calcCrc_table bytes

/-- The table, the bits one by one, and the Python program give one checksum. -/
theorem calcCrc_table_eq_func (bytes : List UInt8) :
    calcCrc crcDat bytes .table = calcCrc crcDat bytes .func ∧
      ∃ crc, calcCrc crcDat bytes .func = .ok crc ∧ crc.toInt = crcCcitt bytes 0 := by
  refine ⟨by rw [calcCrc_eq, calcCrc_eq], _, calcCrc_eq .func bytes, ?_⟩
  rw [toInt_ofRegister]
  exact congrArg Nat.cast (crcCcitt_toNat bytes 0).symm

end Crc

end P2PWatcher
