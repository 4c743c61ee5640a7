import OpenWrtCompile.Protocol.Checksum

/-!
# The residue of the CRC

`init_crc32_table`, `crc32` and `fillcrc32` of `shadowsocksr-libev/src/server/crc32.c:1–53`, with the
table in memory and the checksum written over the last four bytes of the buffer. The top byte of a
table entry tells its index, so the four bytes that bring the register to zero are its own.
-/

namespace OpenWrtCompile.Protocol
open OpenWrtCompile.Base

/-- `crc32_table` before the program starts. -/
def zeroTable : List UInt32 := List.replicate 256 0

/-- `init_crc32_table`, which does nothing where the first entry is set. -/
def initCrc32Table (table : List UInt32) : List UInt32 :=
  if table[0]?.getD 0 = 0 then (List.range 256).map fun i ↦ crc32Table (UInt8.ofNat i) else table

/-- The loop that the CRC functions share: `crc32_table[(crc ^ buffer[i]) & 0xFF] ^ (crc >> 8)`. -/
def crcLoop (table : List UInt32) (buffer : Bytes) : UInt32 :=
  buffer.foldl (fun crc b ↦ table[((crc ^^^ b.toUInt32) &&& 0xFF).toNat]?.getD 0 ^^^ (crc >>> 8))
    0xFFFFFFFF

/-- `crc32(buffer, size)`. -/
def crc32In (table : List UInt32) (buffer : Bytes) : UInt32 := crcLoop table buffer ^^^ 0xFFFFFFFF

/-- `fillcrc32(buffer, size)`: the register behind all but the last four bytes takes their place. -/
def fillcrc32In (table : List UInt32) (buffer : Bytes) : Bytes :=
  let size := buffer.length - 4
  store buffer size (le32 (crcLoop table (buffer.take size)))

/-- An index that is taken `& 0xFF`. -/
theorem toNat_and_255 (x : UInt32) : (x &&& 0xFF).toNat = x.toUInt8.toNat := by
  rw [UInt32.toNat_and, UInt32.toNat_toUInt8]
  exact Nat.and_two_pow_sub_one_eq_mod x.toNat 8

/-- The entries of the filled table. -/
theorem initCrc32Table_zeroTable (x : UInt32) :
    (initCrc32Table zeroTable)[(x &&& 0xFF).toNat]?.getD 0 = crc32Table x.toUInt8 := by
  have hzero : zeroTable[0]?.getD 0 = 0 := rfl
  have hlt := x.toUInt8.toNat_lt
  rw [initCrc32Table, if_pos hzero, toNat_and_255, List.getElem?_map, List.getElem?_range hlt,
    Option.map_some, Option.getD_some, UInt8.ofNat_toNat]

/-- Filling the table once more leaves it as it is. -/
theorem initCrc32Table_idem :
    initCrc32Table (initCrc32Table zeroTable) = initCrc32Table zeroTable := by
  have hzero : zeroTable[0]?.getD 0 = 0 := rfl
  have hfirst : (initCrc32Table zeroTable)[0]?.getD 0 = 0 := by
    have h := initCrc32Table_zeroTable 0
    rw [UInt32.zero_and] at h
    exact h.trans crc32Table_zero
  unfold initCrc32Table at hfirst ⊢
  rw [if_pos hzero] at hfirst ⊢
  rw [if_pos hfirst]

/-- With the filled table the loop is the one over its entries. -/
theorem crcLoop_eq (buffer : Bytes) :
    crcLoop (initCrc32Table zeroTable) buffer = crcRegister buffer := by
  unfold crcLoop crcRegister
  congr 1
  funext crc b
  rw [initCrc32Table_zeroTable]
  rfl

/-- The checksum behind the buffer, and over its last four bytes. -/
theorem fillcrc32In_eq {buffer : Bytes} (h : 4 ≤ buffer.length) :
    fillcrc32In (initCrc32Table zeroTable) buffer = fillcrc32 (buffer.take (buffer.length - 4)) := by
  have hend : buffer.length ≤ buffer.length - 4 + 4 := by omega
  unfold fillcrc32In fillcrc32 store
  simp only
  rw [crcLoop_eq, length_le32, List.drop_eq_nil_of_le hend, List.append_nil]

/-- Only the first entry of the table has the top byte zero. -/
theorem crc32Table_top (i : UInt8) (h : crc32Table i >>> 24 = 0) : i = 0 := by
  have hall : ∀ k : Fin 256, crc32Table (UInt8.ofNat k) >>> 24 = 0 → UInt8.ofNat k.val = 0 := by
    decide +kernel
  have hi := hall ⟨i.toNat, i.toNat_lt⟩
  rw [UInt8.ofNat_toNat] at hi
  exact hi h

/-- A step to a register without a top byte is the shift by the register's own low byte. -/
theorem crcStep_top {r : UInt32} {b : UInt8} (h : crcStep r b >>> 24 = 0) :
    b = r.toUInt8 ∧ crcStep r b = r >>> 8 := by
  have hshift : (r >>> 8) >>> 24 = 0 := by
    apply UInt32.eq_of_toBitVec_eq
    ext i hi
    simp
  have hentry : crc32Table (r ^^^ b.toUInt32).toUInt8 >>> 24 = 0 := by
    rw [crcStep, UInt32.shiftRight_xor, hshift, UInt32.xor_zero] at h
    exact h
  have hindex := crc32Table_top _ hentry
  rw [UInt32.toUInt8_xor, UInt8.toUInt8_toUInt32, UInt8.xor_eq_zero_iff] at hindex
  refine ⟨hindex.symm, ?_⟩
  rw [← hindex]
  exact crcStep_low r

/-- A register that two more shifts bring to zero has no top byte. -/
theorem top_of_shift {r : UInt32} (h : r >>> 8 = 0 ∨ r >>> 16 = 0) : r >>> 24 = 0 := by
  obtain ⟨h16, h24, -⟩ := shifts r
  have hzero : (0 : UInt32) >>> 8 = 0 := by decide
  obtain h | h := h
  · rw [← h24, ← h16, h, hzero, hzero]
  · rw [← h24, h, hzero]

/-- The bytes that bring a register to zero are its own. -/
theorem foldl_crcStep_eq_zero_iff {r : UInt32} {tail : Bytes} (hlen : tail.length = 4) :
    tail.foldl crcStep r = 0 ↔ tail = le32 r := by
  constructor
  · intro h
    obtain ⟨b0, b1, b2, b3, rfl⟩ : ∃ b0 b1 b2 b3, tail = [b0, b1, b2, b3] := by
      match tail, hlen with
      | [b0, b1, b2, b3], _ => exact ⟨b0, b1, b2, b3, rfl⟩
    simp only [List.foldl_cons, List.foldl_nil] at h
    obtain ⟨h16, h24, -⟩ := shifts r
    -- backwards: behind each step the register has no top byte
    obtain ⟨hb3, hr3⟩ := @crcStep_top (crcStep (crcStep (crcStep r b0) b1) b2) b3
      (by rw [h]; decide)
    rw [h] at hr3
    obtain ⟨hb2, hr2⟩ := crcStep_top (top_of_shift (Or.inl hr3.symm))
    obtain ⟨hb1, hr1⟩ := @crcStep_top (crcStep r b0) b1 (by
      apply top_of_shift
      right
      rw [← (shifts _).1, ← hr2, ← hr3])
    obtain ⟨hb0, hr0⟩ := @crcStep_top r b0 (by
      rw [← (shifts _).2.1, ← (shifts _).1, ← hr1, ← hr2, ← hr3])
    rw [hb3, hr2, hb2, hr1, hb1, hr0, hb0, h16, h24]
    rfl
  · rintro rfl
    exact foldl_crcStep_le32 r

/-- A buffer has the CRC -1 exactly where its last four bytes are what `fillcrc32` writes there. -/
theorem crc32_eq_iff {start tail : Bytes} (hlen : tail.length = 4) :
    crc32 (start ++ tail) = 0xFFFFFFFF ↔ tail = le32 (crcRegister start) := by
  have hinvert : ∀ r : UInt32, r ^^^ 0xFFFFFFFF = 0xFFFFFFFF ↔ r = 0 := fun r ↦ by
    constructor
    · intro h
      have hself : (0xFFFFFFFF : UInt32) ^^^ 0xFFFFFFFF = 0 := UInt32.xor_self
      rw [← @UInt32.xor_zero r, ← hself, ← UInt32.xor_assoc, h]
    · rintro rfl
      decide
  rw [crc32, hinvert, crcRegister, List.foldl_append, foldl_crcStep_eq_zero_iff hlen]
  rfl

/-- With the table filled, a buffer of at least four bytes has the CRC -1 once `fillcrc32` has written
its end, and only then; another end of a filled frame is rejected. -/
theorem crc32In_residue (buffer : Bytes) (h : 4 ≤ buffer.length) :
    let table := initCrc32Table zeroTable
    let filled := fillcrc32In table buffer
    filled.length = buffer.length ∧
      filled.take (buffer.length - 4) = buffer.take (buffer.length - 4) ∧
      crc32In table filled = 0xFFFFFFFF ∧
      (crc32In table buffer = 0xFFFFFFFF ↔
        buffer.drop (buffer.length - 4) = filled.drop (buffer.length - 4)) ∧
      ∀ frame, frame.length = buffer.length →
        frame.take (buffer.length - 4) = filled.take (buffer.length - 4) → frame ≠ filled →
          crc32In table frame ≠ 0xFFFFFFFF := by
  have hcrc : ∀ b, crc32In (initCrc32Table zeroTable) b = crc32 b := fun b ↦ by
    rw [crc32In, crcLoop_eq, crc32]
  have hstart : (buffer.take (buffer.length - 4)).length = buffer.length - 4 := by
    rw [List.length_take]
    omega
  simp only [hcrc, fillcrc32In_eq h]
  generalize hs : buffer.take (buffer.length - 4) = start at hstart
  have htake : (fillcrc32 start).take (buffer.length - 4) = start := by
    rw [fillcrc32, ← hstart, List.take_left]
  have hdrop : (fillcrc32 start).drop (buffer.length - 4) = le32 (crcRegister start) := by
    rw [fillcrc32, ← hstart, List.drop_left]
  refine ⟨?_, htake, crc32_fillcrc32 start, ?_, ?_⟩
  · rw [length_fillcrc32, hstart]
    omega
  · have htail : (buffer.drop (buffer.length - 4)).length = 4 := by
      rw [List.length_drop]
      omega
    rw [hdrop, ← crc32_eq_iff htail, ← hs, List.take_append_drop]
  · intro frame hlen hsame hne hresidue
    have htail : (frame.drop (buffer.length - 4)).length = 4 := by
      rw [List.length_drop]
      omega
    rw [htake] at hsame
    have hframe : frame = start ++ frame.drop (buffer.length - 4) := by
      rw [← hsame, List.take_append_drop]
    rw [hframe, crc32_eq_iff htail] at hresidue
    exact hne (by rw [hframe, hresidue, fillcrc32])

/-- The residue of a buffer of four bytes. -/
theorem crc32In_residue_four :
    4 ≤ [(0x31 : UInt8), 0x32, 0x33, 0x34].length ∧
      crc32In (initCrc32Table zeroTable)
        (fillcrc32In (initCrc32Table zeroTable) [0x31, 0x32, 0x33, 0x34]) = 0xFFFFFFFF :=
  ⟨by decide, (crc32In_residue [0x31, 0x32, 0x33, 0x34] (by decide)).2.2.1⟩

end OpenWrtCompile.Protocol
