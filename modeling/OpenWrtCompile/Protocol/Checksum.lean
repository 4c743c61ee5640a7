import OpenWrtCompile.Base.Bytes

/-!
# Checksums of the protocol plugins

`shadowsocksr-libev/src/server/crc32.c`. Registers are 32 bits wide; a checksum is stored with its
low byte first.
-/

namespace OpenWrtCompile.Protocol
open OpenWrtCompile.Base

/-- One bit of `init_crc32_table`. -/
def crcBit (c : UInt32) : UInt32 := if c &&& 1 = 1 then (0xEDB88320 : UInt32) ^^^ (c >>> 1) else c >>> 1

/-- `crc32_table[i]`. -/
def crc32Table (i : UInt8) : UInt32 := crcBit^[8] i.toUInt32

/-- One byte of the loop that the CRC functions share; the index is taken `& 0xFF`. -/
def crcStep (crc : UInt32) (b : UInt8) : UInt32 :=
  crc32Table (crc ^^^ b.toUInt32).toUInt8 ^^^ (crc >>> 8)

/-- The register behind a buffer. -/
def crcRegister (buffer : Bytes) : UInt32 := buffer.foldl crcStep 0xFFFFFFFF

/-- `crc32`. -/
def crc32 (buffer : Bytes) : UInt32 := crcRegister buffer ^^^ 0xFFFFFFFF

/-- `buffer[0] = c; buffer[1] = c >> 8; buffer[2] = c >> 16; buffer[3] = c >> 24`. -/
def le32 (c : UInt32) : Bytes :=
  [c.toUInt8, (c >>> 8).toUInt8, (c >>> 16).toUInt8, (c >>> 24).toUInt8]

/-- `fillcrc32`: the register, not inverted, goes behind the buffer. -/
def fillcrc32 (buffer : Bytes) : Bytes := buffer ++ le32 (crcRegister buffer)

/-- `adler32_short`; `a` and `b` are 32 bits wide. -/
def adler32Short (buffer : Bytes) (a b : UInt32) : UInt32 × UInt32 :=
  let r := buffer.foldl (fun (s : UInt32 × UInt32) c ↦ (s.1 + c.toUInt32, s.2 + (s.1 + c.toUInt32)))
    (a, b)
  (r.1 % 65521, r.2 % 65521)

/-- `NMAX`. -/
def nmax : Nat := 5552

/-- The loop of `adler32` over `NMAX` bytes at a time; each pass drops some, so `fuel` above the
length is enough. -/
def adlerLoop : Nat → Bytes → UInt32 → UInt32 → UInt32 × UInt32
  | 0, buffer, a, b => adler32Short buffer a b
  | fuel + 1, buffer, a, b =>
    if nmax ≤ buffer.length then
      let r := adler32Short (buffer.take nmax) a b
      adlerLoop fuel (buffer.drop nmax) r.1 r.2
    else adler32Short buffer a b

/-- `adler32`. -/
def adler32 (buffer : Bytes) : UInt32 :=
  let r := adlerLoop buffer.length buffer 1 0
  (r.2 <<< 16) + r.1

/-- `filladler32`. -/
def filladler32 (buffer : Bytes) : Bytes := buffer ++ le32 (adler32 buffer)

/-- The four bytes of a checksum as `checkadler32` joins them. -/
def joinLe (b0 b1 b2 b3 : UInt8) : UInt32 :=
  b3.toUInt32 <<< 24 ||| b2.toUInt32 <<< 16 ||| b1.toUInt32 <<< 8 ||| b0.toUInt32

/-- The number at the start of `b`. -/
def leWord (b : Bytes) : UInt32 :=
  joinLe (b[0]?.getD 0) (b[1]?.getD 0) (b[2]?.getD 0) (b[3]?.getD 0)

/-- `checkadler32`. -/
def checkadler32 (buffer : Bytes) : Bool :=
  adler32 (buffer.take (buffer.length - 4)) = leWord (buffer.drop (buffer.length - 4))

@[simp] theorem length_le32 (c : UInt32) : (le32 c).length = 4 := rfl

@[simp] theorem length_fillcrc32 (buffer : Bytes) :
    (fillcrc32 buffer).length = buffer.length + 4 := by
  rw [fillcrc32, List.length_append, length_le32]

@[simp] theorem length_filladler32 (buffer : Bytes) :
    (filladler32 buffer).length = buffer.length + 4 := by
  rw [filladler32, List.length_append, length_le32]

/-- The first entry of the table. -/
theorem crc32Table_zero : crc32Table 0 = 0 := by decide

/-- The low byte of the register shifts it. -/
theorem crcStep_low (r : UInt32) : crcStep r r.toUInt8 = r >>> 8 := by
  have hlow : (r ^^^ r.toUInt8.toUInt32).toUInt8 = 0 := by
    rw [UInt32.toUInt8_xor, UInt8.toUInt8_toUInt32, UInt8.xor_self]
  rw [crcStep, hlow, crc32Table_zero, UInt32.zero_xor]

/-- A register is shifted out in four steps. -/
theorem shifts (r : UInt32) :
    r >>> 8 >>> 8 = r >>> 16 ∧ r >>> 16 >>> 8 = r >>> 24 ∧ r >>> 24 >>> 8 = 0 := by
  refine ⟨?_, ?_, ?_⟩ <;>
  · apply UInt32.eq_of_toBitVec_eq
    ext i hi
    simp

/-- The register's own bytes shift it out. -/
theorem foldl_crcStep_le32 (r : UInt32) : (le32 r).foldl crcStep r = 0 := by
  obtain ⟨h16, h24, h32⟩ := shifts r
  simp only [le32, List.foldl_cons, List.foldl_nil, crcStep_low, h16, h24, h32]

/-- The residue: a filled buffer has the CRC -1. -/
theorem crc32_fillcrc32 (buffer : Bytes) : crc32 (fillcrc32 buffer) = 0xFFFFFFFF := by
  rw [crc32, fillcrc32, crcRegister, List.foldl_append, ← crcRegister, foldl_crcStep_le32,
    UInt32.zero_xor]

/-- A bit of a byte taken out of a word and moved back to its place. -/
theorem getLsbD_byte (c : BitVec 32) (n i : Nat) (hi : i < 32) :
    (((c >>> n).setWidth 8).setWidth 32 <<< n).getLsbD i =
      (decide (n ≤ i ∧ i < n + 8) && c.getLsbD i) := by
  simp only [BitVec.getLsbD_shiftLeft, BitVec.getLsbD_setWidth, BitVec.getLsbD_ushiftRight]
  by_cases hn : n ≤ i
  · have hadd : n + (i - n) = i := by omega
    by_cases h8 : i < n + 8
    · simp [hi, hadd, hn, h8, show ¬ i < n by omega, show i - n < 32 by omega,
        show i - n < 8 by omega]
    · simp [h8, show ¬ i - n < 8 by omega]
  · simp [hn, show i < n by omega]

/-- A stored checksum is read back. -/
theorem leWord_le32 (c : UInt32) : leWord (le32 c) = c := by
  show joinLe c.toUInt8 (c >>> 8).toUInt8 (c >>> 16).toUInt8 (c >>> 24).toUInt8 = c
  apply UInt32.eq_of_toBitVec_eq
  simp only [joinLe, UInt32.toBitVec_or, UInt32.toBitVec_shiftLeft, UInt8.toBitVec_toUInt32,
    UInt32.toBitVec_toUInt8, UInt32.toBitVec_shiftRight]
  apply BitVec.eq_of_getLsbD_eq
  intro i hi
  have h0 := getLsbD_byte c.toBitVec 0 i hi
  rw [BitVec.ushiftRight_zero, BitVec.shiftLeft_zero] at h0
  have h8 := getLsbD_byte c.toBitVec 8 i hi
  have h16 := getLsbD_byte c.toBitVec 16 i hi
  have h24 := getLsbD_byte c.toBitVec 24 i hi
  simp only [BitVec.getLsbD_or, h0]
  change (((((c.toBitVec >>> 24).setWidth 8).setWidth 32 <<< 24).getLsbD i ||
    (((c.toBitVec >>> 16).setWidth 8).setWidth 32 <<< 16).getLsbD i) ||
    (((c.toBitVec >>> 8).setWidth 8).setWidth 32 <<< 8).getLsbD i ||
    (decide (0 ≤ i ∧ i < 0 + 8) && c.toBitVec.getLsbD i)) = c.toBitVec.getLsbD i
  rw [h8, h16, h24]
  cases c.toBitVec.getLsbD i with
  | false => simp
  | true =>
    simp only [Bool.and_true, ← Bool.decide_or, decide_eq_true_eq]
    omega

/-- A filled buffer passes the check. -/
theorem checkadler32_filladler32 (buffer : Bytes) : checkadler32 (filladler32 buffer) = true := by
  have hlen : (filladler32 buffer).length - 4 = buffer.length := by
    rw [length_filladler32]
    omega
  rw [checkadler32, hlen, filladler32, List.take_left, List.drop_left, leWord_le32]
  exact decide_eq_true rfl

end OpenWrtCompile.Protocol
