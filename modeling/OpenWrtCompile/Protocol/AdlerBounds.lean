import OpenWrtCompile.Protocol.Checksum
import Mathlib.Data.Nat.ModEq
import Mathlib.Tactic.Ring
import Mathlib.Tactic.Linarith

/-!
# Adler-32 without overflow

`adler32_short`, `adler32`, `filladler32` and `checkadler32` of `crc32.c:55–96`. The sums are taken
modulo 65521 only behind each block of 5552 bytes; as numbers they stay below 2^32 for such a block, so
the registers hold them, and the checksum is the one of the definition.
-/

namespace OpenWrtCompile.Protocol
open OpenWrtCompile.Base

/-- The prime modulus. -/
def adlerBase : Nat := 65521

/-- The first sum of the definition: one and all bytes. -/
def adlerA (buffer : Bytes) : Nat := 1 + (buffer.map UInt8.toNat).sum

/-- The second sum: the first one behind each byte. -/
def adlerB (buffer : Bytes) : Nat :=
  ((List.range buffer.length).map fun i ↦ adlerA (buffer.take (i + 1))).sum

/-- Adler-32 as a number. -/
def adlerValue (buffer : Bytes) : Nat :=
  adlerB buffer % adlerBase * 65536 + adlerA buffer % adlerBase

/-- A sum that 32 bits hold. -/
def addChecked (x y : UInt32) : Option UInt32 :=
  if x.toNat + y.toNat < 2 ^ 32 then some (x + y) else none

/-- One byte of `adler32_short`; `none` where a sum does not fit. -/
def adlerStepChecked (s : UInt32 × UInt32) (c : UInt8) : Option (UInt32 × UInt32) := do
  let a ← addChecked s.1 c.toUInt32
  let b ← addChecked s.2 a
  some (a, b)

/-- `adler32_short`; `none` where a sum does not fit. -/
def adler32ShortChecked (buffer : Bytes) (a b : UInt32) : Option (UInt32 × UInt32) :=
  (buffer.foldlM adlerStepChecked (a, b)).map fun r ↦ (r.1 % 65521, r.2 % 65521)

/-- The loop of `adler32`; `none` where a sum does not fit. -/
def adlerLoopChecked : Nat → Bytes → UInt32 → UInt32 → Option (UInt32 × UInt32)
  | 0, buffer, a, b => adler32ShortChecked buffer a b
  | fuel + 1, buffer, a, b =>
    if nmax ≤ buffer.length then do
      let r ← adler32ShortChecked (buffer.take nmax) a b
      adlerLoopChecked fuel (buffer.drop nmax) r.1 r.2
    else adler32ShortChecked buffer a b

/-- `adler32`; `none` where a sum does not fit. -/
def adler32Checked (buffer : Bytes) : Option UInt32 := do
  let r ← adlerLoopChecked buffer.length buffer 1 0
  addChecked (r.2 <<< 16) r.1

/-- `filladler32(buffer, size)`: the checksum of all but the last four bytes takes their place. -/
def filladler32In (buffer : Bytes) : Bytes :=
  let size := buffer.length - 4
  store buffer size (le32 (adler32 (buffer.take size)))

/-- The sums of `adler32_short` as numbers. -/
def adlerSums (a b : Nat) (buffer : Bytes) : Nat × Nat :=
  buffer.foldl (fun s c ↦ (s.1 + c.toNat, s.2 + (s.1 + c.toNat))) (a, b)

/-- The sums behind a byte. -/
theorem adlerSums_cons (a b : Nat) (c : UInt8) (buffer : Bytes) :
    adlerSums a b (c :: buffer) = adlerSums (a + c.toNat) (b + (a + c.toNat)) buffer := rfl

/-- The sums over two parts. -/
theorem adlerSums_append (a b : Nat) (x y : Bytes) :
    adlerSums a b (x ++ y) = adlerSums (adlerSums a b x).1 (adlerSums a b x).2 y :=
  List.foldl_append

/-- The sums grow. -/
theorem le_adlerSums (a b : Nat) (buffer : Bytes) :
    a ≤ (adlerSums a b buffer).1 ∧ b ≤ (adlerSums a b buffer).2 := by
  induction buffer generalizing a b with
  | nil => exact ⟨Nat.le_refl a, Nat.le_refl b⟩
  | cons c buffer ih =>
    obtain ⟨h1, h2⟩ := ih (a + c.toNat) (b + (a + c.toNat))
    rw [adlerSums_cons]
    omega

/-- How far the sums grow over `n` bytes. -/
theorem adlerSums_le (a b : Nat) (buffer : Bytes) :
    (adlerSums a b buffer).1 ≤ a + 255 * buffer.length ∧
      2 * (adlerSums a b buffer).2 ≤
        2 * b + 2 * buffer.length * a + 255 * (buffer.length * (buffer.length + 1)) := by
  induction buffer generalizing a b with
  | nil => simp [adlerSums]
  | cons c buffer ih =>
    have hc : c.toNat ≤ 255 := Nat.le_of_lt_succ c.toNat_lt
    obtain ⟨h1, h2⟩ := ih (a + c.toNat) (b + (a + c.toNat))
    have hmul : buffer.length * c.toNat ≤ buffer.length * 255 := Nat.mul_le_mul_left _ hc
    rw [adlerSums_cons, List.length_cons]
    constructor
    · omega
    · nlinarith

/-- The sums over a block of at most `NMAX` bytes fit, from registers below the modulus on. -/
theorem adlerSums_lt {a b : Nat} {block : Bytes} (ha : a < adlerBase) (hb : b < adlerBase)
    (hlen : block.length ≤ nmax) :
    (adlerSums a b block).1 < 2 ^ 32 ∧ (adlerSums a b block).2 < 2 ^ 32 := by
  obtain ⟨h1, h2⟩ := adlerSums_le a b block
  unfold adlerBase at ha hb
  unfold nmax at hlen
  have hlinear : block.length * a ≤ 5552 * 65520 := Nat.mul_le_mul hlen (by omega)
  have hsquare : block.length * (block.length + 1) ≤ 5552 * 5553 :=
    Nat.mul_le_mul hlen (by omega)
  constructor
  · omega
  · rw [Nat.mul_assoc] at h2
    omega

/-- The registers hold the sums while these fit. -/
theorem foldlM_adlerStepChecked {a b : UInt32} {block : Bytes}
    (h : (adlerSums a.toNat b.toNat block).1 < 2 ^ 32 ∧ (adlerSums a.toNat b.toNat block).2 < 2 ^ 32) :
    ∃ r, block.foldlM adlerStepChecked (a, b) = some r ∧
      r = block.foldl (fun (s : UInt32 × UInt32) c ↦
        (s.1 + c.toUInt32, s.2 + (s.1 + c.toUInt32))) (a, b) ∧
      (r.1.toNat, r.2.toNat) = adlerSums a.toNat b.toNat block := by
  induction block generalizing a b with
  | nil => exact ⟨(a, b), rfl, rfl, rfl⟩
  | cons c block ih =>
    rw [adlerSums_cons] at h
    obtain ⟨hle1, hle2⟩ := le_adlerSums (a.toNat + c.toNat) (b.toNat + (a.toNat + c.toNat)) block
    have hfirst : (a + c.toUInt32).toNat = a.toNat + c.toNat := by
      rw [UInt32.toNat_add, UInt8.toNat_toUInt32, Nat.mod_eq_of_lt (by omega)]
    have hsecond : (b + (a + c.toUInt32)).toNat = b.toNat + (a.toNat + c.toNat) := by
      rw [UInt32.toNat_add, hfirst, Nat.mod_eq_of_lt (by omega)]
    have hstep : adlerStepChecked (a, b) c =
        some (a + c.toUInt32, b + (a + c.toUInt32)) := by
      have hadd1 : addChecked a c.toUInt32 = some (a + c.toUInt32) :=
        if_pos (by rw [UInt8.toNat_toUInt32]; omega)
      have hadd2 : addChecked b (a + c.toUInt32) = some (b + (a + c.toUInt32)) :=
        if_pos (by rw [hfirst]; omega)
      unfold adlerStepChecked
      rw [hadd1]
      simp only [Option.bind_eq_bind, Option.bind_some, hadd2]
    rw [← hsecond, ← hfirst] at h
    obtain ⟨r, hr, hfold, hsums⟩ := ih h
    refine ⟨r, ?_, hfold, ?_⟩
    · rw [List.foldlM_cons, hstep]
      exact hr
    · rw [adlerSums_cons, ← hsecond, ← hfirst, hsums]

/-- `adler32_short` on a block never exceeds 32 bits. -/
theorem adler32ShortChecked_eq {a b : UInt32} {block : Bytes} (ha : a.toNat < adlerBase)
    (hb : b.toNat < adlerBase) (hlen : block.length ≤ nmax) :
    adler32ShortChecked block a b = some (adler32Short block a b) ∧
      (adler32Short block a b).1.toNat = (adlerSums a.toNat b.toNat block).1 % adlerBase ∧
      (adler32Short block a b).2.toNat = (adlerSums a.toNat b.toNat block).2 % adlerBase := by
  obtain ⟨r, hr, hfold, hsums⟩ := foldlM_adlerStepChecked (adlerSums_lt ha hb hlen)
  have hshort : adler32Short block a b = (r.1 % 65521, r.2 % 65521) := by
    rw [hfold]
    rfl
  rw [hshort, ← hsums]
  refine ⟨?_, ?_, ?_⟩
  · rw [adler32ShortChecked, hr]
    rfl
  · exact UInt32.toNat_mod _ _
  · exact UInt32.toNat_mod _ _

/-- The sums of registers that agree modulo the base. -/
theorem adlerSums_modEq {a a' b b' : Nat} (buffer : Bytes) (ha : a ≡ a' [MOD adlerBase])
    (hb : b ≡ b' [MOD adlerBase]) :
    (adlerSums a b buffer).1 ≡ (adlerSums a' b' buffer).1 [MOD adlerBase] ∧
      (adlerSums a b buffer).2 ≡ (adlerSums a' b' buffer).2 [MOD adlerBase] := by
  induction buffer generalizing a a' b b' with
  | nil => exact ⟨ha, hb⟩
  | cons c buffer ih =>
    have hsum := ha.add_right c.toNat
    exact ih hsum (hb.add hsum)

/-- The loop of `adler32` keeps the sums modulo the base and never exceeds 32 bits. -/
theorem adlerLoopChecked_eq {fuel : Nat} {buffer : Bytes} {a b : UInt32}
    (ha : a.toNat < adlerBase) (hb : b.toNat < adlerBase) (hfuel : buffer.length ≤ fuel) :
    adlerLoopChecked fuel buffer a b = some (adlerLoop fuel buffer a b) ∧
      (adlerLoop fuel buffer a b).1.toNat = (adlerSums a.toNat b.toNat buffer).1 % adlerBase ∧
      (adlerLoop fuel buffer a b).2.toNat = (adlerSums a.toNat b.toNat buffer).2 % adlerBase := by
  induction fuel generalizing buffer a b with
  | zero => exact adler32ShortChecked_eq ha hb (hfuel.trans (Nat.zero_le nmax))
  | succ fuel ih =>
    unfold adlerLoopChecked adlerLoop
    by_cases hlen : nmax ≤ buffer.length
    swap
    · rw [if_neg hlen, if_neg hlen]
      exact adler32ShortChecked_eq ha hb (by omega)
    rw [if_pos hlen, if_pos hlen]
    obtain ⟨hblock, hfirst, hsecond⟩ :=
      adler32ShortChecked_eq ha hb (List.length_take_le nmax buffer)
    have hbase : 0 < adlerBase := by decide
    have hfuel' : (buffer.drop nmax).length ≤ fuel := by
      have hpos : 0 < nmax := by decide
      rw [List.length_drop]
      omega
    obtain ⟨hrest, hrest1, hrest2⟩ := ih (hfirst ▸ Nat.mod_lt _ hbase)
      (hsecond ▸ Nat.mod_lt _ hbase) hfuel'
    obtain ⟨hmod1, hmod2⟩ := adlerSums_modEq (buffer.drop nmax)
      (Nat.mod_modEq (adlerSums a.toNat b.toNat (buffer.take nmax)).1 adlerBase)
      (Nat.mod_modEq (adlerSums a.toNat b.toNat (buffer.take nmax)).2 adlerBase)
    have hcut : adlerSums a.toNat b.toNat buffer =
        adlerSums (adlerSums a.toNat b.toNat (buffer.take nmax)).1
          (adlerSums a.toNat b.toNat (buffer.take nmax)).2 (buffer.drop nmax) := by
      rw [← adlerSums_append, List.take_append_drop]
    rw [hfirst, hsecond] at hrest1 hrest2
    refine ⟨?_, ?_, ?_⟩
    · rw [hblock]
      exact hrest
    · rw [hrest1, hcut]
      exact hmod1
    · rw [hrest2, hcut]
      exact hmod2

/-- The loop's sums are those of the definition. -/
theorem adlerSums_eq (a b : Nat) (buffer : Bytes) :
    adlerSums a b buffer = (a + (buffer.map UInt8.toNat).sum,
      b + ((List.range buffer.length).map fun i ↦
        a + ((buffer.take (i + 1)).map UInt8.toNat).sum).sum) := by
  induction buffer generalizing a b with
  | nil => rfl
  | cons c buffer ih =>
    rw [adlerSums_cons, ih, List.length_cons, List.range_succ_eq_map]
    simp only [List.map_cons, List.sum_cons, List.map_map, Function.comp_def, List.take_succ_cons,
      Nat.succ_eq_add_one, List.take_zero, List.map_nil, List.sum_nil, Nat.add_zero, Nat.add_assoc]

/-- `adler32` is the checksum of the definition, and no sum exceeds 32 bits on the way. -/
theorem adler32Checked_eq (buffer : Bytes) :
    adler32Checked buffer = some (adler32 buffer) ∧ (adler32 buffer).toNat = adlerValue buffer := by
  have hone : (1 : UInt32).toNat < adlerBase := by decide
  have hzero : (0 : UInt32).toNat < adlerBase := by decide
  obtain ⟨hloop, hfirst, hsecond⟩ := adlerLoopChecked_eq hone hzero (Nat.le_refl buffer.length)
  have hsums : adlerSums (1 : UInt32).toNat (0 : UInt32).toNat buffer =
      (adlerA buffer, adlerB buffer) := by
    rw [adlerSums_eq]
    refine Prod.ext rfl ?_
    exact Nat.zero_add _
  rw [hsums] at hfirst hsecond
  have hmodA : adlerA buffer % adlerBase < adlerBase := Nat.mod_lt _ (by decide)
  have hmodB : adlerB buffer % adlerBase < adlerBase := Nat.mod_lt _ (by decide)
  unfold adlerValue adler32Checked adler32
  rw [hloop]
  simp only [Option.bind_eq_bind, Option.bind_some]
  generalize adlerLoop buffer.length buffer 1 0 = r at hfirst hsecond
  unfold adlerBase at hfirst hsecond hmodA hmodB ⊢
  have hshift : (r.2 <<< 16).toNat = r.2.toNat * 65536 := by
    rw [UInt32.toNat_shiftLeft]
    show r.2.toNat <<< 16 % 2 ^ 32 = _
    rw [Nat.shiftLeft_eq, Nat.mod_eq_of_lt (by omega)]
  constructor
  · exact if_pos (by omega)
  · rw [UInt32.toNat_add, hshift, Nat.mod_eq_of_lt (by omega), hfirst, hsecond]

/-- What `filladler32` completes. -/
theorem filladler32In_eq {buffer : Bytes} (h : 4 ≤ buffer.length) :
    filladler32In buffer = filladler32 (buffer.take (buffer.length - 4)) := by
  have hend : buffer.length ≤ buffer.length - 4 + 4 := by omega
  unfold filladler32In filladler32 store
  simp only
  rw [length_le32, List.drop_eq_nil_of_le hend, List.append_nil]

/-- Every block of at most 5552 bytes is summed up without overflow from reduced registers on; `adler32`
returns the checksum of the definition without overflow; and what `filladler32` completes is accepted. -/
theorem adler32_correct (buffer : Bytes) :
    (∀ (block : Bytes) (a b : UInt32), block.length ≤ nmax → a.toNat < adlerBase →
        b.toNat < adlerBase → adler32ShortChecked block a b = some (adler32Short block a b)) ∧
      adler32Checked buffer = some (adler32 buffer) ∧
      (adler32 buffer).toNat = adlerValue buffer ∧
      (4 ≤ buffer.length → checkadler32 (filladler32In buffer) = true) := by
  obtain ⟨hchecked, hvalue⟩ := adler32Checked_eq buffer
  refine ⟨fun block a b hlen ha hb ↦ (adler32ShortChecked_eq ha hb hlen).1, hchecked, hvalue, ?_⟩
  intro h
  rw [filladler32In_eq h]
  exact checkadler32_filladler32 _

end OpenWrtCompile.Protocol
