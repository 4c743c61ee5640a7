import Mathlib.Algebra.Group.Int.Defs
import Mathlib.Algebra.Group.Nat.Defs
import Mathlib.Data.List.Infix
import Mathlib.Tactic.Common

/-!
# Byte strings and memory blocks

The C sources work on `char *` blocks addressed by an offset and a length. A block is the list of
its bytes; `store` is `memcpy`/`memmove` into it and `window` the bytes a caller reads back.
-/

namespace OpenWrtCompile.Base

/-- The bytes of a buffer, a segment or a string. -/
abbrev Bytes := List UInt8

instance lawfulBEqBytes : LawfulBEq Bytes := inferInstance

/-- The bytes of an ASCII literal of the source. -/
def ascii (s : String) : Bytes := s.toList.map fun c ↦ UInt8.ofNat c.toNat

/-- `memcpy(mem + off, src, len)`, with `src` the `len` bytes copied. -/
def store (mem : Bytes) (off : Nat) (src : Bytes) : Bytes :=
  mem.take off ++ src ++ mem.drop (off + src.length)

/-- The `len` bytes from offset `off` on. -/
def window (mem : Bytes) (off len : Nat) : Bytes := (mem.drop off).take len

/-- The C string that starts at `i`. -/
def cString (mem : Bytes) (i : Nat) : Bytes := (mem.drop i).takeWhile (· ≠ 0)

/-- `out[0] = n >> 8; out[1] = n`. -/
def bytes16 (n : Nat) : Bytes := [UInt8.ofNat (n / 256), UInt8.ofNat n]

/-- `((int)b[0] << 8) | b[1]`. -/
def word16 (high low : UInt8) : Nat := high.toNat * 256 + low.toNat

/-- A number of 16 bits is read back. -/
theorem word16_bytes16 {n : Nat} (h : n < 65536) :
    word16 (UInt8.ofNat (n / 256)) (UInt8.ofNat n) = n := by
  simp only [word16, UInt8.toNat_ofNat']
  omega

/-- A literal is the list of its characters: the rewrite spares the kernel the decoding of UTF-8. -/
theorem ascii_ofList (l : List Char) :
    ascii (String.ofList l) = l.map fun c ↦ UInt8.ofNat c.toNat := by
  rw [ascii, String.toList_ofList]

/-- What a test of each byte of a list says. -/
theorem forall_mem_of_all {P : UInt8 → Prop} [DecidablePred P] {l : Bytes}
    (h : (l.all fun c ↦ decide (P c)) = true) : ∀ c ∈ l, P c :=
  fun c hc ↦ of_decide_eq_true (List.all_eq_true.mp h c hc)

/-- The middle of three parts. -/
theorem window_middle {a b c : Bytes} {off len : Nat} (ha : a.length = off) (hb : b.length = len) :
    window (a ++ (b ++ c)) off len = b := by
  rw [window, ← ha, List.drop_left, ← hb, List.take_left]

/-- A copy keeps the bytes before it and is read back whole. -/
theorem take_store (mem : Bytes) (off : Nat) (src : Bytes) (h : off ≤ mem.length) :
    (store mem off src).take (off + src.length) = mem.take off ++ src := by
  have hl : (mem.take off ++ src).length = off + src.length := by
    rw [List.length_append, List.length_take, Nat.min_eq_left h]
  rw [store, ← hl, List.take_left]

/-- A copy to the start of a block is read back whole. -/
@[simp] theorem take_store_zero (mem src : Bytes) : (store mem 0 src).take src.length = src := by
  have h := take_store mem 0 src (Nat.zero_le _)
  simpa only [Nat.zero_add, List.take_zero, List.nil_append] using h

/-- A copy never shortens the block. -/
theorem le_length_store (mem : Bytes) (off : Nat) (src : Bytes) (h : off ≤ mem.length) :
    off + src.length ≤ (store mem off src).length := by
  simp only [store, List.length_append, List.length_take, List.length_drop]
  omega

/-- A copy that fits keeps the size of the block. -/
theorem length_store {mem : Bytes} {off : Nat} {src : Bytes} (h : off + src.length ≤ mem.length) :
    (store mem off src).length = mem.length := by
  simp only [store, List.length_append, List.length_take, List.length_drop]
  omega

/-- A copy keeps what stands before it. -/
theorem take_store_of_le {mem : Bytes} {off n : Nat} (src : Bytes) (hn : n ≤ off)
    (h : off ≤ mem.length) : (store mem off src).take n = mem.take n := by
  have hlen : (mem.take off).length = off := by rw [List.length_take, Nat.min_eq_left h]
  rw [store, List.append_assoc, List.take_append_of_le_length (by omega), List.take_take,
    Nat.min_eq_left hn]

/-- A copy keeps what stands behind it. -/
theorem drop_store {mem : Bytes} {off : Nat} {src : Bytes} (h : off ≤ mem.length) :
    (store mem off src).drop (off + src.length) = mem.drop (off + src.length) := by
  have hlen : (mem.take off ++ src).length = off + src.length := by
    rw [List.length_append, List.length_take, Nat.min_eq_left h]
  rw [store, ← hlen, List.drop_left]

/-- A copy and what stands behind it. -/
theorem drop_store_start {mem : Bytes} {off : Nat} (src : Bytes) (h : off ≤ mem.length) :
    (store mem off src).drop off = src ++ mem.drop (off + src.length) := by
  have hlen : (mem.take off).length = off := by rw [List.length_take, Nat.min_eq_left h]
  rw [store, List.append_assoc]
  exact List.drop_left' hlen

/-- A copy is read back. -/
theorem window_store {mem : Bytes} {off : Nat} {src : Bytes} (h : off ≤ mem.length) :
    window (store mem off src) off src.length = src := by
  rw [store, List.append_assoc]
  apply window_middle _ rfl
  rw [List.length_take, Nat.min_eq_left h]

/-- A byte of a prefix. -/
theorem getD_eq_of_start {q b : Bytes} (h : q <+: b) {i : Nat} (hi : i < q.length) :
    q[i]?.getD 0 = b[i]?.getD 0 := by
  obtain ⟨rest, rfl⟩ := h
  rw [List.getElem?_append_left hi]

/-- Of a block, bytes behind those that are read make no difference. -/
theorem window_append (a b : Bytes) {off len : Nat} (h : off + len ≤ a.length) :
    window (a ++ b) off len = window a off len := by
  unfold window
  rw [List.drop_append_of_le_length (by omega), List.take_append_of_le_length]
  rw [List.length_drop]
  omega

/-- A window inside a block has the length asked for. -/
theorem length_window {mem : Bytes} {off len : Nat} (h : off + len ≤ mem.length) :
    (window mem off len).length = len := by
  rw [window, List.length_take, List.length_drop]
  omega

/-- A window is no longer than asked for. -/
theorem length_window_le (mem : Bytes) (off len : Nat) : (window mem off len).length ≤ len := by
  simp only [window, List.length_take]
  omega

end OpenWrtCompile.Base
