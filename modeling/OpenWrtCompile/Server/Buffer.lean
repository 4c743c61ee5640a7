import OpenWrtCompile.Base.Bytes

/-!
# Growable buffers

`shadowsocksr-libev/src/server/encrypt.h` `buffer_t` and the allocation functions of
`encrypt.c:245–290`. `array` is the whole allocated block, so its length is the capacity; `len`
bytes are in use, from the start of the block or from `idx` on, as each caller has it.
-/

namespace OpenWrtCompile.Server
open OpenWrtCompile.Base

/-- `BUF_SIZE`. -/
def bufSize : Nat := 2048

/-- `buffer_t`, with the capacity given by the block itself. -/
structure Buffer where
  array : Bytes
  idx : Nat
  len : Nat
  deriving DecidableEq, Repr

namespace Buffer

/-- `balloc`: `mem` is the block `malloc` returned, contents indeterminate. -/
def balloc (mem : Bytes) : Buffer := ⟨mem, 0, 0⟩

/-- `brealloc`: grow the block to the larger of `len` and `capacity`; never shrink it. -/
def brealloc (b : Buffer) (len capacity : Nat) : Buffer :=
  { b with array := b.array ++ List.replicate (max len capacity - b.array.length) 0 }

/-- `bfree`. -/
def bfree (_ : Buffer) : Buffer := ⟨[], 0, 0⟩

/-- A buffer that holds exactly `bs`, as after a read into an empty one. -/
def ofBytes (bs : Bytes) : Buffer := ⟨bs, 0, bs.length⟩

/-- `buf->array[i]`. -/
def byte (b : Buffer) (i : Nat) : UInt8 := b.array[i]?.getD 0

/-- The first `len` bytes of the block. -/
def data (b : Buffer) : Bytes := b.array.take b.len

/-- The `len` bytes from `idx` on. -/
def pending (b : Buffer) : Bytes := window b.array b.idx b.len

/-- `memcpy(buf->array + off, src, …)`. -/
def write (b : Buffer) (off : Nat) (src : Bytes) : Buffer :=
  { b with array := store b.array off src }

/-- `memcpy` with a check of the block's size: `none` where it goes beyond the block. -/
def put (b : Buffer) (off : Nat) (src : Bytes) : Option Buffer :=
  if off + src.length ≤ b.array.length then some (b.write off src) else none

/-- `buf->len = n`. -/
def setLen (b : Buffer) (n : Nat) : Buffer := { b with len := n }

/-- `buf->idx = 0; buf->len = 0`. -/
def reset (b : Buffer) : Buffer := { b with idx := 0, len := 0 }

/-- Replace the contents: copy to the start and set the length. -/
def assign (b : Buffer) (src : Bytes) : Buffer := (b.write 0 src).setLen src.length

/-- Copy behind the bytes in use and add to the length. -/
def append (b : Buffer) (src : Bytes) : Buffer := (b.write b.len src).setLen (b.len + src.length)

/-- A copy that fits. -/
theorem put_of_le {b : Buffer} {off : Nat} {src : Bytes} (h : off + src.length ≤ b.array.length) :
    b.put off src = some (b.write off src) := if_pos h

/-- A copy that fits keeps the size of the block. -/
theorem length_write {b : Buffer} {off : Nat} {src : Bytes} (h : off + src.length ≤ b.array.length) :
    (b.write off src).array.length = b.array.length := length_store h

@[simp] theorem data_balloc (mem : Bytes) : (balloc mem).data = [] := rfl

@[simp] theorem len_balloc (mem : Bytes) : (balloc mem).len = 0 := rfl

@[simp] theorem idx_balloc (mem : Bytes) : (balloc mem).idx = 0 := rfl

@[simp] theorem data_ofBytes (bs : Bytes) : (ofBytes bs).data = bs := List.take_length

@[simp] theorem len_brealloc (b : Buffer) (n c : Nat) : (b.brealloc n c).len = b.len := rfl

@[simp] theorem idx_brealloc (b : Buffer) (n c : Nat) : (b.brealloc n c).idx = b.idx := rfl

@[simp] theorem len_setLen (b : Buffer) (n : Nat) : (b.setLen n).len = n := rfl

@[simp] theorem len_assign (b : Buffer) (src : Bytes) : (b.assign src).len = src.length := rfl

@[simp] theorem idx_assign (b : Buffer) (src : Bytes) : (b.assign src).idx = b.idx := rfl

@[simp] theorem len_append (b : Buffer) (src : Bytes) :
    (b.append src).len = b.len + src.length := rfl

@[simp] theorem idx_append (b : Buffer) (src : Bytes) : (b.append src).idx = b.idx := rfl

@[simp] theorem len_reset (b : Buffer) : b.reset.len = 0 := rfl

@[simp] theorem idx_reset (b : Buffer) : b.reset.idx = 0 := rfl

@[simp] theorem data_assign (b : Buffer) (src : Bytes) : (b.assign src).data = src :=
  take_store_zero _ _

/-- Appending adds to the bytes in use. -/
theorem data_append (b : Buffer) (src : Bytes) (h : b.len ≤ b.array.length) :
    (b.append src).data = b.data ++ src := take_store b.array b.len src h

/-- An appended buffer lies inside its block. -/
theorem len_append_le (b : Buffer) (src : Bytes) (h : b.len ≤ b.array.length) :
    (b.append src).len ≤ (b.append src).array.length := le_length_store b.array b.len src h

/-- A block that was grown has at least the size asked for. -/
theorem le_length_brealloc (b : Buffer) (n c : Nat) :
    b.array.length ≤ (b.brealloc n c).array.length ∧ max n c ≤ (b.brealloc n c).array.length := by
  simp only [brealloc, List.length_append, List.length_replicate]
  omega

/-- Growing a block leaves room for what was in it. -/
theorem len_brealloc_le (b : Buffer) (n c : Nat) (h : b.len ≤ b.array.length) :
    (b.brealloc n c).len ≤ (b.brealloc n c).array.length := by
  simp only [brealloc, List.length_append]
  omega

/-- Growing a block keeps the bytes in use. -/
theorem data_brealloc (b : Buffer) (n c : Nat) (h : b.len ≤ b.array.length) :
    (b.brealloc n c).data = b.data := by
  simp only [data, brealloc, List.take_append_of_le_length h]

/-- The length of the used part, when it lies inside the block. -/
theorem length_data (b : Buffer) (h : b.len ≤ b.array.length) : b.data.length = b.len := by
  rw [data, List.length_take, Nat.min_eq_left h]

/-- A byte of the used part is read from the block. -/
theorem byte_eq_data (b : Buffer) (i : Nat) (hi : i < b.len) :
    b.byte i = b.data[i]?.getD 0 := by
  rw [byte, data, List.getElem?_take_of_lt hi]

/-- An assigned buffer lies inside its block. -/
theorem len_assign_le (b : Buffer) (src : Bytes) :
    (b.assign src).len ≤ (b.assign src).array.length := by
  have h := le_length_store b.array 0 src (Nat.zero_le _)
  rw [Nat.zero_add] at h
  exact h

/-- With offset zero the two readings of a buffer agree. -/
theorem pending_eq_data (b : Buffer) (h : b.idx = 0) : b.pending = b.data := by
  rw [pending, data, window, h, List.drop_zero]

end Buffer
end OpenWrtCompile.Server
