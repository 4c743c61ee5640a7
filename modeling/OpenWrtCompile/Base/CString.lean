import OpenWrtCompile.Base.Bytes
import OpenWrtCompile.Base.Search
import Mathlib.Data.List.TakeWhile

/-!
# C strings

`strstr`, `strtok` and `strtol` on blocks of memory. A string ends at the first NUL of its block,
which need not be where the bytes that the program has filled in end.
-/

namespace OpenWrtCompile.Base
open Search

/-- `"\r\n"`. -/
def crlf : Bytes := [0x0D, 0x0A]

/-- `strstr`: the offset of the first occurrence of `pat` in the string at the start of the block. -/
def strstr (mem pat : Bytes) : Option Nat := find? pat (cString mem 0)

/-- `strtok` on a string: the next token and what stands behind the delimiter that ends it. -/
def strtok (delim s : Bytes) : Option (Bytes × Bytes) :=
  match s.dropWhile (· ∈ delim) with
  | [] => none
  | c :: t => some ((c :: t).takeWhile (· ∉ delim), ((c :: t).dropWhile (· ∉ delim)).drop 1)

/-- The tokens that `strtok` yields until it returns `NULL`. Each takes a byte at least, so the
length of the string is fuel enough. -/
def tokens (delim : Bytes) : Nat → Bytes → List Bytes
  | 0, _ => []
  | fuel + 1, s =>
    match strtok delim s with
    | none => []
    | some (token, rest) => token :: tokens delim fuel rest

/-- The value of a digit of `strtol` to base 16. -/
def xdigit? (c : UInt8) : Option Nat :=
  if 0x30 ≤ c ∧ c ≤ 0x39 then some (c.toNat - 0x30)
  else if 0x41 ≤ c ∧ c ≤ 0x46 then some (c.toNat - 0x41 + 10)
  else if 0x61 ≤ c ∧ c ≤ 0x66 then some (c.toNat - 0x61 + 10)
  else none

/-- The number that the digits at the start of a string make. -/
def hexPrefix (s : Bytes) : Nat :=
  (s.takeWhile fun c ↦ (xdigit? c).isSome).foldl (fun n c ↦ 16 * n + (xdigit? c).getD 0) 0

/-- `0x` in front of a digit is skipped. -/
def skipBase (s : Bytes) : Bytes :=
  match s with
  | 0x30 :: x :: d :: t =>
    if (x = 0x78 ∨ x = 0x58) ∧ (xdigit? d).isSome then d :: t else s
  | s => s

/-- `strtol(s, NULL, 16)` with a 64-bit `long`. -/
def strtol16 (s : Bytes) : Int :=
  match s.dropWhile fun c ↦ c = 0x20 || (0x09 ≤ c && c ≤ 0x0D) with
  | 0x2D :: t => max (-(hexPrefix (skipBase t) : Int)) (-2 ^ 63)
  | 0x2B :: t => min (hexPrefix (skipBase t) : Int) (2 ^ 63 - 1)
  | t => min (hexPrefix (skipBase t) : Int) (2 ^ 63 - 1)

/-- `(char)` of a `long`, as a byte. -/
def toChar (n : Int) : UInt8 := UInt8.ofNat (n % 256).toNat

/-- The value of a plain `char`, which is signed on some platforms. -/
def plainChar (signed : Bool) (c : UInt8) : Int :=
  if signed && 128 ≤ c.toNat then c.toNat - 256 else c.toNat

/-- What `strncpy` writes: the string at the start of the source, cut or filled up to `n` bytes. -/
def strncpy (src : Bytes) (n : Nat) : Bytes :=
  (cString src 0).take n ++ List.replicate (n - (cString src 0).length) 0

/-- A string holds no NUL. -/
theorem not_mem_cString (mem : Bytes) (i : Nat) : 0 ∉ cString mem i := by
  intro h
  have hne := List.mem_takeWhile_imp h
  exact absurd rfl (of_decide_eq_true hne)

/-- Bytes other than NUL are part of the string. -/
theorem cString_append {a : Bytes} (b : Bytes) (ha : 0 ∉ a) :
    cString (a ++ b) 0 = a ++ cString b 0 := by
  unfold cString
  rw [List.drop_zero, List.drop_zero]
  apply List.takeWhile_append_of_pos
  intro c hc
  apply decide_eq_true
  rintro rfl
  exact ha hc

/-- A text without a NUL is the string that its block holds. -/
theorem cString_of_not_mem {text : Bytes} (hz : 0 ∉ text) : cString text 0 = text := by
  have := cString_append [] hz
  rwa [List.append_nil, show cString ([] : Bytes) 0 = [] from rfl, List.append_nil] at this

/-- `strncpy` of a shorter text puts NULs behind it. -/
theorem strncpy_of_lt {text : Bytes} {n : Nat} (hz : 0 ∉ text) (h : text.length < n) :
    strncpy text n = text ++ 0 :: List.replicate (n - text.length - 1) 0 := by
  rw [strncpy, cString_of_not_mem hz, List.take_of_length_le h.le, ← List.replicate_succ]
  congr 2
  omega

/-- `strncpy` of a text that is as long as the buffer, or longer. -/
theorem strncpy_of_le {text : Bytes} {n : Nat} (hz : 0 ∉ text) (h : n ≤ text.length) :
    strncpy text n = text.take n := by
  rw [strncpy, cString_of_not_mem hz, Nat.sub_eq_zero_of_le h, List.replicate_zero, List.append_nil]

/-- The buffer is terminated only if the text leaves it room. -/
theorem zero_mem_strncpy {text : Bytes} {n : Nat} (hz : 0 ∉ text) :
    0 ∈ strncpy text n ↔ text.length < n := by
  constructor
  · intro h
    by_contra hn
    rw [strncpy_of_le hz (by omega)] at h
    exact hz (List.mem_of_mem_take h)
  · intro h
    rw [strncpy_of_lt hz h]
    simp

/-- What is found before any NUL is found, whatever stands behind. -/
theorem strstr_append {a pat : Bytes} {i : Nat} (b : Bytes) (ha : 0 ∉ a)
    (h : find? pat a = some i) : strstr (a ++ b) pat = some i := by
  unfold strstr
  rw [cString_append b ha]
  exact find?_append _ h

/-- What is found within the first bytes of a block stands there. -/
theorem isPrefix_of_strstr {a b pat : Bytes} {i : Nat} (h : strstr (a ++ b) pat = some i)
    (hi : i + pat.length ≤ a.length) : pat <+: a.drop i := by
  obtain ⟨-, hd, -⟩ := find?_eq_some_iff.mp h
  have hblock : pat <+: (a ++ b).drop i := by
    refine hd.trans ?_
    unfold cString
    rw [List.drop_zero]
    exact (List.takeWhile_prefix _).drop i
  rw [List.drop_append_of_le_length (by omega)] at hblock
  apply List.prefix_of_prefix_length_le hblock (List.prefix_append _ _)
  rw [List.length_drop]
  omega

/-- The next token of a string that starts with one, up to its delimiter. -/
theorem strtok_append {delim token : Bytes} {d : UInt8} (rest : Bytes) (hne : token ≠ [])
    (htoken : ∀ c ∈ token, c ∉ delim) (hd : d ∈ delim) :
    strtok delim (token ++ d :: rest) = some (token, rest) := by
  cases token with
  | nil => exact absurd rfl hne
  | cons c token =>
    have hstart : (c :: token ++ d :: rest).dropWhile (· ∈ delim) = c :: (token ++ d :: rest) := by
      rw [List.cons_append, List.dropWhile_cons_of_neg]
      simpa using htoken c List.mem_cons_self
    have hall : ∀ x ∈ c :: token, decide (x ∉ delim) = true :=
      fun x hx ↦ decide_eq_true (htoken x hx)
    unfold strtok
    rw [hstart]
    simp only
    rw [← List.cons_append, List.takeWhile_append_of_pos hall, List.dropWhile_append_of_pos hall,
      List.takeWhile_cons_of_neg (by simpa using hd), List.dropWhile_cons_of_neg (by simpa using hd),
      List.append_nil]
    rfl

/-- A string without a delimiter is one token. -/
theorem strtok_self {delim token : Bytes} (hne : token ≠ []) (htoken : ∀ c ∈ token, c ∉ delim) :
    strtok delim token = some (token, []) := by
  cases token with
  | nil => exact absurd rfl hne
  | cons c token =>
    have hstart : (c :: token).dropWhile (· ∈ delim) = c :: token := by
      rw [List.dropWhile_cons_of_neg]
      simpa using htoken c List.mem_cons_self
    have hall : ∀ x ∈ c :: token, decide (x ∉ delim) = true :=
      fun x hx ↦ decide_eq_true (htoken x hx)
    unfold strtok
    rw [hstart]
    simp only
    rw [List.takeWhile_eq_self_iff.mpr hall, List.dropWhile_eq_nil_iff.mpr hall]
    rfl

end OpenWrtCompile.Base
