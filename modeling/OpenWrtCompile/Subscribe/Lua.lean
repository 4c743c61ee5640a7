import OpenWrtCompile.Base.Bytes
import OpenWrtCompile.Base.Search
import Mathlib.Data.List.DropRight

/-!
# The Lua of the subscription script

What `root/usr/share/overwall/subscribe` uses of Lua 5.1: values and tables, the errors of its
operators, and the string functions with the fixed patterns that the script gives them.
-/

namespace OpenWrtCompile.Subscribe
open OpenWrtCompile.Base

/-- What a Lua operation raises: indexing or calling what cannot be indexed or called, arithmetic or
concatenation on a wrong operand, a `nil` key, a wrong argument of a library function. -/
inductive LuaError
  | index
  | call
  | arith
  | concat
  | key
  | argument
  | pattern
  deriving DecidableEq, Repr

/-- A value; a number is kept as the text it is concatenated as, a table as its array part and its
named fields. -/
inductive Value
  | nil
  | bool (b : Bool)
  | num (text : Bytes)
  | str (s : Bytes)
  | table (items : List Value) (fields : List (Bytes × Value))
  deriving Repr

/-- The named fields of a table, in the order they were set. -/
abbrev Table := List (Bytes × Value)

/-- `nil` and `false` are false. -/
def Value.truthy : Value → Bool
  | nil => false
  | bool b => b
  | _ => true

/-- `v == s`. -/
def Value.eqStr (v : Value) (s : Bytes) : Bool :=
  match v with
  | str t => t = s
  | _ => false

/-- A string, or `nil`. -/
def Value.ofOption : Option Bytes → Value
  | some s => str s
  | none => nil

/-- The operand of `..`. -/
def Value.text : Value → Except LuaError Bytes
  | num t => .ok t
  | str s => .ok s
  | _ => .error .concat

/-- The string on which a string method is called. -/
def Value.self : Value → Except LuaError Bytes
  | str s => .ok s
  | table _ _ => .error .call
  | _ => .error .index

/-- The fields that an indexed value has; no field that the script reads names a string function. -/
def Value.fields : Value → Except LuaError Table
  | table _ fields => .ok fields
  | str _ => .ok []
  | _ => .error .index

/-- `ipairs`: the array part up to the first `nil`. -/
def Value.ipairs : Value → Except LuaError (List Value)
  | table items _ => .ok (items.takeWhile fun v ↦ match v with | nil => false | _ => true)
  | _ => .error .argument

/-- `t[k]`. -/
def Table.at (t : Table) (k : Bytes) : Value := (t.lookup k).getD .nil

/-- `t.k`. -/
def Table.get (t : Table) (k : String) : Value := t.at (ascii k)

/-- `t[k] = v`. -/
def Table.put (t : Table) (k : Bytes) (v : Value) : Table :=
  match v with
  | .nil => t.filter fun p ↦ p.1 ≠ k
  | v => if t.any fun p ↦ p.1 = k then t.map fun p ↦ if p.1 = k then (k, v) else p else t ++ [(k, v)]

/-- `t.k = v`. -/
def Table.set (t : Table) (k : String) (v : Value) : Table := t.put (ascii k) v

/-- A field without an entry is `nil`. -/
theorem Table.at_nil (k : Bytes) : Table.at [] k = .nil := rfl

/-- The first entry of a key is read. -/
theorem Table.at_cons (p : Bytes × Value) (t : Table) (k : Bytes) :
    Table.at (p :: t) k = if p.1 = k then p.2 else Table.at t k := by
  unfold Table.at
  rw [List.lookup_cons]
  by_cases h : p.1 = k
  · rw [if_pos h, h, beq_self_eq_true]
    rfl
  · rw [if_neg h, beq_eq_false_iff_ne.mpr (Ne.symm h)]

/-- Entries of other keys do not count. -/
theorem Table.at_filter (t : Table) (k k' : Bytes) (h : k ≠ k') :
    Table.at (t.filter fun p ↦ p.1 ≠ k) k' = t.at k' := by
  induction t with
  | nil => rfl
  | cons p t ih =>
    by_cases hp : p.1 = k
    · rw [List.filter_cons_of_neg (by simpa using hp), ih, Table.at_cons, if_neg (by rwa [hp])]
    · rw [List.filter_cons_of_pos (by simpa using hp), Table.at_cons, Table.at_cons, ih]

/-- A removed key is `nil`. -/
theorem Table.at_filter_self (t : Table) (k : Bytes) :
    Table.at (t.filter fun p ↦ p.1 ≠ k) k = .nil := by
  induction t with
  | nil => rfl
  | cons p t ih =>
    by_cases hp : p.1 = k
    · rw [List.filter_cons_of_neg (by simpa using hp), ih]
    · rw [List.filter_cons_of_pos (by simpa using hp), Table.at_cons, if_neg hp, ih]

/-- What an assignment that is not `nil` writes. -/
theorem Table.put_of_ne_nil (t : Table) (k : Bytes) {v : Value} (h : v ≠ .nil) :
    t.put k v = if t.any fun p ↦ p.1 = k then t.map fun p ↦ if p.1 = k then (k, v) else p
      else t ++ [(k, v)] := by
  cases v <;> first | exact absurd rfl h | rfl

/-- An assigned key is read back. -/
theorem Table.at_put_self (t : Table) (k : Bytes) (v : Value) : (t.put k v).at k = v := by
  by_cases hv : v = .nil
  · rw [hv]
    exact Table.at_filter_self t k
  rw [Table.put_of_ne_nil t k hv]
  split
  · next hany =>
    induction t with
    | nil => cases hany
    | cons p t ih =>
      rw [List.map_cons, Table.at_cons]
      by_cases hp : p.1 = k
      · rw [if_pos hp, if_pos rfl]
      · rw [if_neg hp, if_neg hp]
        apply ih
        simpa [hp] using hany
  · next hany =>
    induction t with
    | nil => rw [List.nil_append, Table.at_cons, if_pos rfl]
    | cons p t ih =>
      simp only [List.any_cons, Bool.or_eq_true, decide_eq_true_eq, not_or] at hany
      rw [List.cons_append, Table.at_cons, if_neg hany.1]
      exact ih hany.2

/-- An assignment leaves the other keys. -/
theorem Table.at_put_ne (t : Table) (k k' : Bytes) (v : Value) (h : k ≠ k') :
    (t.put k v).at k' = t.at k' := by
  by_cases hv : v = .nil
  · rw [hv]
    exact Table.at_filter t k k' h
  rw [Table.put_of_ne_nil t k hv]
  split
  · clear * - h
    induction t with
    | nil => rfl
    | cons p t ih =>
      rw [List.map_cons, Table.at_cons, Table.at_cons, ih]
      by_cases hp : p.1 = k
      · rw [if_pos hp, if_neg h, if_neg (by rwa [hp])]
      · rw [if_neg hp]
  · clear * - h
    induction t with
    | nil => rw [List.nil_append, Table.at_cons, if_neg h]
    | cons p t ih => rw [List.cons_append, Table.at_cons, Table.at_cons, ih]

/-- An assigned field is read back. -/
@[simp] theorem Table.get_set_self (t : Table) (k : String) (v : Value) : (t.set k v).get k = v :=
  Table.at_put_self t (ascii k) v

/-- An assignment leaves the other fields. -/
theorem Table.get_set_ne (t : Table) (k k' : String) (v : Value) (h : ascii k ≠ ascii k') :
    (t.set k v).get k' = t.get k' := Table.at_put_ne t (ascii k) (ascii k') v h

/-- `text:gsub("%z","")`. -/
def stripNul (text : Bytes) : Bytes := text.filter (· ≠ 0)

/-- `text:gsub` of one byte by another. -/
def gsubByte (a b : UInt8) (text : Bytes) : Bytes := text.map fun c ↦ if c = a then b else c

/-- `text:gsub("/%?","?")`. -/
def gsubSlash : Bytes → Bytes
  | [] => []
  | [c] => [c]
  | c :: x :: r => if c = 0x2F ∧ x = 0x3F then 0x3F :: gsubSlash r else c :: gsubSlash (x :: r)

/-- What stands before and after the first byte `c`. -/
def cut (c : UInt8) (text : Bytes) : Option (Bytes × Bytes) :=
  (text.idxOf? c).map fun i ↦ (text.take i, text.drop (i + 1))

/-- `text:match('%[(.*)%]')`. -/
def bracketed (text : Bytes) : Option Bytes := do
  let (_, r) ← cut 0x5B text
  let j ← r.reverse.idxOf? 0x5D
  some (r.take (r.length - 1 - j))

/-- `split(full,sep)` for a separator that is not empty. -/
def split (full : Option Bytes) (sep : Bytes) : List Bytes :=
  match full with
  | some full => Search.split sep (stripNul full)
  | none => []

/-- `%s`. -/
def isSpace (c : UInt8) : Bool := (9 ≤ c && c ≤ 13) || c = 32

/-- `trim(text)`. -/
def trim (text : Bytes) : Bytes := (text.dropWhile isSpace).rdropWhile isSpace

/-- The value of a hexadecimal digit. -/
def hexDigit? (c : UInt8) : Option UInt8 :=
  if 0x30 ≤ c ∧ c ≤ 0x39 then some (c - 0x30)
  else if 0x41 ≤ c ∧ c ≤ 0x46 then some (c - 0x41 + 10)
  else if 0x61 ≤ c ∧ c ≤ 0x66 then some (c - 0x61 + 10)
  else none

/-- `%X` of a value below 16. -/
def hexUpper (n : UInt8) : UInt8 := if n < 10 then 0x30 + n else 0x41 + (n - 10)

/-- `get_urlencode(c)`: `%%%02X`. -/
def getUrlencode (c : UInt8) : Bytes := [0x25, hexUpper (c / 16), hexUpper (c % 16)]

/-- `[0-9a-zA-Z ]`. -/
def isUrlPlain (c : UInt8) : Bool :=
  (0x30 ≤ c && c ≤ 0x39) || (0x61 ≤ c && c ≤ 0x7A) || (0x41 ≤ c && c ≤ 0x5A) || c = 0x20

/-- `urlEncode(szText)`. -/
def urlEncode (text : Bytes) : Bytes :=
  gsubByte 0x20 0x2B (text.flatMap fun c ↦ if isUrlPlain c then [c] else getUrlencode c)

/-- `gsub("%%(%x%x)",get_urldecode)`. -/
def percentDecode : Bytes → Bytes
  | 0x25 :: a :: b :: r =>
    match hexDigit? a, hexDigit? b with
    | some x, some y => (16 * x + y) :: percentDecode r
    | _, _ => 0x25 :: percentDecode (a :: b :: r)
  | c :: r => c :: percentDecode r
  | [] => []

/-- `UrlDecode(szText)` of a string. -/
def urlDecode (text : Bytes) : Bytes := percentDecode (gsubByte 0x2B 0x20 text)

/-- `string.lower`. -/
def lower (text : Bytes) : Bytes := text.map fun c ↦ if 0x41 ≤ c ∧ c ≤ 0x5A then c + 32 else c

end OpenWrtCompile.Subscribe
