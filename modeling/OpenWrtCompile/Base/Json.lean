import OpenWrtCompile.Base.Bytes
import Mathlib.Data.List.Basic
import Mathlib.Data.List.Infix
import Mathlib.Tactic.Common

/-!
# JSON texts

A text is read into tokens, with blanks between them, and denotes the value whose tokens these are. The
bytes of a string are those of its UTF-8 form. The shortest form of a string escapes the quotation mark,
the backslash and the bytes below the blank alone; no text that is read as the string is shorter.
-/

namespace OpenWrtCompile.Base

/-! ## Numbers -/

/-- A digit. -/
def isJsonDigit (c : UInt8) : Bool := 0x30 ≤ c && c ≤ 0x39

/-- A byte of a number. -/
def isNumberByte (c : UInt8) : Bool :=
  isJsonDigit c || c = 0x2B || c = 0x2D || c = 0x2E || c = 0x65 || c = 0x45

/-- One digit or more. -/
def isDigits (l : Bytes) : Bool := l ≠ [] && l.all isJsonDigit

/-- Digits behind an optional sign. -/
def isExponent : Bytes → Bool
  | [] => false
  | c :: l => if c = 0x2B ∨ c = 0x2D then isDigits l else isDigits (c :: l)

/-- What stands behind the digits of the whole part. -/
def isFraction (l : Bytes) : Bool :=
  match l with
  | [] => true
  | c :: l =>
    if c = 0x2E then
      let digits := l.takeWhile isJsonDigit
      let rest := l.drop digits.length
      isDigits digits && match rest with
        | [] => true
        | e :: rest => (e = 0x65 || e = 0x45) && isExponent rest
    else (c = 0x65 || c = 0x45) && isExponent l

/-- The text of a number. -/
def isJsonNumber (l : Bytes) : Bool :=
  let l := if l.head? = some 0x2D then l.drop 1 else l
  let digits := l.takeWhile isJsonDigit
  isDigits digits && (digits.length = 1 || digits.head? ≠ some 0x30) &&
    isFraction (l.drop digits.length)

/-- A number, as it is written. -/
structure JsonNumber where
  text : Bytes
  valid : (text.all isNumberByte && isJsonNumber text) = true
  deriving DecidableEq

/-! ## Values and tokens -/

/-- A value. The members of an object stand in their order. -/
inductive Json
  | null
  | bool (b : Bool)
  | num (n : JsonNumber)
  | str (s : Bytes)
  | arr (items : List Json)
  | obj (members : List (Bytes × Json))

/-- A token. -/
inductive JsonToken
  | openArr | closeArr | openObj | closeObj | comma | colon | null
  | bool (b : Bool)
  | num (n : JsonNumber)
  | str (s : Bytes)
  deriving DecidableEq

/-- A comma in front of more. -/
def commaUnless (last : Bool) : List JsonToken := if last then [] else [.comma]

mutual

/-- The tokens of a value. -/
def Json.tokens : Json → List JsonToken
  | .null => [.null]
  | .bool b => [.bool b]
  | .num n => [.num n]
  | .str s => [.str s]
  | .arr items => .openArr :: (itemTokens items ++ [.closeArr])
  | .obj members => .openObj :: (memberTokens members ++ [.closeObj])

/-- The tokens of items. -/
def itemTokens : List Json → List JsonToken
  | [] => []
  | j :: items => j.tokens ++ (commaUnless items.isEmpty ++ itemTokens items)

/-- The tokens of members. -/
def memberTokens : List (Bytes × Json) → List JsonToken
  | [] => []
  | (k, j) :: members =>
    .str k :: .colon :: (j.tokens ++ (commaUnless members.isEmpty ++ memberTokens members))

end

/-- No value starts with the end of an array or of an object. -/
theorem Json.tokens_ne_close (j : Json) (r r' : List JsonToken) :
    j.tokens ++ r ≠ .closeArr :: r' ∧ j.tokens ++ r ≠ .closeObj :: r' := by
  cases j <;> simp [Json.tokens]

mutual

/-- The tokens of a value end with the value. -/
theorem Json.tokens_append_inj :
    ∀ (j j' : Json) (r r' : List JsonToken), j.tokens ++ r = j'.tokens ++ r' → j = j' ∧ r = r'
  | .null, j', r, r', h => by cases j' <;> simp_all [Json.tokens]
  | .bool b, j', r, r', h => by cases j' <;> simp_all [Json.tokens]
  | .num n, j', r, r', h => by cases j' <;> simp_all [Json.tokens]
  | .str s, j', r, r', h => by cases j' <;> simp_all [Json.tokens]
  | .arr items, j', r, r', h => by
    cases j' with
    | arr items' =>
      simp only [Json.tokens, List.cons_append, List.append_assoc, List.nil_append,
        List.cons.injEq, true_and] at h
      obtain ⟨rfl, rfl⟩ := itemTokens_append_inj items items' r r' h
      exact ⟨rfl, rfl⟩
    | _ => simp [Json.tokens] at h
  | .obj members, j', r, r', h => by
    cases j' with
    | obj members' =>
      simp only [Json.tokens, List.cons_append, List.append_assoc, List.nil_append,
        List.cons.injEq, true_and] at h
      obtain ⟨rfl, rfl⟩ := memberTokens_append_inj members members' r r' h
      exact ⟨rfl, rfl⟩
    | _ => simp [Json.tokens] at h

/-- The tokens of items end with the items. -/
theorem itemTokens_append_inj :
    ∀ (items items' : List Json) (r r' : List JsonToken),
      itemTokens items ++ .closeArr :: r = itemTokens items' ++ .closeArr :: r' →
        items = items' ∧ r = r'
  | [], [], r, r', h => by simpa [itemTokens] using h
  | [], j' :: items', r, r', h => by
    simp only [itemTokens, List.nil_append, List.append_assoc] at h
    exact absurd h.symm (j'.tokens_ne_close _ _).1
  | j :: items, [], r, r', h => by
    simp only [itemTokens, List.nil_append, List.append_assoc] at h
    exact absurd h (j.tokens_ne_close _ _).1
  | j :: items, j' :: items', r, r', h => by
    simp only [itemTokens, List.append_assoc] at h
    obtain ⟨rfl, hrest⟩ := j.tokens_append_inj j' _ _ h
    have ih := itemTokens_append_inj items items' r r'
    obtain ⟨rfl, rfl⟩ : items = items' ∧ r = r' := by
      cases items <;> cases items' <;> simp_all [commaUnless, itemTokens]
    exact ⟨rfl, rfl⟩

/-- The tokens of members end with the members. -/
theorem memberTokens_append_inj :
    ∀ (members members' : List (Bytes × Json)) (r r' : List JsonToken),
      memberTokens members ++ .closeObj :: r = memberTokens members' ++ .closeObj :: r' →
        members = members' ∧ r = r'
  | [], [], r, r', h => by simpa [memberTokens] using h
  | [], (k', j') :: members', r, r', h => by simp [memberTokens] at h
  | (k, j) :: members, [], r, r', h => by simp [memberTokens] at h
  | (k, j) :: members, (k', j') :: members', r, r', h => by
    simp only [memberTokens, List.append_assoc, List.cons_append, List.cons.injEq,
      JsonToken.str.injEq, true_and] at h
    obtain ⟨rfl, h⟩ := h
    obtain ⟨rfl, hrest⟩ := j.tokens_append_inj j' _ _ h
    have ih := memberTokens_append_inj members members' r r'
    obtain ⟨rfl, rfl⟩ : members = members' ∧ r = r' := by
      cases members <;> cases members' <;> simp_all [commaUnless, memberTokens]
    exact ⟨rfl, rfl⟩

end

/-! ## Reading -/

/-- The value of a hexadecimal digit. -/
def hexValue (c : UInt8) : Option Nat :=
  if 0x30 ≤ c ∧ c ≤ 0x39 then some (c.toNat - 0x30)
  else if 0x61 ≤ c ∧ c ≤ 0x66 then some (c.toNat - 0x57)
  else if 0x41 ≤ c ∧ c ≤ 0x46 then some (c.toNat - 0x37)
  else none

/-- The code unit of four hexadecimal digits. -/
def codeUnit (a b c d : UInt8) : Option Nat := do
  return (((← hexValue a) * 16 + (← hexValue b)) * 16 + (← hexValue c)) * 16 + (← hexValue d)

/-- The byte of an escape of two characters. -/
def shortEscape (c : UInt8) : Option UInt8 :=
  if c = 0x22 ∨ c = 0x5C ∨ c = 0x2F then some c
  else if c = 0x62 then some 0x08
  else if c = 0x66 then some 0x0C
  else if c = 0x6E then some 0x0A
  else if c = 0x72 then some 0x0D
  else if c = 0x74 then some 0x09
  else none

/-- The UTF-8 form of a code point. -/
def utf8Bytes (n : Nat) : Bytes :=
  if n < 0x80 then [UInt8.ofNat n]
  else if n < 0x800 then [UInt8.ofNat (0xC0 + n / 0x40), UInt8.ofNat (0x80 + n % 0x40)]
  else if n < 0x10000 then
    [UInt8.ofNat (0xE0 + n / 0x1000), UInt8.ofNat (0x80 + n / 0x40 % 0x40),
      UInt8.ofNat (0x80 + n % 0x40)]
  else
    [UInt8.ofNat (0xF0 + n / 0x40000), UInt8.ofNat (0x80 + n / 0x1000 % 0x40),
      UInt8.ofNat (0x80 + n / 0x40 % 0x40), UInt8.ofNat (0x80 + n % 0x40)]

/-- What a code unit stands for: bytes, or the first half of a pair. -/
def unitBytes (high : Option Nat) (n : Nat) : Option (Bytes × Option Nat) :=
  match high with
  | some h =>
    if 0xDC00 ≤ n ∧ n < 0xE000 then
      some (utf8Bytes (0x10000 + (h - 0xD800) * 0x400 + (n - 0xDC00)), none)
    else none
  | none =>
    if 0xD800 ≤ n ∧ n < 0xDC00 then some ([], some n)
    else if 0xDC00 ≤ n ∧ n < 0xE000 then none
    else some (utf8Bytes n, none)

/-- The string of a text between quotation marks. The first half of a pair waits for the second. -/
def unescape (high : Option Nat) : Bytes → Option Bytes
  | [] => if high.isNone then some [] else none
  | c :: l =>
    if c = 0x5C then
      match l with
      | [] => none
      | e :: l =>
        if e = 0x75 then
          match l with
          | a :: b :: c :: d :: l => do
            let n ← codeUnit a b c d
            let (bytes, high) ← unitBytes high n
            return bytes ++ (← unescape high l)
          | _ => none
        else if high.isNone then do
          return (← shortEscape e) :: (← unescape none l)
        else none
    else if high.isSome ∨ c = 0x22 ∨ c < 0x20 then none
    else (unescape none l).map (c :: ·)

/-- The text up to the quotation mark that is not escaped. -/
def scanString : Bytes → Option Bytes
  | [] => none
  | c :: l =>
    if c = 0x22 then some []
    else if c = 0x5C then
      match l with
      | [] => none
      | d :: l => (scanString l).map fun body ↦ c :: d :: body
    else (scanString l).map (c :: ·)

/-- The token that starts with a byte, with the number of the bytes behind it. -/
def readToken (c : UInt8) (l : Bytes) : Option (JsonToken × Nat) :=
  if c = 0x5B then some (.openArr, 0)
  else if c = 0x5D then some (.closeArr, 0)
  else if c = 0x7B then some (.openObj, 0)
  else if c = 0x7D then some (.closeObj, 0)
  else if c = 0x2C then some (.comma, 0)
  else if c = 0x3A then some (.colon, 0)
  else if c = 0x22 then do
    let body ← scanString l
    let s ← unescape none body
    return (.str s, body.length + 1)
  else if c = 0x74 then if ascii "rue" <+: l then some (.bool true, 3) else none
  else if c = 0x66 then if ascii "alse" <+: l then some (.bool false, 4) else none
  else if c = 0x6E then if ascii "ull" <+: l then some (.null, 3) else none
  else
    let text := (c :: l).takeWhile isNumberByte
    if h : (text.all isNumberByte && isJsonNumber text) = true then
      some (.num ⟨text, h⟩, text.length - 1)
    else none

/-- A blank. -/
def isJsonBlank (c : UInt8) : Bool := c = 0x20 || c = 0x09 || c = 0x0A || c = 0x0D

/-- The tokens of a text behind `k` bytes of a token. -/
def lexFrom : Nat → Bytes → Option (List JsonToken)
  | _, [] => some []
  | k + 1, _ :: l => lexFrom k l
  | 0, c :: l =>
    if isJsonBlank c then lexFrom 0 l
    else
      match readToken c l with
      | none => none
      | some (t, k) => (lexFrom k l).map (t :: ·)

/-- The tokens of a text. -/
def lexJson (text : Bytes) : Option (List JsonToken) := lexFrom 0 text

/-- The text denotes the value. -/
def Denotes (text : Bytes) (j : Json) : Prop := lexJson text = some j.tokens

/-- A text denotes one value at most. -/
theorem Denotes.unique {text : Bytes} {j j' : Json} (h : Denotes text j) (h' : Denotes text j') :
    j = j' := by
  have heq : j.tokens = j'.tokens := Option.some.inj (Eq.trans h.symm h')
  exact (j.tokens_append_inj j' [] [] (by rw [heq])).1

/-! ## The shortest form of a string -/

/-- A hexadecimal digit. -/
def hexLower (n : UInt8) : UInt8 := if n < 10 then 0x30 + n else 0x57 + n

/-- The shortest form of a byte. -/
def escapeByte (c : UInt8) : Bytes :=
  if c = 0x22 ∨ c = 0x5C then [0x5C, c]
  else if c = 0x08 then [0x5C, 0x62]
  else if c = 0x0C then [0x5C, 0x66]
  else if c = 0x0A then [0x5C, 0x6E]
  else if c = 0x0D then [0x5C, 0x72]
  else if c = 0x09 then [0x5C, 0x74]
  else if c < 0x20 then ascii "\\u00" ++ [hexLower (c / 16), hexLower (c % 16)]
  else [c]

/-- The shortest form of a string. -/
def escapeString (s : Bytes) : Bytes := s.flatMap escapeByte

/-- A statement about the bytes below a bound. -/
theorem forall_byte_lt {P : UInt8 → Prop} {n : Nat}
    (h : ∀ k, k < n → P (UInt8.ofNat k)) (c : UInt8) (hc : c.toNat < n) : P c := by
  have hofNat : UInt8.ofNat c.toNat = c := UInt8.ofNat_toNat
  exact hofNat ▸ h c.toNat hc

/-- The two last digits of the form of a byte below the blank. -/
theorem codeUnit_hexLower {c : UInt8} (hc : c < 0x20) :
    codeUnit 0x30 0x30 (hexLower (c / 16)) (hexLower (c % 16)) = some c.toNat := by
  have h : ∀ k, k < 32 → codeUnit 0x30 0x30 (hexLower (UInt8.ofNat k / 16))
      (hexLower (UInt8.ofNat k % 16)) = some (UInt8.ofNat k).toNat := by decide
  exact forall_byte_lt (P := fun c ↦
    codeUnit 0x30 0x30 (hexLower (c / 16)) (hexLower (c % 16)) = some c.toNat) h c hc

/-- A byte below the blank as a code unit. -/
theorem unitBytes_of_lt {c : UInt8} (hc : c < 0x20) :
    unitBytes none c.toNat = some ([c], none) := by
  have hlt : c.toNat < 32 := hc
  unfold unitBytes utf8Bytes
  rw [if_neg (by omega), if_neg (by omega), if_pos (by omega), UInt8.ofNat_toNat]

/-- An escape of two characters. -/
theorem unescape_short {e c : UInt8} (he : e ≠ 0x75) (hc : shortEscape e = some c) (l : Bytes) :
    unescape none (0x5C :: e :: l) = (unescape none l).map (c :: ·) := by
  rw [unescape.eq_def]
  simp only [↓reduceIte, he, Option.isNone_none, hc]
  cases unescape none l <;> rfl

/-- An escape of four digits. -/
theorem unescape_unit (high : Option Nat) (a b c d : UInt8) (l : Bytes) :
    unescape high (0x5C :: 0x75 :: a :: b :: c :: d :: l) =
      (codeUnit a b c d).bind fun n ↦ (unitBytes high n).bind fun p ↦
        (unescape p.2 l).map (p.1 ++ ·) := by
  rw [unescape.eq_def]
  simp only [↓reduceIte]
  cases codeUnit a b c d with
  | none => rfl
  | some n =>
    simp only [Option.bind_eq_bind, Option.bind_some]
    cases unitBytes high n with
    | none => rfl
    | some p =>
      simp only [Option.bind_some]
      cases unescape p.2 l <;> rfl

/-- A byte that is not escaped. -/
theorem unescape_plain {c : UInt8} (hq : c ≠ 0x22) (hlt : ¬ c < 0x20) (hb : c ≠ 0x5C) (l : Bytes) :
    unescape none (c :: l) = (unescape none l).map (c :: ·) := by
  rw [unescape.eq_def]
  simp only [hq, hlt, hb, ↓reduceIte, Option.isSome_none, Bool.false_eq_true, or_self]

/-- The form of a byte is read as the byte. -/
theorem unescape_escapeByte (c : UInt8) (l : Bytes) :
    unescape none (escapeByte c ++ l) = (unescape none l).map (c :: ·) := by
  unfold escapeByte
  split_ifs with h22 h8 hc ha hd h9 h20
  · obtain rfl | rfl := h22
    · exact unescape_short (by decide) (by decide) l
    · exact unescape_short (by decide) (by decide) l
  · subst h8
    exact unescape_short (by decide) (by decide) l
  · subst hc
    exact unescape_short (by decide) (by decide) l
  · subst ha
    exact unescape_short (by decide) (by decide) l
  · subst hd
    exact unescape_short (by decide) (by decide) l
  · subst h9
    exact unescape_short (by decide) (by decide) l
  · have hform : ascii "\\u00" ++ [hexLower (c / 16), hexLower (c % 16)] ++ l =
        0x5C :: 0x75 :: 0x30 :: 0x30 :: hexLower (c / 16) :: hexLower (c % 16) :: l := rfl
    rw [hform, unescape_unit, codeUnit_hexLower h20, Option.bind_some, unitBytes_of_lt h20,
      Option.bind_some]
    rfl
  · rw [not_or] at h22
    exact unescape_plain h22.1 h20 h22.2 l

/-- The form of a string. -/
theorem escapeString_cons (c : UInt8) (s : Bytes) :
    escapeString (c :: s) = escapeByte c ++ escapeString s := List.flatMap_cons

/-- The form of a string is read as the string. -/
theorem unescape_escapeString (s : Bytes) : unescape none (escapeString s) = some s := by
  induction s with
  | nil => rfl
  | cons c s ih =>
    rw [escapeString_cons, unescape_escapeByte, ih]
    rfl

/-- The end of a string. -/
theorem scanString_quote (l : Bytes) : scanString (0x22 :: l) = some [] := by
  rw [scanString.eq_def]
  simp only [↓reduceIte]

/-- An escape is passed over. -/
theorem scanString_escape (e : UInt8) (l : Bytes) :
    scanString (0x5C :: e :: l) = (scanString l).map ([0x5C, e] ++ ·) := by
  rw [scanString.eq_def]
  simp only [↓reduceIte]
  rfl

/-- A byte that is not escaped is passed over. -/
theorem scanString_plain {c : UInt8} (hq : c ≠ 0x22) (hb : c ≠ 0x5C) (l : Bytes) :
    scanString (c :: l) = (scanString l).map ([c] ++ ·) := by
  rw [scanString.eq_def]
  simp only [hq, hb, ↓reduceIte]
  rfl

/-- A hexadecimal digit is a plain byte. -/
theorem hexLower_plain {k : UInt8} (hk : k < 16) :
    hexLower k ≠ 0x22 ∧ hexLower k ≠ 0x5C := by
  have h : ∀ n, n < 16 → hexLower (UInt8.ofNat n) ≠ 0x22 ∧ hexLower (UInt8.ofNat n) ≠ 0x5C := by
    decide
  exact forall_byte_lt (P := fun c ↦ hexLower c ≠ 0x22 ∧ hexLower c ≠ 0x5C) h k hk

/-- The form of a byte is passed over. -/
theorem scanString_escapeByte (c : UInt8) (l : Bytes) :
    scanString (escapeByte c ++ l) = (scanString l).map (escapeByte c ++ ·) := by
  unfold escapeByte
  split_ifs with h22 h8 hc ha hd h9 h20
  · obtain rfl | rfl := h22
    · exact scanString_escape _ l
    · exact scanString_escape _ l
  · exact scanString_escape _ l
  · exact scanString_escape _ l
  · exact scanString_escape _ l
  · exact scanString_escape _ l
  · exact scanString_escape _ l
  · have hlt : c.toNat < 32 := h20
    have hhigh : c / 16 < 16 := by
      show (c / 16).toNat < 16
      rw [UInt8.toNat_div]
      exact Nat.div_lt_of_lt_mul (by simpa using (by omega : c.toNat < 256))
    have hlow : c % 16 < 16 := by
      show (c % 16).toNat < 16
      rw [UInt8.toNat_mod]
      exact Nat.mod_lt _ (by decide)
    obtain ⟨a₁, a₂⟩ := hexLower_plain hhigh
    obtain ⟨b₁, b₂⟩ := hexLower_plain hlow
    have hform : ascii "\\u00" ++ [hexLower (c / 16), hexLower (c % 16)] ++ l =
        0x5C :: 0x75 :: 0x30 :: 0x30 :: hexLower (c / 16) :: hexLower (c % 16) :: l := rfl
    rw [hform, scanString_escape, scanString_plain (by decide) (by decide),
      scanString_plain (by decide) (by decide), scanString_plain a₁ a₂, scanString_plain b₁ b₂]
    cases scanString l <;> rfl
  · rw [not_or] at h22
    exact scanString_plain h22.1 h22.2 l

/-- The form of a string ends at the quotation mark. -/
theorem scanString_escapeString (s rest : Bytes) :
    scanString (escapeString s ++ 0x22 :: rest) = some (escapeString s) := by
  induction s with
  | nil => exact scanString_quote rest
  | cons c s ih =>
    rw [escapeString_cons, List.append_assoc, scanString_escapeByte, ih]
    rfl

/-- What is read up to the quotation mark. -/
theorem scanString_eq_some {l body : Bytes} (h : scanString l = some body) :
    ∃ rest, l = body ++ 0x22 :: rest := by
  induction l using scanString.induct generalizing body with
  | case1 => cases h
  | case2 l =>
    rw [scanString_quote] at h
    obtain rfl := Option.some.inj h
    exact ⟨l, rfl⟩
  | case3 => cases h
  | case4 e l _ ih =>
    rw [scanString_escape, Option.map_eq_some_iff] at h
    obtain ⟨body, hbody, rfl⟩ := h
    obtain ⟨rest, rfl⟩ := ih hbody
    exact ⟨rest, rfl⟩
  | case5 c l hq hb ih =>
    rw [scanString_plain hq hb, Option.map_eq_some_iff] at h
    obtain ⟨body, hbody, rfl⟩ := h
    obtain ⟨rest, rfl⟩ := ih hbody
    exact ⟨rest, rfl⟩

/-- The form of a byte has six bytes at most. -/
theorem length_escapeByte_le (c : UInt8) : (escapeByte c).length ≤ 6 := by
  unfold escapeByte
  split_ifs <;> exact Nat.le_of_ble_eq_true rfl

/-- The form of a string, by its parts. -/
theorem length_escapeString_append (s t : Bytes) :
    (escapeString (s ++ t)).length = (escapeString s).length + (escapeString t).length := by
  unfold escapeString
  rw [List.flatMap_append, List.length_append]

/-- The form of a byte that is not escaped. -/
theorem escapeByte_of_ge {c : UInt8} (hq : c ≠ 0x22) (hb : c ≠ 0x5C) (hlt : ¬ c < 0x20) :
    escapeByte c = [c] := by
  have hne : ∀ d : UInt8, d < 0x20 → c ≠ d := fun d hd heq ↦ hlt (heq ▸ hd)
  unfold escapeByte
  rw [if_neg (by simp [hq, hb]), if_neg (hne _ (by decide)), if_neg (hne _ (by decide)),
    if_neg (hne _ (by decide)), if_neg (hne _ (by decide)), if_neg (hne _ (by decide)), if_neg hlt]

/-- A string without bytes that are escaped is its own form. -/
theorem escapeString_eq_self {s : Bytes} (h : ∀ c ∈ s, c ≠ 0x22 ∧ c ≠ 0x5C ∧ ¬ c < 0x20) :
    escapeString s = s := by
  induction s with
  | nil => rfl
  | cons c s ih =>
    obtain ⟨hq, hb, hlt⟩ := h c List.mem_cons_self
    rw [escapeString_cons, escapeByte_of_ge hq hb hlt,
      ih fun d hd ↦ h d (List.mem_cons_of_mem _ hd), List.singleton_append]

/-- A byte from 128 on is not escaped. -/
theorem length_escapeByte_ofNat {n : Nat} (h₁ : 0x80 ≤ n) (h₂ : n < 0x100) :
    (escapeByte (UInt8.ofNat n)).length = 1 := by
  have hn : (UInt8.ofNat n).toNat = n := by
    rw [UInt8.toNat_ofNat']
    exact Nat.mod_eq_of_lt h₂
  have hne : ∀ d : UInt8, d.toNat < 0x80 → UInt8.ofNat n ≠ d := by
    intro d hd heq
    rw [heq] at hn
    omega
  rw [escapeByte_of_ge (hne _ (by decide)) (hne _ (by decide))]
  · rfl
  · intro hlt
    have hlt' : (UInt8.ofNat n).toNat < 32 := hlt
    omega

/-- The form of a code point has six bytes at most. -/
theorem length_escapeString_utf8Bytes {n : Nat} (h : n < 0x110000) :
    (escapeString (utf8Bytes n)).length ≤ 6 := by
  have hone : ∀ c : UInt8, (escapeString [c]).length = (escapeByte c).length := by
    intro c
    rw [escapeString_cons, List.length_append]
    rfl
  have hcons : ∀ (k : Nat) (l : Bytes), 0x80 ≤ k → k < 0x100 →
      (escapeString (UInt8.ofNat k :: l)).length = (escapeString l).length + 1 := by
    intro k l h₁ h₂
    rw [escapeString_cons, List.length_append, length_escapeByte_ofNat h₁ h₂, Nat.add_comm]
  have hnil : (escapeString []).length = 0 := rfl
  unfold utf8Bytes
  split_ifs with h1 h2 h3
  · rw [hone]
    exact length_escapeByte_le _
  · rw [hcons _ _ (by omega) (by omega), hcons _ _ (by omega) (by omega), hnil]
    omega
  · rw [hcons _ _ (by omega) (by omega), hcons _ _ (by omega) (by omega),
      hcons _ _ (by omega) (by omega), hnil]
    omega
  · rw [hcons _ _ (by omega) (by omega), hcons _ _ (by omega) (by omega),
      hcons _ _ (by omega) (by omega), hcons _ _ (by omega) (by omega), hnil]
    omega

/-- What a first half that waits allows for. -/
def waiting (high : Option Nat) : Nat := if high.isSome then 6 else 0

/-- The value of a hexadecimal digit. -/
theorem hexValue_lt {c : UInt8} {n : Nat} (h : hexValue c = some n) : n < 16 ∧ ¬ c < 0x20 := by
  have hnot : (c < 0x20) = (c.toNat < 32) := rfl
  rw [hnot]
  unfold hexValue at h
  split_ifs at h with h0 ha hA
  · obtain ⟨h₁, h₂⟩ := h0
    have h₁' : 48 ≤ c.toNat := h₁
    have h₂' : c.toNat ≤ 57 := h₂
    obtain rfl := Option.some.inj h
    omega
  · obtain ⟨h₁, h₂⟩ := ha
    have h₁' : 97 ≤ c.toNat := h₁
    have h₂' : c.toNat ≤ 102 := h₂
    obtain rfl := Option.some.inj h
    omega
  · obtain ⟨h₁, h₂⟩ := hA
    have h₁' : 65 ≤ c.toNat := h₁
    have h₂' : c.toNat ≤ 70 := h₂
    obtain rfl := Option.some.inj h
    omega

/-- A code unit has sixteen bits. -/
theorem codeUnit_lt {a b c d : UInt8} {n : Nat} (h : codeUnit a b c d = some n) :
    n < 0x10000 ∧ ∀ e ∈ [a, b, c, d], ¬ e < 0x20 := by
  unfold codeUnit at h
  simp only [Option.bind_eq_bind, Option.bind_eq_some_iff, Option.pure_def, Option.some.injEq] at h
  obtain ⟨i, hi, j, hj, k, hk, m, hm, rfl⟩ := h
  obtain ⟨hi, ha⟩ := hexValue_lt hi
  obtain ⟨hj, hb⟩ := hexValue_lt hj
  obtain ⟨hk, hc⟩ := hexValue_lt hk
  obtain ⟨hm, hd⟩ := hexValue_lt hm
  refine ⟨by omega, ?_⟩
  simp only [List.forall_mem_cons, ha, hb, hc, hd, not_false_eq_true, true_and]
  exact fun e he ↦ absurd he List.not_mem_nil

/-- A half that waits is a first half. -/
def FirstHalf (high : Option Nat) : Prop := ∀ h, high = some h → h < 0xDC00

/-- What a code unit stands for has no long form. -/
theorem length_unitBytes {high high' : Option Nat} {n : Nat} {bytes : Bytes} (hn : n < 0x10000)
    (hhigh : FirstHalf high) (h : unitBytes high n = some (bytes, high')) :
    (escapeString bytes).length + waiting high' ≤ 6 + waiting high ∧ FirstHalf high' := by
  unfold unitBytes at h
  cases high with
  | some half =>
    have hhalf := hhigh half rfl
    dsimp only at h
    split_ifs at h with hlow
    obtain ⟨rfl, rfl⟩ := Prod.mk.inj (Option.some.inj h)
    have hlen := length_escapeString_utf8Bytes
      (n := 0x10000 + (half - 0xD800) * 0x400 + (n - 0xDC00)) (by omega)
    refine ⟨?_, fun h' hh' ↦ by cases hh'⟩
    show _ + 0 ≤ 6 + 6
    omega
  | none =>
    dsimp only at h
    split_ifs at h with hfirst hlow
    · obtain ⟨rfl, rfl⟩ := Prod.mk.inj (Option.some.inj h)
      refine ⟨le_rfl, fun h' hh' ↦ ?_⟩
      obtain rfl := Option.some.inj hh'
      omega
    · obtain ⟨rfl, rfl⟩ := Prod.mk.inj (Option.some.inj h)
      exact ⟨length_escapeString_utf8Bytes (by omega), fun h' hh' ↦ by cases hh'⟩

/-- The byte of an escape of two characters has a form of two bytes at most. -/
theorem length_shortEscape {e c : UInt8} (h : shortEscape e = some c) :
    (escapeByte c).length ≤ 2 ∧ ¬ e < 0x20 := by
  unfold shortEscape at h
  split_ifs at h with hself hb hf hn hr ht
  · obtain rfl := Option.some.inj h
    obtain rfl | rfl | rfl := hself <;> decide
  all_goals
    subst_vars
    obtain rfl := Option.some.inj h
    decide

/-- No text that is read as a string is shorter than its shortest form, and none holds a byte below the
blank. -/
theorem length_unescape {high : Option Nat} {body s : Bytes} (hhigh : FirstHalf high)
    (h : unescape high body = some s) :
    (escapeString s).length ≤ body.length + waiting high ∧ ∀ c ∈ body, ¬ c < 0x20 := by
  induction high, body using unescape.induct generalizing s with
  | case1 high hnone =>
    rw [unescape, if_pos hnone] at h
    obtain rfl := Option.some.inj h
    exact ⟨Nat.zero_le _, fun c hc ↦ absurd hc List.not_mem_nil⟩
  | case2 high hsome =>
    rw [unescape, if_neg hsome] at h
    cases h
  | case3 high => cases h
  | case4 high a b c d l ih =>
    rw [unescape_unit, Option.bind_eq_some_iff] at h
    obtain ⟨n, hn, h⟩ := h
    rw [Option.bind_eq_some_iff] at h
    obtain ⟨⟨bytes, high'⟩, hunit, h⟩ := h
    rw [Option.map_eq_some_iff] at h
    obtain ⟨s, hs, rfl⟩ := h
    obtain ⟨hlt, hplain⟩ := codeUnit_lt hn
    obtain ⟨hbytes, hhigh'⟩ := length_unitBytes hlt hhigh hunit
    obtain ⟨hlen, hno⟩ := ih high' hhigh' hs
    dsimp only
    rw [length_escapeString_append]
    refine ⟨?_, ?_⟩
    · simp only [List.length_cons]
      omega
    · simp only [List.forall_mem_cons] at hplain ⊢
      exact ⟨by decide, by decide, hplain.1, hplain.2.1, hplain.2.2.1, hplain.2.2.2.1, hno⟩
  | case5 high rest hrest =>
    rw [unescape.eq_def] at h
    simp only [↓reduceIte] at h
    cases h
  | case6 high e rest he hnone ih =>
    obtain rfl : high = none := Option.isNone_iff_eq_none.mp hnone
    have hshort : ∃ c, shortEscape e = some c := by
      rw [unescape.eq_def] at h
      simp only [↓reduceIte, he, hnone, Option.bind_eq_bind, Option.bind_eq_some_iff] at h
      obtain ⟨c, hc, -⟩ := h
      exact ⟨c, hc⟩
    obtain ⟨c, hc⟩ := hshort
    rw [unescape_short he hc, Option.map_eq_some_iff] at h
    obtain ⟨s, hs, rfl⟩ := h
    obtain ⟨hlen, hno⟩ := ih hhigh hs
    obtain ⟨htwo, hplain⟩ := length_shortEscape hc
    rw [escapeString_cons, List.length_append]
    refine ⟨?_, ?_⟩
    · simp only [List.length_cons]
      omega
    · simp only [List.forall_mem_cons]
      exact ⟨by decide, hplain, hno⟩
  | case7 high e rest he hsome =>
    rw [unescape.eq_def] at h
    simp only [↓reduceIte, he, hsome] at h
    cases h
  | case8 high c l hb hbad =>
    rw [unescape.eq_def] at h
    simp only [↓reduceIte, hb, hbad] at h
    cases h
  | case9 high c l hb hok ih =>
    rw [not_or, not_or] at hok
    obtain rfl : high = none := by simpa using hok.1
    rw [unescape_plain hok.2.1 hok.2.2 hb, Option.map_eq_some_iff] at h
    obtain ⟨s, hs, rfl⟩ := h
    obtain ⟨hlen, hno⟩ := ih hhigh hs
    rw [escapeString_cons, escapeByte_of_ge hok.2.1 hb hok.2.2, List.length_append]
    refine ⟨?_, ?_⟩
    · simp only [List.length_cons, List.length_nil]
      omega
    · simp only [List.forall_mem_cons]
      exact ⟨hok.2.2, hno⟩

/-! ## The tokens of a text -/

/-- The empty text. -/
@[simp] theorem lexJson_nil : lexJson [] = some [] := rfl

/-- The rest of a token is passed over. -/
theorem lexFrom_length (a b : Bytes) : lexFrom a.length (a ++ b) = lexJson b := by
  induction a with
  | nil => rfl
  | cons c a ih => exact ih

/-- A blank is passed over. -/
theorem lexJson_blank {c : UInt8} (hc : isJsonBlank c = true) (l : Bytes) :
    lexJson (c :: l) = lexJson l := by
  show lexFrom 0 (c :: l) = _
  rw [lexFrom, if_pos hc]
  rfl

/-- Blanks are passed over. -/
theorem lexJson_blanks {a : Bytes} (ha : a.all isJsonBlank = true) (l : Bytes) :
    lexJson (a ++ l) = lexJson l := by
  induction a with
  | nil => rfl
  | cons c a ih =>
    obtain ⟨hc, ha⟩ := Bool.and_eq_true_iff.mp ha
    rw [List.cons_append, lexJson_blank hc, ih ha]

/-- A token. -/
theorem lexJson_token {c : UInt8} {a b : Bytes} {t : JsonToken} (hc : isJsonBlank c = false)
    (h : readToken c (a ++ b) = some (t, a.length)) :
    lexJson (c :: (a ++ b)) = (lexJson b).map (t :: ·) := by
  show lexFrom 0 (c :: (a ++ b)) = _
  rw [lexFrom, if_neg (by simp [hc]), h]
  dsimp only
  rw [lexFrom_length]

/-- A comma. -/
theorem lexJson_comma (l : Bytes) : lexJson (0x2C :: l) = (lexJson l).map (.comma :: ·) :=
  lexJson_token (a := []) rfl rfl

/-- A colon. -/
theorem lexJson_colon (l : Bytes) : lexJson (0x3A :: l) = (lexJson l).map (.colon :: ·) :=
  lexJson_token (a := []) rfl rfl

/-- The start of an array. -/
theorem lexJson_openArr (l : Bytes) : lexJson (0x5B :: l) = (lexJson l).map (.openArr :: ·) :=
  lexJson_token (a := []) rfl rfl

/-- The end of an array. -/
theorem lexJson_closeArr (l : Bytes) : lexJson (0x5D :: l) = (lexJson l).map (.closeArr :: ·) :=
  lexJson_token (a := []) rfl rfl

/-- The start of an object. -/
theorem lexJson_openObj (l : Bytes) : lexJson (0x7B :: l) = (lexJson l).map (.openObj :: ·) :=
  lexJson_token (a := []) rfl rfl

/-- The end of an object. -/
theorem lexJson_closeObj (l : Bytes) : lexJson (0x7D :: l) = (lexJson l).map (.closeObj :: ·) :=
  lexJson_token (a := []) rfl rfl

/-- A truth value. -/
theorem lexJson_bool (b : Bool) (l : Bytes) :
    lexJson (ascii (if b then "true" else "false") ++ l) = (lexJson l).map (.bool b :: ·) := by
  cases b
  · have hread : readToken 0x66 (ascii "alse" ++ l) = some (.bool false, 4) := by
      unfold readToken
      simp
    exact lexJson_token (a := ascii "alse") rfl hread
  · have hread : readToken 0x74 (ascii "rue" ++ l) = some (.bool true, 3) := by
      unfold readToken
      simp
    exact lexJson_token (a := ascii "rue") rfl hread

/-- A string. -/
theorem lexJson_str {l body rest s : Bytes} (hscan : scanString l = some body)
    (hs : unescape none body = some s) (hl : l = body ++ 0x22 :: rest) :
    lexJson (0x22 :: l) = (lexJson rest).map (.str s :: ·) := by
  subst hl
  have happ : body ++ 0x22 :: rest = (body ++ [0x22]) ++ rest := by simp
  have hread : readToken 0x22 (body ++ 0x22 :: rest) = some (.str s, (body ++ [0x22]).length) := by
    unfold readToken
    simp [hscan, hs]
  rw [happ] at hread ⊢
  exact lexJson_token rfl hread

/-- A string in its shortest form. -/
theorem lexJson_escapeString (s rest : Bytes) :
    lexJson (0x22 :: (escapeString s ++ 0x22 :: rest)) = (lexJson rest).map (.str s :: ·) :=
  lexJson_str (scanString_escapeString s rest) (unescape_escapeString s) rfl

/-- What starts with a quotation mark is a string. -/
theorem lexJson_quote_eq_some {l : Bytes} {ts : List JsonToken}
    (h : lexJson (0x22 :: l) = some ts) :
    ∃ body rest s ts', l = body ++ 0x22 :: rest ∧ unescape none body = some s ∧
      lexJson rest = some ts' ∧ ts = .str s :: ts' := by
  cases hscan : scanString l with
  | none =>
    have hread : readToken 0x22 l = none := by
      unfold readToken
      simp [hscan]
    have hnone : lexJson (0x22 :: l) = none := by
      show lexFrom 0 (0x22 :: l) = none
      rw [lexFrom, if_neg (by decide), hread]
    rw [hnone] at h
    cases h
  | some body =>
    obtain ⟨rest, hl⟩ := scanString_eq_some hscan
    cases hs : unescape none body with
    | none =>
      have hread : readToken 0x22 l = none := by
        unfold readToken
        simp [hscan, hs]
      have hnone : lexJson (0x22 :: l) = none := by
        show lexFrom 0 (0x22 :: l) = none
        rw [lexFrom, if_neg (by decide), hread]
      rw [hnone] at h
      cases h
    | some s =>
      rw [lexJson_str hscan hs hl, Option.map_eq_some_iff] at h
      obtain ⟨ts', hts', rfl⟩ := h
      exact ⟨body, rest, s, ts', hl, hs, hts', rfl⟩

/-- A number ends in front of another byte. -/
theorem lexJson_num (n : JsonNumber) {l : Bytes}
    (hl : ∀ c, l.head? = some c → isNumberByte c = false) :
    lexJson (n.text ++ l) = (lexJson l).map (.num n :: ·) := by
  obtain ⟨text, valid⟩ := n
  obtain ⟨hall, hnum⟩ := Bool.and_eq_true_iff.mp valid
  cases text with
  | nil => exact absurd hnum (by decide)
  | cons c text =>
    have htake : (c :: (text ++ l)).takeWhile isNumberByte = c :: text := by
      have hsplit : c :: (text ++ l) = (c :: text) ++ l := rfl
      have hrest : l.takeWhile isNumberByte = [] := by
        cases l with
        | nil => rfl
        | cons d l => rw [List.takeWhile_cons, hl d rfl, if_neg Bool.false_ne_true]
      rw [hsplit, List.takeWhile_append_of_pos fun d hd ↦ List.all_eq_true.mp hall d hd, hrest,
        List.append_nil]
    have hc : isNumberByte c = true := List.all_eq_true.mp hall c List.mem_cons_self
    have hne : ∀ d : UInt8, isNumberByte d = false → c ≠ d := by
      rintro d hd rfl
      rw [hc] at hd
      cases hd
    have hread : readToken c (text ++ l) = some (.num ⟨c :: text, valid⟩, text.length) := by
      unfold readToken
      rw [if_neg (hne _ (by decide)), if_neg (hne _ (by decide)), if_neg (hne _ (by decide)),
        if_neg (hne _ (by decide)), if_neg (hne _ (by decide)), if_neg (hne _ (by decide)),
        if_neg (hne _ (by decide)), if_neg (hne _ (by decide)), if_neg (hne _ (by decide)),
        if_neg (hne _ (by decide))]
      simp only [htake, valid, ↓reduceDIte, List.length_cons, Nat.add_sub_cancel]
    refine lexJson_token ?_ hread
    unfold isJsonBlank
    simp [hne 0x20 (by decide), hne 0x09 (by decide), hne 0x0A (by decide), hne 0x0D (by decide)]

end OpenWrtCompile.Base
