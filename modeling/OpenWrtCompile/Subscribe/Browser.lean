import OpenWrtCompile.Base.Base64
import OpenWrtCompile.Base.Text
import OpenWrtCompile.Subscribe.Lua

/-!
# Strings of the browser

What `luasrc/view/overwall/url.htm:1–49` and `buildUrl` use of the browser: `encodeURI`,
`encodeURIComponent`, `btoa` and `JSON.stringify`. A string without a lone surrogate is the text of its
characters.
-/

namespace OpenWrtCompile.Subscribe
open OpenWrtCompile.Base

/-- A literal. -/
def text (s : String) : Text := s.toList

/-- A letter or a digit. -/
def isAlnum (c : UInt8) : Bool :=
  (0x30 ≤ c && c ≤ 0x39) || (0x61 ≤ c && c ≤ 0x7A) || (0x41 ≤ c && c ≤ 0x5A)

/-- What `encodeURIComponent` leaves: letters, digits and `-_.!~*'()`. -/
def isUnescaped (c : UInt8) : Bool :=
  isAlnum c || c ∈ [0x2D, 0x5F, 0x2E, 0x21, 0x7E, 0x2A, 0x27, 0x28, 0x29]

/-- What `encodeURI` leaves besides: `;/?:@&=+$,#`. -/
def isReserved (c : UInt8) : Bool :=
  c ∈ [0x3B, 0x2F, 0x3F, 0x3A, 0x40, 0x26, 0x3D, 0x2B, 0x24, 0x2C, 0x23]

/-- What `encodeURI` leaves. -/
def isKept (c : UInt8) : Bool := isUnescaped c || isReserved c

/-- A character below 128 that is left. -/
def leaves (kept : UInt8 → Bool) (c : Char) : Bool :=
  c.toNat < 128 && kept (UInt8.ofNat c.toNat)

/-- A text in which every byte of every other character is written `%XX`. -/
def escape (kept : UInt8 → Bool) (s : Text) : Text :=
  s.flatMap fun c ↦
    if leaves kept c then [c] else binary ((String.utf8EncodeChar c).flatMap getUrlencode)

/-- `encodeURI(s)`. -/
def encodeURI (s : Text) : Text := escape isKept s

/-- `encodeURIComponent(s)`. -/
def encodeURIComponent (s : Text) : Text := escape isUnescaped s

/-- `btoa(s)`; it throws where a code is above 255. -/
def btoa (s : Text) : Option Text :=
  if s.all fun c ↦ c.toNat < 256 then some (binary (Base64.padded (latin1 s))) else none

/-- `[0-9A-F]`. -/
def hexUpper? (c : Char) : Option Nat :=
  if '0' ≤ c ∧ c ≤ '9' then some (c.toNat - 0x30)
  else if 'A' ≤ c ∧ c ≤ 'F' then some (c.toNat - 0x41 + 10)
  else none

/-- `.replace(/%([0-9A-F]{2})/g,…)` of `b64EncodeUnicode`. -/
def fromHex : Text → Text
  | '%' :: a :: b :: rest =>
    match hexUpper? a, hexUpper? b with
    | some x, some y => Char.ofNat (16 * x + y) :: fromHex rest
    | _, _ => '%' :: fromHex (a :: b :: rest)
  | c :: rest => c :: fromHex rest
  | [] => []

/-- `b64EncodeUnicode(str)`. -/
def b64EncodeUnicode (s : Text) : Option Text := btoa (fromHex (encodeURIComponent s))

/-- `.replace(/\+/g,"-").replace(/\//g,"_").replace(/=+$/g,'')`. -/
def urlSafe (s : Text) : Text :=
  ((s.map fun c ↦ if c = '+' then '-' else c).map fun c ↦ if c = '/' then '_' else c).rdropWhile
    (· = '=')

/-- `b64encutf8safe(str)`. -/
def b64encutf8safe (s : Text) : Option Text := (b64EncodeUnicode s).map urlSafe

/-- `b64encsafe(str)`. -/
def b64encsafe (s : Text) : Option Text := (btoa s).map urlSafe

/-- `%x` of a value below 16. -/
def hexLower (n : Nat) : Char := if n < 10 then Char.ofNat (0x30 + n) else Char.ofNat (0x61 + (n - 10))

/-- One character of a JSON string; 22 is the code of a quotation mark, 5C of a backslash. -/
def quoteChar (c : Char) : Text :=
  let backslash := Char.ofNat 0x5C
  if c.toNat = 0x22 ∨ c.toNat = 0x5C then [backslash, c]
  else if c.toNat = 8 then [backslash, 'b']
  else if c.toNat = 9 then [backslash, 't']
  else if c.toNat = 10 then [backslash, 'n']
  else if c.toNat = 12 then [backslash, 'f']
  else if c.toNat = 13 then [backslash, 'r']
  else if c.toNat < 32 then
    [backslash, 'u', '0', '0', hexLower (c.toNat / 16), hexLower (c.toNat % 16)]
  else [c]

/-- A JSON string. -/
def quote (s : Text) : Text := Char.ofNat 0x22 :: s.flatMap quoteChar ++ [Char.ofNat 0x22]

/-- `JSON.stringify(info)` of an object whose values are strings. -/
def stringify (info : List (String × Text)) : Text :=
  Char.ofNat 0x7B :: List.intercalate [','] (info.map fun p ↦ quote (text p.1) ++ ':' :: quote p.2) ++
    [Char.ofNat 0x7D]

/-- The bytes of `escape`. -/
def escapeBytes (kept : UInt8 → Bool) (b : Bytes) : Bytes :=
  b.flatMap fun c ↦ if kept c then [c] else getUrlencode c

/-- A digit is below 128. -/
theorem hexUpper_lt {n : UInt8} (h : n < 16) : hexUpper n < 128 := by
  have hall : ∀ k : Fin 16, hexUpper (UInt8.ofNat k) < 128 := by decide
  have hn := hall ⟨n.toNat, h⟩
  rwa [UInt8.ofNat_toNat] at hn

/-- An escaped byte is written with bytes below 128. -/
theorem below128_getUrlencode (c : UInt8) : Below128 (getUrlencode c) := by
  have hhigh : c / 16 < 16 := by
    rw [UInt8.lt_iff_toNat_lt, UInt8.toNat_div]
    have := c.toNat_lt
    show c.toNat / 16 < 16
    omega
  have hlow : c % 16 < 16 := by
    rw [UInt8.lt_iff_toNat_lt, UInt8.toNat_mod]
    exact Nat.mod_lt _ (by decide)
  intro x hx
  simp only [getUrlencode, List.mem_cons, List.not_mem_nil, or_false] at hx
  obtain rfl | rfl | rfl := hx
  · decide
  · exact hexUpper_lt hhigh
  · exact hexUpper_lt hlow

/-- The bytes of an escaped text are those of its UTF-8 bytes, escaped. -/
theorem utf8_escape {kept : UInt8 → Bool} (hkept : ∀ c, kept c = true → c < 128) (s : Text) :
    utf8 (escape kept s) = escapeBytes kept (utf8 s) := by
  induction s with
  | nil => rfl
  | cons c s ih =>
    have htail : utf8 (escape kept (c :: s)) =
        utf8 (if leaves kept c then [c] else binary ((String.utf8EncodeChar c).flatMap getUrlencode))
          ++ escapeBytes kept (utf8 s) := by
      rw [← ih, ← utf8_append]
      rfl
    rw [htail, utf8_cons, escapeBytes, escapeBytes, List.flatMap_append]
    congr 1
    by_cases hlow : c.toNat < 128
    · rw [utf8EncodeChar_of_lt hlow]
      simp only [leaves, hlow, decide_true, Bool.true_and, List.flatMap_cons, List.flatMap_nil,
        List.append_nil]
      split
      · rw [utf8_cons, utf8EncodeChar_of_lt hlow]
        rfl
      · exact utf8_binary (below128_getUrlencode _)
    · simp only [leaves, hlow, decide_false, Bool.false_and, Bool.false_eq_true, if_false]
      rw [utf8_binary]
      · apply List.flatMap_congr
        intro x hx
        have hge := le_of_mem_utf8EncodeChar hlow hx
        rw [if_neg]
        intro hk
        exact absurd (hkept x hk) (not_lt.mpr hge)
      · intro x hx
        obtain ⟨y, -, hy⟩ := List.mem_flatMap.mp hx
        exact below128_getUrlencode y x hy

end OpenWrtCompile.Subscribe
