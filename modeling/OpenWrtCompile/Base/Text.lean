import OpenWrtCompile.Base.Bytes

/-!
# Texts and their bytes

A text is a list of characters. `utf8` is its encoding; `latin1` takes the codes of characters below
256 as bytes, and `binary` is the text with given codes.
-/

namespace OpenWrtCompile.Base

/-- A text, as the list of its characters. -/
abbrev Text := List Char

/-- The UTF-8 bytes of a text. -/
def utf8 (s : Text) : Bytes := s.flatMap String.utf8EncodeChar

/-- The codes of a text whose characters are below 256. -/
def latin1 (s : Text) : Bytes := s.map fun c ↦ UInt8.ofNat c.toNat

/-- The text whose codes are given. -/
def binary (b : Bytes) : Text := b.map fun c ↦ Char.ofNat c.toNat

/-- Every character is below 128. -/
def IsAscii (s : Text) : Prop := ∀ c ∈ s, c.toNat < 128

/-- Every byte is below 128. -/
def Below128 (b : Bytes) : Prop := ∀ c ∈ b, c < 128

/-- The encoding of nothing. -/
@[simp] theorem utf8_nil : utf8 [] = [] := rfl

/-- The encoding of two texts. -/
@[simp] theorem utf8_append (s t : Text) : utf8 (s ++ t) = utf8 s ++ utf8 t := List.flatMap_append

/-- The encoding behind a character. -/
theorem utf8_cons (c : Char) (s : Text) : utf8 (c :: s) = String.utf8EncodeChar c ++ utf8 s :=
  List.flatMap_cons

/-- Only nothing is encoded as nothing. -/
@[simp] theorem utf8_eq_nil {s : Text} : utf8 s = [] ↔ s = [] := by
  cases s with
  | nil => simp
  | cons c s =>
    rw [utf8_cons]
    simp

/-- A character below 128 is one byte. -/
theorem utf8EncodeChar_of_lt {c : Char} (h : c.toNat < 128) :
    String.utf8EncodeChar c = [UInt8.ofNat c.toNat] := by
  have hval : c.val.toNat ≤ 0x7f := Nat.le_of_lt_succ h
  unfold String.utf8EncodeChar
  rw [if_pos hval]
  rfl

/-- The bytes of a character from 128 on are not below 128. -/
theorem le_of_mem_utf8EncodeChar {c : Char} (h : ¬ c.toNat < 128) {b : UInt8}
    (hb : b ∈ String.utf8EncodeChar c) : 128 ≤ b.toNat := by
  have hval : ¬ c.val.toNat ≤ 0x7f := fun hc ↦ h (Nat.lt_succ_of_le hc)
  have hbound : c.val.toNat < 0x110000 := by
    have := c.valid
    rcases this with hlow | hhigh <;> omega
  unfold String.utf8EncodeChar at hb
  rw [if_neg hval] at hb
  split_ifs at hb <;> simp only [List.mem_cons, List.not_mem_nil, or_false] at hb <;>
    rcases hb with rfl | rfl | rfl | rfl <;> simp only [UInt8.toNat_ofNat'] <;> omega

/-- A character from 128 on has more than one byte. -/
theorem one_lt_length_utf8EncodeChar {c : Char} (h : ¬ c.toNat < 128) :
    1 < (String.utf8EncodeChar c).length := by
  have hval : ¬ c.val.toNat ≤ 0x7f := fun hc ↦ h (Nat.lt_succ_of_le hc)
  unfold String.utf8EncodeChar
  rw [if_neg hval]
  split_ifs <;> simp

/-- A text of characters below 128 is its codes. -/
theorem utf8_of_isAscii {s : Text} (h : IsAscii s) : utf8 s = latin1 s := by
  induction s with
  | nil => rfl
  | cons c s ih =>
    rw [utf8_cons, utf8EncodeChar_of_lt (h c List.mem_cons_self),
      ih fun x hx ↦ h x (List.mem_cons_of_mem c hx)]
    rfl

/-- No text is shorter encoded than in characters. -/
theorem length_le_utf8 (s : Text) : s.length ≤ (utf8 s).length := by
  induction s with
  | nil => exact Nat.le_refl 0
  | cons c s ih =>
    have hpos : 0 < (String.utf8EncodeChar c).length :=
      List.length_pos_iff.mpr String.utf8EncodeChar_ne_nil
    rw [utf8_cons, List.length_append, List.length_cons]
    omega

/-- A text with one byte for each character has characters below 128 only. -/
theorem isAscii_of_length {s : Text} (h : (utf8 s).length ≤ s.length) : IsAscii s := by
  induction s with
  | nil => exact fun c hc ↦ absurd hc List.not_mem_nil
  | cons c s ih =>
    rw [utf8_cons, List.length_append, List.length_cons] at h
    have hrest := length_le_utf8 s
    have hc : c.toNat < 128 := by
      by_contra hc
      have := one_lt_length_utf8EncodeChar hc
      omega
    rw [utf8EncodeChar_of_lt hc, List.length_singleton] at h
    intro x hx
    obtain rfl | hx := List.mem_cons.mp hx
    · exact hc
    · exact ih (by omega) x hx

/-- The bytes from 128 on. -/
def high (b : Bytes) : Nat := b.countP fun c ↦ 128 ≤ c.toNat

/-- The bytes from 128 on of two parts. -/
@[simp] theorem high_append (a b : Bytes) : high (a ++ b) = high a + high b := List.countP_append

/-- A part has no more of them. -/
theorem high_le {a b : Bytes} (h : a <:+: b) : high a ≤ high b := h.sublist.countP_le

/-- There are none where all bytes are below 128. -/
theorem high_eq_zero {b : Bytes} (h : Below128 b) : high b = 0 := by
  rw [high, List.countP_eq_zero]
  intro c hc
  have hlt : c.toNat < 128 := h c hc
  simp only [decide_eq_true_eq]
  omega

/-- A text of codes below 256 whose encoding has no more bytes from 128 on than its codes has
characters below 128 only: each other character has two of them. -/
theorem isAscii_of_high {s : Text} (hs : ∀ c ∈ s, c.toNat < 256)
    (h : high (utf8 s) ≤ high (latin1 s)) : IsAscii s := by
  have hchar : ∀ c : Char, c.toNat < 256 → ¬ c.toNat < 128 →
      high [UInt8.ofNat c.toNat] = 1 ∧ 1 < high (String.utf8EncodeChar c) := by
    intro c hc hge
    constructor
    · have hcode : (UInt8.ofNat c.toNat).toNat = c.toNat := by
        rw [UInt8.toNat_ofNat']
        omega
      rw [high, List.countP_singleton, hcode, if_pos (by simpa using hge)]
    · have hall : high (String.utf8EncodeChar c) = (String.utf8EncodeChar c).length := by
        rw [high, List.countP_eq_length]
        intro b hb
        simpa using le_of_mem_utf8EncodeChar hge hb
      rw [hall]
      exact one_lt_length_utf8EncodeChar hge
  have hle : ∀ t : Text, (∀ c ∈ t, c.toNat < 256) → high (latin1 t) ≤ high (utf8 t) := by
    intro t ht
    induction t with
    | nil => exact Nat.le_refl 0
    | cons c t ih =>
      have hrest := ih fun x hx ↦ ht x (List.mem_cons_of_mem c hx)
      have hcut : latin1 (c :: t) = [UInt8.ofNat c.toNat] ++ latin1 t := rfl
      rw [utf8_cons, hcut, high_append, high_append]
      by_cases hc : c.toNat < 128
      · rw [utf8EncodeChar_of_lt hc]
        omega
      · have := hchar c (ht c List.mem_cons_self) hc
        omega
  induction s with
  | nil => exact fun c hc ↦ absurd hc List.not_mem_nil
  | cons c s ih =>
    have hrest := hle s fun x hx ↦ hs x (List.mem_cons_of_mem c hx)
    have hcut : latin1 (c :: s) = [UInt8.ofNat c.toNat] ++ latin1 s := rfl
    rw [utf8_cons, hcut, high_append, high_append] at h
    have hc : c.toNat < 128 := by
      by_contra hc
      have := hchar c (hs c List.mem_cons_self) hc
      omega
    rw [utf8EncodeChar_of_lt hc] at h
    intro x hx
    obtain rfl | hx := List.mem_cons.mp hx
    · exact hc
    · exact ih (fun y hy ↦ hs y (List.mem_cons_of_mem c hy)) (by omega) x hx

/-- The characters of a binary text. -/
theorem toNat_ofNat_byte (c : UInt8) : (Char.ofNat c.toNat).toNat = c.toNat := by
  have hvalid : c.toNat.isValidChar := Or.inl (by have := c.toNat_lt; omega)
  rw [Char.ofNat, dif_pos hvalid]
  rfl

/-- The codes of a binary text. -/
@[simp] theorem latin1_binary (b : Bytes) : latin1 (binary b) = b := by
  unfold latin1 binary
  rw [List.map_map]
  conv_rhs => rw [← List.map_id b]
  apply List.map_congr_left
  intro c _
  simp only [Function.comp_apply, toNat_ofNat_byte, UInt8.ofNat_toNat, id_eq]

/-- A binary text of bytes below 128 has these bytes. -/
theorem utf8_binary {b : Bytes} (h : Below128 b) : utf8 (binary b) = b := by
  have hascii : IsAscii (binary b) := by
    intro c hc
    obtain ⟨x, hx, rfl⟩ := List.mem_map.mp hc
    rw [toNat_ofNat_byte]
    exact h x hx
  rw [utf8_of_isAscii hascii, latin1_binary]

/-- A byte below 128 stands in the encoding where its character stands in the text. -/
theorem mem_utf8 {s : Text} {c : Char} (h : c.toNat < 128) :
    UInt8.ofNat c.toNat ∈ utf8 s ↔ c ∈ s := by
  unfold utf8
  rw [List.mem_flatMap]
  constructor
  · rintro ⟨x, hx, hc⟩
    by_cases hlow : x.toNat < 128
    · rw [utf8EncodeChar_of_lt hlow, List.mem_singleton] at hc
      have hcode : c.toNat = x.toNat := by
        have hmod := congrArg UInt8.toNat hc
        simp only [UInt8.toNat_ofNat'] at hmod
        omega
      rwa [Char.toNat_inj.mp hcode]
    · have hge := le_of_mem_utf8EncodeChar hlow hc
      simp only [UInt8.toNat_ofNat'] at hge
      omega
  · intro hc
    exact ⟨c, hc, by rw [utf8EncodeChar_of_lt h]; exact List.mem_singleton_self _⟩

/-- The characters with given codes below 256 are the text. -/
theorem binary_latin1 {s : Text} (hs : ∀ c ∈ s, c.toNat < 256) : binary (latin1 s) = s := by
  unfold latin1 binary
  rw [List.map_map]
  conv_rhs => rw [← List.map_id s]
  apply List.map_congr_left
  intro c hc
  have hcode : (UInt8.ofNat c.toNat).toNat = c.toNat := by
    rw [UInt8.toNat_ofNat']
    have := hs c hc
    omega
  rw [Function.comp_apply, hcode, Char.ofNat_toNat, id_eq]

/-- Bytes below 128 that stand in the codes of a text stand in its encoding. -/
theorem infix_utf8_of_latin1 {s : Text} (hs : ∀ c ∈ s, c.toNat < 256) {b : Bytes}
    (hb : Below128 b) (h : b <:+: latin1 s) : b <:+: utf8 s := by
  obtain ⟨x, y, hxy⟩ := h
  have htext : s = binary x ++ binary b ++ binary y := by
    rw [← binary_latin1 hs, ← hxy]
    simp only [binary, List.map_append]
  rw [htext, utf8_append, utf8_append, utf8_binary hb]
  exact List.infix_append _ _ _

/-- Texts with the same encoding are the same. -/
theorem utf8_inj {s t : Text} : utf8 s = utf8 t ↔ s = t := by
  constructor
  · intro h
    have hbytes : (String.ofList s).toByteArray = (String.ofList t).toByteArray := by
      show s.utf8Encode = t.utf8Encode
      exact congrArg List.toByteArray h
    have hlist := congrArg String.toList (String.toByteArray_inj.mp hbytes)
    rwa [String.toList_ofList, String.toList_ofList] at hlist
  · rintro rfl
    rfl

end OpenWrtCompile.Base
