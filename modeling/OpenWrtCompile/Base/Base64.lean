import OpenWrtCompile.Base.Bytes

/-!
# Base64

Bytes as characters for six bits each, without padding (`encode`), and back (`decode`). `padded` fills
up the last group with `=`.
-/

namespace OpenWrtCompile.Base.Base64

/-- The character of a value below 64. -/
def symbol (n : Nat) : UInt8 :=
  if n < 26 then UInt8.ofNat (0x41 + n)
  else if n < 52 then UInt8.ofNat (0x61 + (n - 26))
  else if n < 62 then UInt8.ofNat (0x30 + (n - 52))
  else if n = 62 then 0x2B
  else 0x2F

/-- The value of a character. -/
def value? (c : UInt8) : Option Nat :=
  if 0x41 ≤ c ∧ c ≤ 0x5A then some (c.toNat - 0x41)
  else if 0x61 ≤ c ∧ c ≤ 0x7A then some (c.toNat - 0x61 + 26)
  else if 0x30 ≤ c ∧ c ≤ 0x39 then some (c.toNat - 0x30 + 52)
  else if c = 0x2B then some 62
  else if c = 0x2F then some 63
  else none

/-- The characters of a byte string, three bytes in four of them. -/
def encode : Bytes → Bytes
  | [] => []
  | [a] => [symbol (a.toNat / 4), symbol (a.toNat % 4 * 16)]
  | [a, b] =>
    [symbol (a.toNat / 4), symbol (a.toNat % 4 * 16 + b.toNat / 16), symbol (b.toNat % 16 * 4)]
  | a :: b :: c :: rest =>
    symbol (a.toNat / 4) :: symbol (a.toNat % 4 * 16 + b.toNat / 16) ::
      symbol (b.toNat % 16 * 4 + c.toNat / 64) :: symbol (c.toNat % 64) :: encode rest

/-- The bytes behind values of six bits. -/
def join : List Nat → Option Bytes
  | [] => some []
  | [_] => none
  | [x, y] => some [UInt8.ofNat (x * 4 + y / 16)]
  | [x, y, z] => some [UInt8.ofNat (x * 4 + y / 16), UInt8.ofNat (y % 16 * 16 + z / 4)]
  | x :: y :: z :: w :: rest => do
    let bytes ← join rest
    some (UInt8.ofNat (x * 4 + y / 16) :: UInt8.ofNat (y % 16 * 16 + z / 4) ::
      UInt8.ofNat (z % 4 * 64 + w) :: bytes)

/-- The bytes of a text; `none` where a character has no value or a group has one character only. -/
def decode (text : Bytes) : Option Bytes := (text.mapM value?).bind join

/-- The text with its padding. -/
def padded (data : Bytes) : Bytes :=
  encode data ++ List.replicate ((4 - (encode data).length % 4) % 4) 0x3D

/-- Each of the 64 characters has its value. -/
theorem value?_symbol {n : Nat} (h : n < 64) : value? (symbol n) = some n := by
  have hall : ∀ k : Fin 64, value? (symbol k) = some k.val := by decide
  exact hall ⟨n, h⟩

/-- A text is taken apart behind its first character. -/
theorem mapM_value?_cons {n : Nat} (h : n < 64) (rest : Bytes) :
    (symbol n :: rest).mapM value? = (rest.mapM value?).map (n :: ·) := by
  rw [List.mapM_cons, value?_symbol h]
  cases rest.mapM value? <;> rfl

/-- A byte from its upper six bits and its lower two. -/
theorem byte_of_six_two (a : UInt8) {k : Nat} (h : k < 16) :
    UInt8.ofNat (a.toNat / 4 * 4 + (a.toNat % 4 * 16 + k) / 16) = a := by
  have hval : a.toNat / 4 * 4 + (a.toNat % 4 * 16 + k) / 16 = a.toNat := by omega
  rw [hval, UInt8.ofNat_toNat]

/-- A byte from its upper four bits and its lower four. -/
theorem byte_of_four_four (a : Nat) (b : UInt8) {k : Nat} (h : k < 4) :
    UInt8.ofNat ((a * 16 + b.toNat / 16) % 16 * 16 + (b.toNat % 16 * 4 + k) / 4) = b := by
  have hb := b.toNat_lt
  have hval : (a * 16 + b.toNat / 16) % 16 * 16 + (b.toNat % 16 * 4 + k) / 4 = b.toNat := by omega
  rw [hval, UInt8.ofNat_toNat]

/-- A byte from its upper two bits and its lower six. -/
theorem byte_of_two_six (b : Nat) (c : UInt8) :
    UInt8.ofNat ((b * 4 + c.toNat / 64) % 4 * 64 + c.toNat % 64) = c := by
  have hc := c.toNat_lt
  have hval : (b * 4 + c.toNat / 64) % 4 * 64 + c.toNat % 64 = c.toNat := by omega
  rw [hval, UInt8.ofNat_toNat]

/-- What has been encoded is decoded. -/
theorem decode_encode (data : Bytes) : decode (encode data) = some data := by
  unfold decode
  fun_induction encode data with
  | case1 => rfl
  | case2 a =>
    have ha := a.toNat_lt
    rw [mapM_value?_cons (by omega), mapM_value?_cons (by omega)]
    have hbyte := byte_of_six_two a (by omega : 0 < 16)
    rw [Nat.add_zero] at hbyte
    show some [_] = some [a]
    rw [hbyte]
  | case3 a b =>
    have ha := a.toNat_lt
    have hb := b.toNat_lt
    rw [mapM_value?_cons (by omega), mapM_value?_cons (by omega), mapM_value?_cons (by omega)]
    have hlast := byte_of_four_four (a.toNat % 4) b (by omega : 0 < 4)
    rw [Nat.add_zero] at hlast
    show some [_, _] = some [a, b]
    rw [byte_of_six_two a (by omega), hlast]
  | case4 a b c rest ih =>
    have ha := a.toNat_lt
    have hb := b.toNat_lt
    have hc := c.toNat_lt
    rw [mapM_value?_cons (by omega), mapM_value?_cons (by omega), mapM_value?_cons (by omega),
      mapM_value?_cons (by omega)]
    cases hrest : (encode rest).mapM value? with
    | none =>
      rw [hrest] at ih
      cases ih
    | some values =>
      rw [hrest] at ih
      have hjoin : join values = some rest := ih
      simp only [Option.map_some, Option.bind_some, join, hjoin]
      rw [byte_of_six_two a (by omega), byte_of_four_four (a.toNat % 4) b (by omega),
        byte_of_two_six (b.toNat % 16) c]
      rfl

/-- Every character of a text is one of the 64. -/
theorem isSome_of_mem_encode {data : Bytes} {c : UInt8} (h : c ∈ encode data) :
    (value? c).isSome := by
  have hsymbol : ∀ {n : Nat}, n < 64 → ∀ {x : UInt8}, x = symbol n → (value? x).isSome := by
    intro n hn x hx
    rw [hx, value?_symbol hn]
    rfl
  fun_induction encode data with
  | case1 => cases h
  | case2 a =>
    have ha := a.toNat_lt
    simp only [List.mem_cons, List.not_mem_nil, or_false] at h
    obtain h | h := h <;> exact hsymbol (by omega) h
  | case3 a b =>
    have ha := a.toNat_lt
    have hb := b.toNat_lt
    simp only [List.mem_cons, List.not_mem_nil, or_false] at h
    obtain h | h | h := h <;> exact hsymbol (by omega) h
  | case4 a b c rest ih =>
    have ha := a.toNat_lt
    have hb := b.toNat_lt
    have hc := c.toNat_lt
    simp only [List.mem_cons] at h
    obtain h | h | h | h | h := h
    · exact hsymbol (by omega) h
    · exact hsymbol (by omega) h
    · exact hsymbol (by omega) h
    · exact hsymbol (by omega) h
    · exact ih h

/-- A text is longer than its bytes. -/
theorem length_lt_encode {data : Bytes} (h : data ≠ []) : data.length < (encode data).length := by
  fun_induction encode data with
  | case1 => exact absurd rfl h
  | case2 a => exact Nat.one_lt_two
  | case3 a b => exact Nat.lt_succ_self 2
  | case4 a b c rest ih =>
    simp only [List.length_cons]
    by_cases hrest : rest = []
    · rw [hrest]
      decide
    · have := ih hrest
      omega

/-- A text with a foreign character is not decoded. -/
theorem decode_eq_none {text : Bytes} {c : UInt8} (hc : c ∈ text) (h : value? c = none) :
    decode text = none := by
  have hnone : text.mapM value? = none := by
    induction text with
    | nil => cases hc
    | cons x rest ih =>
      rw [List.mapM_cons]
      obtain rfl | hrest := List.mem_cons.mp hc
      · rw [h]
        rfl
      · rw [ih hrest]
        cases value? x <;> rfl
  rw [decode, hnone]
  rfl

/-- The padding fills up the last group. -/
theorem length_padded_mod (data : Bytes) : (padded data).length % 4 = 0 := by
  rw [padded, List.length_append, List.length_replicate]
  omega

end OpenWrtCompile.Base.Base64
