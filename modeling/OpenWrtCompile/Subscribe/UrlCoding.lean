import OpenWrtCompile.Subscribe.Codec

/-!
# The importer's url coding

`urlEncode` and `UrlDecode` of the `subscribe` script. Here `get_urldecode` may fail where `tonumber`
gives `nil` or `schar` gets no byte; it never does on what `%%(%x%x)` captures.
-/

namespace OpenWrtCompile.Subscribe
open OpenWrtCompile.Base

/-- `tonumber(h,16)`, where `h` has no blanks and no sign. -/
def tonumber16 (h : Bytes) : Option Nat :=
  if h = [] then none
  else (h.mapM hexDigit?).map fun digits ↦ digits.foldl (fun n d ↦ n * 16 + d.toNat) 0

/-- `schar(n)`. -/
def schar : Option Nat → Except String UInt8
  | none => .error "bad argument #1 to 'schar' (number expected, got nil)"
  | some n => if n < 256 then .ok (UInt8.ofNat n)
    else .error "bad argument #1 to 'schar' (invalid value)"

/-- `get_urldecode(h)`. -/
def getUrldecode (h : Bytes) : Except String UInt8 := schar (tonumber16 h)

/-- `%x`. -/
def isHexDigit (c : UInt8) : Bool :=
  (0x30 ≤ c && c ≤ 0x39) || (0x41 ≤ c && c ≤ 0x46) || (0x61 ≤ c && c ≤ 0x66)

/-- `gsub("%%(%x%x)",get_urldecode)`, which fails with the function it calls. -/
def gsubEscapes : Bytes → Except String Bytes
  | 0x25 :: a :: b :: r =>
    if isHexDigit a && isHexDigit b then do
      let c ← getUrldecode [a, b]
      let rest ← gsubEscapes r
      pure (c :: rest)
    else do
      let rest ← gsubEscapes (a :: b :: r)
      pure (0x25 :: rest)
  | c :: r => do
    let rest ← gsubEscapes r
    pure (c :: rest)
  | [] => pure []

/-- `UrlDecode(szText)`, of `nil` too. -/
def urlDecodeAny : Option Bytes → Except String (Option Bytes)
  | none => pure none
  | some text => do
    let decoded ← gsubEscapes (gsubByte 0x2B 0x20 text)
    pure (some decoded)

/-- `[0-9a-zA-Z%+]`. -/
def isEncoded (c : UInt8) : Bool :=
  (0x30 ≤ c && c ≤ 0x39) || (0x61 ≤ c && c ≤ 0x7A) || (0x41 ≤ c && c ≤ 0x5A) || c = 0x25 || c = 0x2B

/-- What `%x` takes has a value, and nothing else has. -/
theorem isHexDigit_eq (c : UInt8) : isHexDigit c = (hexDigit? c).isSome := by
  have hall : ∀ k : Fin 256, isHexDigit (UInt8.ofNat k) = (hexDigit? (UInt8.ofNat k)).isSome := by
    decide +kernel
  have h := hall ⟨c.toNat, c.toNat_lt⟩
  rwa [UInt8.ofNat_toNat] at h

/-- A digit's value is below 16. -/
theorem hexDigit?_lt {c d : UInt8} (h : hexDigit? c = some d) : d.toNat < 16 := by
  have hall : ∀ k : Fin 256, ∀ v ∈ hexDigit? (UInt8.ofNat k), v.toNat < 16 := by decide +kernel
  have hc := hall ⟨c.toNat, c.toNat_lt⟩
  rw [UInt8.ofNat_toNat] at hc
  exact hc d h

/-- Two digits are a byte. -/
theorem getUrldecode_eq {a b x y : UInt8} (ha : hexDigit? a = some x) (hb : hexDigit? b = some y) :
    getUrldecode [a, b] = .ok (16 * x + y) := by
  have hx := hexDigit?_lt ha
  have hy := hexDigit?_lt hb
  have hnumber : tonumber16 [a, b] = some (x.toNat * 16 + y.toNat) := by
    simp only [tonumber16, List.mapM_cons, List.mapM_nil, ha, hb]
    show some ((0 * 16 + x.toNat) * 16 + y.toNat) = _
    rw [Nat.zero_mul, Nat.zero_add]
  have hbyte : UInt8.ofNat (x.toNat * 16 + y.toNat) = 16 * x + y := by
    rw [UInt8.ofNat_add, UInt8.ofNat_mul, UInt8.ofNat_toNat, UInt8.ofNat_toNat, UInt8.mul_comm]
    rfl
  rw [getUrldecode, hnumber, schar, if_pos (by omega), hbyte]

/-- No substitution fails. -/
theorem gsubEscapes_eq (text : Bytes) : gsubEscapes text = .ok (percentDecode text) := by
  fun_induction gsubEscapes text with
  | case1 a b r h ih =>
    rw [Bool.and_eq_true, isHexDigit_eq, isHexDigit_eq, Option.isSome_iff_exists,
      Option.isSome_iff_exists] at h
    obtain ⟨⟨x, hx⟩, ⟨y, hy⟩⟩ := h
    rw [getUrldecode_eq hx hy, ih, percentDecode, hx, hy]
    rfl
  | case2 a b r h ih =>
    rw [ih, percentDecode]
    rw [Bool.and_eq_true, isHexDigit_eq, isHexDigit_eq] at h
    split
    · rename_i hx hy
      rw [hx, hy] at h
      exact absurd ⟨rfl, rfl⟩ h
    · rfl
  | case3 c r hne ih =>
    rw [ih, percentDecode]
    · rfl
    · exact hne
  | case4 => rfl

/-- The plain bytes and the escapes have no `+`. -/
theorem gsubByte_escapeBytes_isUrlPlain (s : Bytes) :
    gsubByte 0x2B 0x20 (escapeBytes isUrlPlain s) = escapeBytes isUrlPlain s := by
  rw [gsubByte_eq_self_iff (by decide)]
  intro hmem
  obtain ⟨c, -, hc⟩ := List.mem_flatMap.mp hmem
  split at hc
  · rename_i hplain
    rw [← List.mem_singleton.mp hc] at hplain
    revert hplain
    decide
  · exact (gsubByte_eq_self_iff (by decide)).mp (gsubByte_getUrlencode c) hc

/-- Spaces written as `+` are read back where there was no `+`. -/
theorem gsubByte_gsubByte {a b : UInt8} {t : Bytes} (h : b ∉ t) :
    gsubByte b a (gsubByte a b t) = t := by
  unfold gsubByte
  rw [List.map_map]
  conv_rhs => rw [← List.map_id t]
  apply List.map_congr_left
  intro c hc
  have hcb : c ≠ b := fun he ↦ h (he ▸ hc)
  by_cases hca : c = a
  · simp [hca]
  · simp [hca, hcb]

/-- What `urlEncode` makes is undone by `UrlDecode`. -/
theorem urlDecode_urlEncode (s : Bytes) : urlDecode (urlEncode s) = s := by
  have hplus := (gsubByte_eq_self_iff (a := 0x2B) (b := 0x20) (by decide)).mp
    (gsubByte_escapeBytes_isUrlPlain s)
  have hback : gsubByte 0x2B 0x20 (urlEncode s) = escapeBytes isUrlPlain s := gsubByte_gsubByte hplus
  have hmap : s.map (fun c ↦ if c = 0x2B ∧ isUrlPlain c then 0x20 else c) = s := by
    conv_rhs => rw [← List.map_id s]
    apply List.map_congr_left
    intro c _
    rw [if_neg]
    · rfl
    · rintro ⟨rfl, hplain⟩
      revert hplain
      decide
  rw [urlDecode, hback, ← gsubByte_escapeBytes_isUrlPlain]
  exact (urlDecode_escapeBytes (by decide) s).trans hmap

/-- The characters that `urlEncode` writes. -/
theorem isEncoded_of_mem {s : Bytes} {c : UInt8} (h : c ∈ urlEncode s) : isEncoded c = true := by
  have hdigit : ∀ {n : UInt8}, n < 16 → isEncoded (hexUpper n) = true ∧ hexUpper n ≠ 0x20 := by
    intro n hn
    have hall : ∀ k : Fin 16, isEncoded (hexUpper (UInt8.ofNat k)) = true ∧
        hexUpper (UInt8.ofNat k) ≠ 0x20 := by decide
    have hk := hall ⟨n.toNat, hn⟩
    rwa [UInt8.ofNat_toNat] at hk
  obtain ⟨x, hx, rfl⟩ := List.mem_map.mp h
  obtain ⟨d, -, hd⟩ := List.mem_flatMap.mp hx
  by_cases hplain : isUrlPlain d = true
  · rw [if_pos hplain, List.mem_singleton] at hd
    rw [hd]
    split
    · decide
    · rename_i hspace
      obtain hletter | hblank := Bool.or_eq_true_iff.mp hplain
      · exact Bool.or_eq_true_iff.mpr (Or.inl (Bool.or_eq_true_iff.mpr (Or.inl hletter)))
      · exact absurd (of_decide_eq_true hblank) hspace
  · rw [if_neg hplain] at hd
    obtain ⟨hhigh, hlow, -⟩ := halves d
    simp only [getUrlencode, List.mem_cons, List.not_mem_nil, or_false] at hd
    obtain rfl | rfl | rfl := hd
    · decide
    · rw [if_neg (hdigit hhigh).2]
      exact (hdigit hhigh).1
    · rw [if_neg (hdigit hlow).2]
      exact (hdigit hlow).1

/-- The coding is undone, tells all texts apart, has only letters, digits, `%` and `+`, and is undone
without failing, whatever the text. -/
theorem url_coding :
    (∀ s : Bytes, urlDecodeAny (some (urlEncode s)) = .ok (some s)) ∧
      (∀ s t : Bytes, urlEncode s = urlEncode t → s = t) ∧
      (∀ s : Bytes, ∀ c ∈ urlEncode s, isEncoded c = true) ∧
      ∀ text : Option Bytes, urlDecodeAny text = .ok (text.map urlDecode) := by
  have hany : ∀ text : Option Bytes, urlDecodeAny text = .ok (text.map urlDecode) := by
    intro text
    cases text with
    | none => rfl
    | some text =>
      rw [urlDecodeAny, gsubEscapes_eq]
      rfl
  refine ⟨fun s ↦ ?_, fun s t h ↦ ?_, fun s c hc ↦ isEncoded_of_mem hc, hany⟩
  · rw [hany, Option.map_some, urlDecode_urlEncode]
  · rw [← urlDecode_urlEncode s, h, urlDecode_urlEncode]

end OpenWrtCompile.Subscribe
