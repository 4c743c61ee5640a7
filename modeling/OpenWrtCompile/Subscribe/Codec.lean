import OpenWrtCompile.Subscribe.Browser
import OpenWrtCompile.Subscribe.Wellformed

/-!
# What the script reads of what the browser has written

`UrlDecode` after `encodeURI` and `encodeURIComponent`, and `base64Decode` after `b64encsafe` and
`b64EncodeUnicode`. A `+` is left by `encodeURI` and comes out as a space; a zero byte does not come
out of base64.
-/

namespace OpenWrtCompile.Subscribe
open OpenWrtCompile.Base

/-- `nixio.bin.b64decode`, as `base64Decode` relies on it: base64 text is decoded, also where a whole
group of padding follows it, and a text with a foreign character is not. -/
structure Decodes64 (decode : Bytes → Option Bytes) : Prop where
  padded : ∀ data, decode (Base64.padded data) = some data
  trailing : ∀ data, decode (Base64.padded data ++ ascii "====") = some data
  foreign : ∀ t, ∀ c ∈ t, Base64.value? c = none → c ≠ 0x3D → decode t = none

/-- A byte that starts no escape is passed over. -/
theorem percentDecode_cons_ne {c : UInt8} (h : c ≠ 0x25) (r : Bytes) :
    percentDecode (c :: r) = c :: percentDecode r := by
  rw [percentDecode]
  intro a b r' hc
  exact absurd hc h

/-- The digits of a byte. -/
theorem hexDigit_hexUpper {n : UInt8} (h : n < 16) : hexDigit? (hexUpper n) = some n := by
  have hall : ∀ k : Fin 16, hexDigit? (hexUpper (UInt8.ofNat k)) = some (UInt8.ofNat k) := by decide
  have hn := hall ⟨n.toNat, h⟩
  rwa [UInt8.ofNat_toNat] at hn

/-- The two halves of a byte. -/
theorem halves (c : UInt8) : c / 16 < 16 ∧ c % 16 < 16 ∧ 16 * (c / 16) + c % 16 = c := by
  have hc := c.toNat_lt
  refine ⟨?_, ?_, ?_⟩
  · show c.toNat / 16 < 16
    omega
  · rw [UInt8.lt_iff_toNat_lt, UInt8.toNat_mod]
    exact Nat.mod_lt _ (by decide)
  · apply UInt8.toNat_inj.mp
    rw [UInt8.toNat_add, UInt8.toNat_mul, UInt8.toNat_div, UInt8.toNat_mod]
    show (16 * (c.toNat / 16) % 2 ^ 8 + c.toNat % 16) % 2 ^ 8 = c.toNat
    omega

/-- An escape is decoded. -/
theorem percentDecode_getUrlencode (c : UInt8) (r : Bytes) :
    percentDecode (getUrlencode c ++ r) = c :: percentDecode r := by
  obtain ⟨hhigh, hlow, hc⟩ := halves c
  rw [getUrlencode, List.cons_append, List.cons_append, List.cons_append, List.nil_append,
    percentDecode, hexDigit_hexUpper hhigh, hexDigit_hexUpper hlow]
  simp only
  rw [hc]

/-- An escape has no `+`. -/
theorem gsubByte_getUrlencode (c : UInt8) :
    gsubByte 0x2B 0x20 (getUrlencode c) = getUrlencode c := by
  have hdigit : ∀ {n : UInt8}, n < 16 → hexUpper n ≠ 0x2B := by
    intro n hn
    have hall : ∀ k : Fin 16, hexUpper (UInt8.ofNat k) ≠ 0x2B := by decide
    have h := hall ⟨n.toNat, hn⟩
    rwa [UInt8.ofNat_toNat] at h
  obtain ⟨hhigh, hlow, -⟩ := halves c
  simp only [gsubByte, getUrlencode, List.map_cons, List.map_nil, hdigit hhigh, hdigit hlow,
    if_false]
  rfl

/-- What `UrlDecode` makes of an escaped text: a `+` that was left is a space. -/
theorem urlDecode_escapeBytes {kept : UInt8 → Bool} (h : kept 0x25 = false) (b : Bytes) :
    urlDecode (escapeBytes kept b) = b.map fun c ↦ if c = 0x2B ∧ kept c then 0x20 else c := by
  unfold urlDecode
  induction b with
  | nil => rfl
  | cons c b ih =>
    have hcut : gsubByte 0x2B 0x20 (escapeBytes kept (c :: b)) =
        gsubByte 0x2B 0x20 (if kept c then [c] else getUrlencode c) ++
          gsubByte 0x2B 0x20 (escapeBytes kept b) := by
      unfold escapeBytes gsubByte
      rw [List.flatMap_cons, List.map_append]
    rw [hcut, List.map_cons, ← ih]
    cases hk : kept c with
    | false =>
      simp only [Bool.false_eq_true, if_false, and_false]
      rw [gsubByte_getUrlencode, percentDecode_getUrlencode]
    | true =>
      simp only [if_true, and_true]
      have hc : c ≠ 0x25 := by
        rintro rfl
        rw [h] at hk
        cases hk
      apply percentDecode_cons_ne
      show (if c = 0x2B then 0x20 else c) ≠ 0x25
      split
      · decide
      · exact hc

/-- `encodeURIComponent` is undone. -/
theorem urlDecode_unescaped (b : Bytes) : urlDecode (escapeBytes isUnescaped b) = b := by
  rw [urlDecode_escapeBytes (by decide)]
  conv_rhs => rw [← List.map_id b]
  apply List.map_congr_left
  intro c _
  rw [if_neg]
  · rfl
  · rintro ⟨rfl, hk⟩
    revert hk
    decide

/-- `encodeURI` is undone but for each `+`. -/
theorem urlDecode_kept (b : Bytes) : urlDecode (escapeBytes isKept b) = gsubByte 0x2B 0x20 b := by
  rw [urlDecode_escapeBytes (by decide)]
  apply List.map_congr_left
  intro c _
  by_cases hc : c = 0x2B
  · rw [hc]
    decide
  · rw [if_neg (fun h ↦ hc h.1), if_neg hc]

/-- A substitution leaves what has no such byte, and nothing else. -/
theorem gsubByte_eq_self_iff {a b : UInt8} (h : a ≠ b) {t : Bytes} : gsubByte a b t = t ↔ a ∉ t := by
  unfold gsubByte
  induction t with
  | nil => simp
  | cons c t ih =>
    rw [List.map_cons, List.cons.injEq, ih, List.mem_cons, not_or]
    by_cases hc : c = a
    · rw [if_pos hc, hc]
      exact iff_of_false (fun hcon ↦ h hcon.1.symm) (fun hcon ↦ hcon.1 rfl)
    · rw [if_neg hc]
      exact and_congr_left fun _ ↦ iff_of_true rfl (Ne.symm hc)

/-- A group is not begun with one character only. -/
theorem length_encode_mod (data : Bytes) : (Base64.encode data).length % 4 ≠ 1 := by
  fun_induction Base64.encode data with
  | case1 => decide
  | case2 a => exact Nat.succ_succ_ne_one 0
  | case3 a b => exact Nat.succ_succ_ne_one 1
  | case4 a b c rest ih =>
    simp only [List.length_cons]
    omega

/-- `base64Decode` fills up a text without padding. -/
theorem fill_encode (data : Bytes) :
    Base64.encode data ++ (ascii "====").drop ((Base64.encode data).length % 4) =
        Base64.padded data ∨
      Base64.encode data ++ (ascii "====").drop ((Base64.encode data).length % 4) =
        Base64.padded data ++ ascii "====" := by
  have hne := length_encode_mod data
  have hlt : (Base64.encode data).length % 4 < 4 := Nat.mod_lt _ (by decide)
  unfold Base64.padded
  generalize (Base64.encode data).length % 4 = k at hne hlt
  obtain rfl | rfl | rfl : k = 0 ∨ k = 2 ∨ k = 3 := by omega
  · right
    rw [List.append_assoc]
    rfl
  · left
    rfl
  · left
    rfl

/-- The characters of base64 are no zero byte and none of those that are replaced. -/
theorem ne_of_mem_encode {data : Bytes} {c : UInt8} (h : c ∈ Base64.encode data) :
    c ≠ 0 ∧ c ≠ 0x2D ∧ c ≠ 0x5F ∧ c ≠ 0x3D := by
  have hvalue := Base64.isSome_of_mem_encode h
  refine ⟨?_, ?_, ?_, ?_⟩ <;>
  · rintro rfl
    revert hvalue
    decide

/-- `+` and `/` as `-` and `_`. -/
def safe (b : Bytes) : Bytes := gsubByte 0x2F 0x5F (gsubByte 0x2B 0x2D b)

/-- The codes of a binary text tell its characters apart. -/
theorem ofNat_toNat_inj {x y : UInt8} : Char.ofNat x.toNat = Char.ofNat y.toNat ↔ x = y := by
  constructor
  · intro h
    have hcode := congrArg Char.toNat h
    rw [toNat_ofNat_byte, toNat_ofNat_byte] at hcode
    exact UInt8.toNat_inj.mp hcode
  · rintro rfl
    rfl

/-- A substitution of characters is one of bytes. -/
theorem map_binary (a b : UInt8) (t : Bytes) :
    (binary t).map (fun c ↦ if c = Char.ofNat a.toNat then Char.ofNat b.toNat else c) =
      binary (gsubByte a b t) := by
  unfold binary gsubByte
  rw [List.map_map, List.map_map]
  apply List.map_congr_left
  intro x _
  simp only [Function.comp_apply, ofNat_toNat_inj]
  split <;> rfl

/-- Padding is taken off a text that does not end with it. -/
theorem rdropWhile_append_replicate (l : Text) (n : Nat) (h : '=' ∉ l) :
    (l ++ List.replicate n '=').rdropWhile (· = '=') = l := by
  induction n with
  | zero =>
    rw [List.replicate_zero, List.append_nil, List.rdropWhile_eq_self_iff]
    intro hl hlast
    exact h (of_decide_eq_true hlast ▸ List.getLast_mem hl)
  | succ n ih =>
    rw [List.replicate_succ', ← List.append_assoc, List.rdropWhile_concat_pos _ _ _ (by simp), ih]

/-- The characters of the text are the only ones with their codes. -/
theorem mem_binary {c : UInt8} {t : Bytes} : Char.ofNat c.toNat ∈ binary t ↔ c ∈ t := by
  unfold binary
  rw [List.mem_map]
  constructor
  · rintro ⟨x, hx, heq⟩
    rwa [← ofNat_toNat_inj.mp heq]
  · intro hc
    exact ⟨c, hc, rfl⟩

/-- What the three replacements leave of padded base64 text. -/
theorem urlSafe_padded (data : Bytes) :
    urlSafe (binary (Base64.padded data)) = binary (safe (Base64.encode data)) := by
  have hpad : binary (gsubByte 0x2F 0x5F (gsubByte 0x2B 0x2D (Base64.padded data))) =
      binary (safe (Base64.encode data)) ++
        List.replicate ((4 - (Base64.encode data).length % 4) % 4) '=' := by
    unfold Base64.padded safe gsubByte binary
    simp only [List.map_append, List.map_replicate]
    rfl
  have hfree : '=' ∉ binary (safe (Base64.encode data)) := by
    have hbytes : (0x3D : UInt8) ∉ safe (Base64.encode data) := by
      unfold safe gsubByte
      rw [List.map_map, List.mem_map]
      rintro ⟨x, hx, heq⟩
      have hne := (ne_of_mem_encode hx).2.2.2
      revert heq
      simp only [Function.comp_apply]
      split_ifs <;> first | decide | exact hne
    exact fun h ↦ hbytes (mem_binary.mp h)
  unfold urlSafe
  show (((binary (Base64.padded data)).map fun c ↦
      if c = Char.ofNat (0x2B : UInt8).toNat then Char.ofNat (0x2D : UInt8).toNat else c).map fun c ↦
      if c = Char.ofNat (0x2F : UInt8).toNat then Char.ofNat (0x5F : UInt8).toNat else c).rdropWhile
      (· = '=') = _
  rw [map_binary, map_binary, hpad, rdropWhile_append_replicate _ _ hfree]

/-- The bytes of base64 text are below 128. -/
theorem below128_encode (data : Bytes) : Below128 (Base64.encode data) := by
  intro c hc
  have hvalue := Base64.isSome_of_mem_encode hc
  by_contra hge
  have hge : 128 ≤ c.toNat := not_lt.mp hge
  have hnone : Base64.value? c = none := by
    unfold Base64.value?
    rw [if_neg, if_neg, if_neg, if_neg, if_neg]
    · rintro rfl
      revert hge
      decide
    · rintro rfl
      revert hge
      decide
    · rintro ⟨-, h⟩
      have : c.toNat ≤ 57 := h
      omega
    · rintro ⟨-, h⟩
      have : c.toNat ≤ 122 := h
      omega
    · rintro ⟨-, h⟩
      have : c.toNat ≤ 90 := h
      omega
  rw [hnone] at hvalue
  cases hvalue

/-- The replaced characters are below 128 too. -/
theorem below128_safe {b : Bytes} (h : Below128 b) : Below128 (safe b) := by
  intro c hc
  unfold safe gsubByte at hc
  rw [List.map_map, List.mem_map] at hc
  obtain ⟨x, hx, rfl⟩ := hc
  simp only [Function.comp_apply]
  split_ifs
  · decide
  · decide
  · decide
  · exact h x hx

/-- `btoa` of a text whose characters are below 256. -/
theorem btoa_eq_some_iff {s t : Text} :
    btoa s = some t ↔ (∀ c ∈ s, c.toNat < 256) ∧ t = binary (Base64.padded (latin1 s)) := by
  unfold btoa
  by_cases h : ∀ c ∈ s, c.toNat < 256
  · rw [if_pos (List.all_eq_true.mpr fun c hc ↦ decide_eq_true (h c hc)), Option.some.injEq]
    exact ⟨fun heq ↦ ⟨h, heq.symm⟩, fun heq ↦ heq.2.symm⟩
  · rw [if_neg fun hall ↦ h fun c hc ↦ of_decide_eq_true (List.all_eq_true.mp hall c hc)]
    exact iff_of_false (fun heq ↦ by cases heq) fun heq ↦ h heq.1

/-- `b64encsafe` of a text whose characters are below 256. -/
theorem b64encsafe_eq_some_iff {s t : Text} :
    b64encsafe s = some t ↔
      (∀ c ∈ s, c.toNat < 256) ∧ t = binary (safe (Base64.encode (latin1 s))) := by
  unfold b64encsafe
  rw [Option.map_eq_some_iff]
  constructor
  · rintro ⟨u, hu, rfl⟩
    obtain ⟨hs, rfl⟩ := btoa_eq_some_iff.mp hu
    exact ⟨hs, urlSafe_padded _⟩
  · rintro ⟨hs, rfl⟩
    exact ⟨_, btoa_eq_some_iff.mpr ⟨hs, rfl⟩, urlSafe_padded _⟩

/-- The bytes of base64 text in its safe form. -/
theorem utf8_binary_safe (data : Bytes) :
    utf8 (binary (safe (Base64.encode data))) = safe (Base64.encode data) :=
  utf8_binary (below128_safe (below128_encode data))

/-- The script turns the safe form back. -/
theorem unsafe_safe (data : Bytes) :
    gsubByte 0x2D 0x2B (gsubByte 0x5F 0x2F (safe (Base64.encode data))) = Base64.encode data := by
  unfold safe gsubByte
  simp only [List.map_map]
  conv_rhs => rw [← List.map_id (Base64.encode data)]
  apply List.map_congr_left
  intro c hc
  obtain ⟨-, hminus, hline, -⟩ := ne_of_mem_encode hc
  simp only [Function.comp_apply, id_eq]
  by_cases hplus : c = 0x2B
  · rw [hplus]
    decide
  by_cases hslash : c = 0x2F
  · rw [hslash]
    decide
  rw [if_neg hplus, if_neg hslash, if_neg hline, if_neg hminus]

/-- Base64 text has no zero byte, in either form. -/
theorem zero_not_mem_safe (data : Bytes) : 0 ∉ safe (Base64.encode data) := by
  unfold safe gsubByte
  rw [List.map_map, List.mem_map]
  rintro ⟨x, hx, heq⟩
  have hne := (ne_of_mem_encode hx).1
  revert heq
  simp only [Function.comp_apply]
  split_ifs <;> first | decide | exact hne

/-- `base64Decode` undoes `b64encsafe` but for zero bytes. -/
theorem base64Decode_safe {env : Env} (henv : Decodes64 env.b64decode) (data : Bytes) :
    base64Decode env (some (safe (Base64.encode data))) = stripNul data := by
  unfold base64Decode
  simp only
  rw [stripNul_eq_self (zero_not_mem_safe data), unsafe_safe]
  obtain hfill | hfill := fill_encode data
  · rw [hfill, henv.padded]
  · rw [hfill, henv.trailing]

/-- A padded text has no zero byte and none of the characters that are replaced. -/
theorem ne_of_mem_padded {data : Bytes} {c : UInt8} (h : c ∈ Base64.padded data) :
    c ≠ 0 ∧ c ≠ 0x2D ∧ c ≠ 0x5F := by
  rw [Base64.padded, List.mem_append] at h
  obtain h | h := h
  · obtain ⟨hzero, hminus, hline, -⟩ := ne_of_mem_encode h
    exact ⟨hzero, hminus, hline⟩
  · rw [List.eq_of_mem_replicate h]
    decide

/-- `base64Decode` undoes `btoa` but for zero bytes. -/
theorem base64Decode_padded {env : Env} (henv : Decodes64 env.b64decode) (data : Bytes) :
    base64Decode env (some (Base64.padded data)) = stripNul data := by
  have hzero : 0 ∉ Base64.padded data := fun h ↦ (ne_of_mem_padded h).1 rfl
  have hline : 0x5F ∉ Base64.padded data := fun h ↦ (ne_of_mem_padded h).2.2 rfl
  have hminus : 0x2D ∉ Base64.padded data := fun h ↦ (ne_of_mem_padded h).2.1 rfl
  unfold base64Decode
  simp only
  rw [stripNul_eq_self hzero, (gsubByte_eq_self_iff (by decide)).mpr hline,
    (gsubByte_eq_self_iff (by decide)).mpr hminus, Base64.length_padded_mod, List.drop_zero,
    henv.trailing]

/-- `base64Decode` leaves a text with an `@`. -/
theorem base64Decode_of_at {env : Env} (henv : Decodes64 env.b64decode) {t : Bytes}
    (h : 0x40 ∈ t) : base64Decode env (some t) = t := by
  have hmem : ∀ {a b : UInt8} {t : Bytes}, a ≠ 0x40 → 0x40 ∈ t → 0x40 ∈ gsubByte a b t := by
    intro a b t ha ht
    exact List.mem_map.mpr ⟨0x40, ht, if_neg (Ne.symm ha)⟩
  have hstrip : 0x40 ∈ stripNul t := List.mem_filter.mpr ⟨h, by decide⟩
  unfold base64Decode
  simp only
  rw [henv.foreign _ 0x40 (List.mem_append_left _ (hmem (by decide) (hmem (by decide) hstrip)))
    (by decide) (by decide)]

/-- A character that starts no escape is passed over. -/
theorem fromHex_cons_ne {c : Char} (h : c ≠ '%') (r : Text) : fromHex (c :: r) = c :: fromHex r := by
  rw [fromHex]
  intro a b r' hc
  exact absurd hc h

/-- The code behind an escape. -/
theorem fromHex_getUrlencode (c : UInt8) (r : Text) :
    fromHex (binary (getUrlencode c) ++ r) = Char.ofNat c.toNat :: fromHex r := by
  have hdigit : ∀ {n : UInt8}, n < 16 → hexUpper? (Char.ofNat (hexUpper n).toNat) = some n.toNat := by
    intro n hn
    have hall : ∀ k : Fin 16, hexUpper? (Char.ofNat (hexUpper (UInt8.ofNat k)).toNat) =
        some (UInt8.ofNat k).toNat := by decide
    have h := hall ⟨n.toNat, hn⟩
    rwa [UInt8.ofNat_toNat] at h
  obtain ⟨hhigh, hlow, -⟩ := halves c
  have hc : 16 * (c / 16).toNat + (c % 16).toNat = c.toNat := by
    rw [UInt8.toNat_div, UInt8.toNat_mod]
    exact Nat.div_add_mod c.toNat 16
  show fromHex ('%' :: _ :: _ :: r) = _
  rw [fromHex, hdigit hhigh, hdigit hlow]
  simp only
  rw [hc]

/-- The codes that `b64EncodeUnicode` gives to `btoa` are the UTF-8 bytes. -/
theorem fromHex_encodeURIComponent (s : Text) : fromHex (encodeURIComponent s) = binary (utf8 s) := by
  have hescaped : ∀ (b : Bytes) (r : Text), fromHex (binary (b.flatMap getUrlencode) ++ r) =
      binary b ++ fromHex r := by
    intro b r
    induction b with
    | nil => rfl
    | cons c b ih =>
      have hsplit : binary ((c :: b).flatMap getUrlencode) ++ r =
          binary (getUrlencode c) ++ (binary (b.flatMap getUrlencode) ++ r) := by
        unfold binary
        rw [List.flatMap_cons, List.map_append, List.append_assoc]
      rw [hsplit, fromHex_getUrlencode, ih]
      rfl
  induction s with
  | nil => rfl
  | cons c s ih =>
    have hcons : encodeURIComponent (c :: s) =
        (if leaves isUnescaped c then [c]
          else binary ((String.utf8EncodeChar c).flatMap getUrlencode)) ++ encodeURIComponent s := rfl
    have hbinary : binary (utf8 (c :: s)) = binary (String.utf8EncodeChar c) ++ binary (utf8 s) := by
      unfold binary
      rw [utf8_cons, List.map_append]
    rw [hcons, hbinary]
    by_cases hleft : leaves isUnescaped c = true
    · rw [if_pos hleft]
      simp only [leaves, Bool.and_eq_true, decide_eq_true_eq] at hleft
      have hne : c ≠ '%' := by
        rintro rfl
        revert hleft
        decide
      have hcode : (UInt8.ofNat c.toNat).toNat = c.toNat := by
        rw [UInt8.toNat_ofNat']
        omega
      rw [List.singleton_append, fromHex_cons_ne hne, ih, utf8EncodeChar_of_lt hleft.1]
      show _ = Char.ofNat (UInt8.ofNat c.toNat).toNat :: binary (utf8 s)
      rw [hcode, Char.ofNat_toNat]
    · rw [if_neg hleft, hescaped, ih]

/-- The codes of a binary text are below 256. -/
theorem lt_of_mem_binary {b : Bytes} {c : Char} (h : c ∈ binary b) : c.toNat < 256 := by
  obtain ⟨x, -, rfl⟩ := List.mem_map.mp h
  rw [toNat_ofNat_byte]
  exact x.toNat_lt

/-- `b64EncodeUnicode` does not throw. -/
theorem b64EncodeUnicode_eq (s : Text) :
    b64EncodeUnicode s = some (binary (Base64.padded (utf8 s))) := by
  unfold b64EncodeUnicode
  rw [fromHex_encodeURIComponent, btoa_eq_some_iff]
  exact ⟨fun c hc ↦ lt_of_mem_binary hc, by rw [latin1_binary]⟩

/-- `b64encutf8safe` does not throw. -/
theorem b64encutf8safe_eq (s : Text) :
    b64encutf8safe s = some (binary (safe (Base64.encode (utf8 s)))) := by
  unfold b64encutf8safe
  rw [b64EncodeUnicode_eq, Option.map_some, urlSafe_padded]

/-- A byte that is left by an escape and does not occur in one. -/
def Plain (kept : UInt8 → Bool) (c : UInt8) : Prop :=
  kept c = true ∧ c ≠ 0x25 ∧ hexDigit? c = none

/-- The escape of two texts. -/
@[simp] theorem escapeBytes_append (kept : UInt8 → Bool) (a b : Bytes) :
    escapeBytes kept (a ++ b) = escapeBytes kept a ++ escapeBytes kept b := List.flatMap_append

/-- The escape behind a byte. -/
theorem escapeBytes_cons (kept : UInt8 → Bool) (c : UInt8) (b : Bytes) :
    escapeBytes kept (c :: b) = (if kept c then [c] else getUrlencode c) ++ escapeBytes kept b :=
  List.flatMap_cons

/-- A text that is left as a whole. -/
theorem escapeBytes_of_kept {kept : UInt8 → Bool} {b : Bytes} (h : ∀ c ∈ b, kept c = true) :
    escapeBytes kept b = b := by
  induction b with
  | nil => rfl
  | cons c b ih =>
    rw [escapeBytes_cons, if_pos (h c List.mem_cons_self),
      ih fun x hx ↦ h x (List.mem_cons_of_mem c hx)]
    rfl

/-- An escape makes no text shorter, and only what is left is not made longer. -/
theorem length_le_escapeBytes (kept : UInt8 → Bool) (b : Bytes) :
    b.length ≤ (escapeBytes kept b).length := by
  induction b with
  | nil => exact Nat.le_refl 0
  | cons c b ih =>
    have hpiece : 1 ≤ (if kept c then [c] else getUrlencode c).length := by
      split
      · exact Nat.le_refl 1
      · exact Nat.le_of_ble_eq_true rfl
    rw [escapeBytes_cons, List.length_append, List.length_cons]
    omega

/-- A text that is not longer when it is escaped is left as a whole. -/
theorem kept_of_length_escapeBytes {kept : UInt8 → Bool} {b : Bytes}
    (hlen : (escapeBytes kept b).length = b.length) : ∀ c ∈ b, kept c = true := by
  induction b with
  | nil => exact fun c hc ↦ absurd hc List.not_mem_nil
  | cons c b ih =>
    have hrest := length_le_escapeBytes kept b
    rw [escapeBytes_cons, List.length_append, List.length_cons] at hlen
    cases hk : kept c with
    | false =>
      rw [hk, if_neg Bool.false_ne_true] at hlen
      have : (getUrlencode c).length = 3 := rfl
      omega
    | true =>
      rw [hk, if_pos rfl, List.length_singleton] at hlen
      intro x hx
      obtain rfl | hx := List.mem_cons.mp hx
      · exact hk
      · exact ih (by omega) x hx

/-- A text is its own escape if and only if each of its bytes is left. -/
theorem escapeBytes_eq_self_iff {kept : UInt8 → Bool} {b : Bytes} :
    escapeBytes kept b = b ↔ ∀ c ∈ b, kept c = true :=
  ⟨fun h ↦ kept_of_length_escapeBytes (congrArg List.length h), escapeBytes_of_kept⟩

/-- The bytes of an escape are no plain ones. -/
theorem not_plain_of_mem_getUrlencode {kept : UInt8 → Bool} {c d : UInt8}
    (h : c ∈ getUrlencode d) : ¬ Plain kept c := by
  obtain ⟨hhigh, hlow, -⟩ := halves d
  rintro ⟨-, hpercent, hdigit⟩
  simp only [getUrlencode, List.mem_cons, List.not_mem_nil, or_false] at h
  obtain rfl | rfl | rfl := h
  · exact hpercent rfl
  · rw [hexDigit_hexUpper hhigh] at hdigit
    cases hdigit
  · rw [hexDigit_hexUpper hlow] at hdigit
    cases hdigit

/-- Plain bytes start an escaped text where they start the text. -/
theorem start_escapeBytes {kept : UInt8 → Bool} {sep : Bytes} (hsep : ∀ c ∈ sep, Plain kept c)
    {b : Bytes} (h : sep <+: escapeBytes kept b) : sep <+: b := by
  induction sep generalizing b with
  | nil => exact List.nil_prefix
  | cons x sep ih =>
    cases b with
    | nil => exact h
    | cons c b =>
      rw [escapeBytes_cons] at h
      cases hk : kept c with
      | false =>
        rw [hk, if_neg Bool.false_ne_true] at h
        have hx : x = 0x25 := (List.cons_prefix_cons.mp h).1
        exact absurd hx (hsep x List.mem_cons_self).2.1
      | true =>
        rw [hk, if_pos rfl, List.singleton_append, List.cons_prefix_cons] at h
        rw [h.1, List.cons_prefix_cons]
        exact ⟨rfl, ih (fun y hy ↦ hsep y (List.mem_cons_of_mem x hy)) h.2⟩

/-- Plain bytes stand in an escaped text where they stand in the text. -/
theorem infix_escapeBytes {kept : UInt8 → Bool} {sep : Bytes} (hs : sep ≠ [])
    (hsep : ∀ c ∈ sep, Plain kept c) {b : Bytes} : sep <:+: escapeBytes kept b ↔ sep <:+: b := by
  obtain ⟨x, sep, rfl⟩ := List.exists_cons_of_ne_nil hs
  constructor
  · intro h
    induction b with
    | nil => exact h
    | cons c b ih =>
      have hskip : ∀ {e : Bytes}, (∀ y ∈ e, ¬ Plain kept y) → ∀ {r : Bytes},
          x :: sep <:+: e ++ r → x :: sep <:+: r := by
        intro e he r hr
        induction e with
        | nil => exact hr
        | cons y e ihe =>
          obtain hstart | hr := List.infix_cons_iff.mp hr
          · have hx : x = y := (List.cons_prefix_cons.mp hstart).1
            exact absurd (hx ▸ hsep x List.mem_cons_self) (he y List.mem_cons_self)
          · exact ihe (fun z hz ↦ he z (List.mem_cons_of_mem y hz)) hr
      cases hk : kept c with
      | false =>
        rw [escapeBytes_cons, hk, if_neg Bool.false_ne_true] at h
        have hrest := hskip (fun y hy ↦ not_plain_of_mem_getUrlencode hy) h
        exact (ih hrest).trans (List.suffix_cons c b).isInfix
      | true =>
        have hcons : escapeBytes kept (c :: b) = c :: escapeBytes kept b := by
          rw [escapeBytes_cons, hk]
          rfl
        rw [hcons] at h
        obtain hstart | hrest := List.infix_cons_iff.mp h
        · rw [← hcons] at hstart
          exact (start_escapeBytes hsep hstart).isInfix
        · exact (ih hrest).trans (List.suffix_cons c b).isInfix
  · rintro ⟨a, r, rfl⟩
    rw [escapeBytes_append, escapeBytes_append,
      escapeBytes_of_kept fun c hc ↦ (hsep c hc).1]
    exact List.infix_append _ _ _

/-- What stands before plain bytes in an escaped text. -/
theorem before_escapeBytes {kept : UInt8 → Bool} {sep : Bytes} (hs : sep ≠ [])
    (hsep : ∀ c ∈ sep, Plain kept c) (b : Bytes) :
    Search.before sep (escapeBytes kept b) = escapeBytes kept (Search.before sep b) := by
  by_cases h : sep <:+: b
  · obtain ⟨i, hi⟩ := Search.exists_find?_of_infix h
    obtain ⟨hle, ⟨r, hr⟩, hmiss⟩ := Search.find?_eq_some_iff.mp hi
    have hb : b = b.take i ++ sep ++ r := by
      rw [List.append_assoc, hr, List.take_append_drop]
    have hfirst : ¬ sep <:+: b.take i ++ sep.dropLast := by
      intro hin
      obtain ⟨j, hj⟩ := Search.exists_find?_of_infix hin
      have hend := Search.add_length_le_of_find? hj
      have hpos := List.length_pos_iff.mpr hs
      rw [List.length_append, List.length_take, List.length_dropLast, Nat.min_eq_left hle] at hend
      have hwhole := Search.find?_append (sep.drop (sep.length - 1) ++ r) hj
      have hsame : b.take i ++ sep.dropLast ++ (sep.drop (sep.length - 1) ++ r) = b := by
        conv_rhs => rw [hb]
        rw [List.append_assoc, ← List.append_assoc sep.dropLast, List.dropLast_eq_take,
          List.take_append_drop, List.append_assoc]
      rw [hsame, hi] at hwhole
      cases hwhole
      omega
    have hescaped : ¬ sep <:+: escapeBytes kept (b.take i) ++ sep.dropLast := by
      have hlast : escapeBytes kept sep.dropLast = sep.dropLast :=
        escapeBytes_of_kept fun c hc ↦ (hsep c (List.mem_of_mem_dropLast hc)).1
      rw [← hlast, ← escapeBytes_append, infix_escapeBytes hs hsep]
      exact hfirst
    have hbefore : Search.before sep b = b.take i := by
      rw [Search.before, hi]
      rfl
    rw [hbefore]
    conv_lhs => rw [hb]
    rw [escapeBytes_append, escapeBytes_append, escapeBytes_of_kept fun c hc ↦ (hsep c hc).1,
      Search.before_append_sep _ hescaped]
  · rw [Search.before_of_not_infix h,
      Search.before_of_not_infix (fun hin ↦ h ((infix_escapeBytes hs hsep).mp hin))]

/-- No escape in a text stands for `c`. -/
def NoEscape (c : UInt8) (t : Bytes) : Prop :=
  ∀ a b x y, [0x25, a, b] <:+: t → hexDigit? a = some x → hexDigit? b = some y → 16 * x + y ≠ c

/-- Without an escape a text has none in its parts. -/
theorem NoEscape.part {c : UInt8} {t v : Bytes} (ht : NoEscape c t) (h : v <:+: t) : NoEscape c v :=
  fun a b x y hin ↦ ht a b x y (hin.trans h)

/-- Bytes without an escape that start a decoded text start the text. -/
theorem start_of_start_percentDecode {p t : Bytes} (ht : ∀ c ∈ p, NoEscape c t)
    (h : p <+: percentDecode t) : p <+: t := by
  fun_induction percentDecode t generalizing p with
  | case1 a b r x y hy hx ih =>
    cases p with
    | nil => exact List.nil_prefix
    | cons c p =>
      have hc := (List.cons_prefix_cons.mp h).1
      exact absurd hc.symm
        (ht c List.mem_cons_self a b x y (List.prefix_append [0x25, a, b] r).isInfix hx hy)
  | case2 a b r hnot ih =>
    cases p with
    | nil => exact List.nil_prefix
    | cons c p =>
      obtain ⟨rfl, hp⟩ := List.cons_prefix_cons.mp h
      refine List.cons_prefix_cons.mpr ⟨rfl, ih (fun d hd ↦ ?_) hp⟩
      exact (ht d (List.mem_cons_of_mem _ hd)).part (List.suffix_cons 0x25 _).isInfix
  | case3 d r hnot ih =>
    cases p with
    | nil => exact List.nil_prefix
    | cons c p =>
      obtain ⟨rfl, hp⟩ := List.cons_prefix_cons.mp h
      refine List.cons_prefix_cons.mpr ⟨rfl, ih (fun d hd ↦ ?_) hp⟩
      exact (ht d (List.mem_cons_of_mem _ hd)).part (List.suffix_cons _ _).isInfix
  | case4 => exact h

/-- Bytes without an escape that start a decoded text behind a byte start both. -/
theorem start_of_start_cons {p t : Bytes} {d : UInt8} (ht : ∀ c ∈ p, NoEscape c (d :: t))
    (h : p <+: d :: percentDecode t) : p <+: d :: t := by
  cases p with
  | nil => exact List.nil_prefix
  | cons c p =>
    obtain ⟨rfl, hp⟩ := List.cons_prefix_cons.mp h
    refine List.cons_prefix_cons.mpr ⟨rfl, start_of_start_percentDecode (fun x hx ↦ ?_) hp⟩
    exact (ht x (List.mem_cons_of_mem _ hx)).part (List.suffix_cons _ _).isInfix

/-- Bytes without an escape that stand in a decoded text stand in the text. -/
theorem infix_of_infix_percentDecode {p t : Bytes} (ht : ∀ c ∈ p, NoEscape c t)
    (h : p <:+: percentDecode t) : p <:+: t := by
  fun_induction percentDecode t with
  | case1 a b r x y hy hx ih =>
    have htail : ∀ c ∈ p, NoEscape c r := fun c hc ↦
      (ht c hc).part (List.suffix_append [0x25, a, b] r).isInfix
    obtain hstart | hrest := List.infix_cons_iff.mp h
    · cases p with
      | nil => exact List.nil_infix
      | cons c p =>
        have hc := (List.cons_prefix_cons.mp hstart).1
        exact absurd hc.symm
          (ht c List.mem_cons_self a b x y (List.prefix_append [0x25, a, b] r).isInfix hx hy)
    · exact (ih htail hrest).trans (List.suffix_append [0x25, a, b] r).isInfix
  | case2 a b r hnot ih =>
    have htail : ∀ c ∈ p, NoEscape c (a :: b :: r) := fun c hc ↦
      (ht c hc).part (List.suffix_cons 0x25 _).isInfix
    obtain hstart | hrest := List.infix_cons_iff.mp h
    · exact (start_of_start_cons ht hstart).isInfix
    · exact (ih htail hrest).trans (List.suffix_cons 0x25 _).isInfix
  | case3 d r hnot ih =>
    have htail : ∀ c ∈ p, NoEscape c r := fun c hc ↦
      (ht c hc).part (List.suffix_cons d _).isInfix
    obtain hstart | hrest := List.infix_cons_iff.mp h
    · exact (start_of_start_cons ht hstart).isInfix
    · exact (ih htail hrest).trans (List.suffix_cons d _).isInfix
  | case4 => exact h

/-- No escape stands for a byte that is left. -/
theorem noEscape_escapeBytes {kept : UInt8 → Bool} (hpercent : kept 0x25 = false) {c : UInt8}
    (hc : kept c = true) (b : Bytes) : NoEscape c (gsubByte 0x2B 0x20 (escapeBytes kept b)) := by
  intro x y m n hin hm hn
  induction b with
  | nil =>
    have hlen := hin.length_le
    simp [escapeBytes, gsubByte] at hlen
  | cons d b ih =>
    have hcons : gsubByte 0x2B 0x20 (escapeBytes kept (d :: b)) =
        gsubByte 0x2B 0x20 (if kept d then [d] else getUrlencode d) ++
          gsubByte 0x2B 0x20 (escapeBytes kept b) := by
      unfold gsubByte
      rw [escapeBytes_cons, List.map_append]
    rw [hcons] at hin
    cases hk : kept d with
    | true =>
      rw [hk, if_pos rfl] at hin
      obtain hstart | hrest := List.infix_cons_iff.mp hin
      · have hd : 0x25 = if d = 0x2B then 0x20 else d := (List.cons_prefix_cons.mp hstart).1
        split at hd
        · exact absurd hd (by decide)
        · rw [← hd, hpercent] at hk
          cases hk
      · exact ih hrest
    | false =>
      obtain ⟨hhigh, hlow, hd⟩ := halves d
      rw [hk, if_neg Bool.false_ne_true, gsubByte_getUrlencode, getUrlencode, List.cons_append,
        List.cons_append, List.cons_append, List.nil_append] at hin
      have hdigit : ∀ {k : UInt8}, k < 16 → (0x25 : UInt8) ≠ hexUpper k := by
        intro k hk heq
        have hsome := hexDigit_hexUpper hk
        have hnone : hexDigit? 0x25 = none := by decide
        rw [← heq, hnone] at hsome
        cases hsome
      obtain hstart | hin := List.infix_cons_iff.mp hin
      · have hrest := (List.cons_prefix_cons.mp hstart).2
        have hx := (List.cons_prefix_cons.mp hrest).1
        have hy := (List.cons_prefix_cons.mp (List.cons_prefix_cons.mp hrest).2).1
        rw [hx, hexDigit_hexUpper hhigh] at hm
        rw [hy, hexDigit_hexUpper hlow] at hn
        cases hm
        cases hn
        rw [hd]
        rintro rfl
        rw [hc] at hk
        cases hk
      obtain hstart | hin := List.infix_cons_iff.mp hin
      · exact absurd (List.cons_prefix_cons.mp hstart).1 (hdigit hhigh)
      obtain hstart | hin := List.infix_cons_iff.mp hin
      · exact absurd (List.cons_prefix_cons.mp hstart).1 (hdigit hlow)
      · exact ih hin

/-- Bytes that are left and come out of a part of an escaped text stand in this part; no `+` does. -/
theorem infix_of_infix_urlDecode {kept : UInt8 → Bool} (hpercent : kept 0x25 = false) {p : Bytes}
    (hp : ∀ c ∈ p, kept c = true ∧ c ≠ 0x20) {b v : Bytes} (hv : v <:+: escapeBytes kept b)
    (h : p <:+: urlDecode v) : p <:+: v ∧ 0x2B ∉ p := by
  have hin : gsubByte 0x2B 0x20 v <:+: gsubByte 0x2B 0x20 (escapeBytes kept b) := hv.map _
  have hpart := infix_of_infix_percentDecode
    (fun c hc ↦ (noEscape_escapeBytes hpercent (hp c hc).1 b).part hin) h
  obtain ⟨w, hw, rfl⟩ := List.infix_map_iff.mp hpart
  have hplus : 0x2B ∉ w := fun hmem ↦
    (hp 0x20 (List.mem_map.mpr ⟨0x2B, hmem, if_pos rfl⟩)).2 rfl
  have hself : gsubByte 0x2B 0x20 w = w := (gsubByte_eq_self_iff (by decide)).mpr hplus
  show gsubByte 0x2B 0x20 w <:+: v ∧ 0x2B ∉ gsubByte 0x2B 0x20 w
  rw [hself]
  exact ⟨hw, hplus⟩

/-- Decoding makes no text longer. -/
theorem length_percentDecode_le (t : Bytes) : (percentDecode t).length ≤ t.length := by
  fun_induction percentDecode t with
  | case1 a b r x y hx hy ih =>
    simp only [List.length_cons]
    omega
  | case2 a b r hnot ih => exact Nat.succ_le_succ ih
  | case3 d r hnot ih => exact Nat.succ_le_succ ih
  | case4 => exact Nat.le_refl 0

/-- The same, of `+` and of escapes. -/
theorem length_urlDecode_le (t : Bytes) : (urlDecode t).length ≤ t.length := by
  have hlen : (gsubByte 0x2B 0x20 t).length = t.length := List.length_map _
  exact hlen ▸ length_percentDecode_le (gsubByte 0x2B 0x20 t)

/-- What is decoded to a text of the same length is left. -/
theorem percentDecode_of_length {t : Bytes} (h : (percentDecode t).length = t.length) :
    percentDecode t = t := by
  fun_induction percentDecode t with
  | case1 a b r x y hx hy ih =>
    have hle := length_percentDecode_le r
    simp only [List.length_cons] at h
    omega
  | case2 a b r hnot ih => exact congrArg (0x25 :: ·) (ih (Nat.succ_inj.mp h))
  | case3 d r hnot ih => exact congrArg (d :: ·) (ih (Nat.succ_inj.mp h))
  | case4 => rfl

/-- A text has no `+` and no escape. -/
def Undecoded (t : Bytes) : Prop :=
  0x2B ∉ t ∧ ∀ a b, [0x25, a, b] <:+: t → hexDigit? a = none ∨ hexDigit? b = none

/-- Escapes that are decoded make a text shorter. -/
theorem percentDecode_eq_self_iff {t : Bytes} :
    percentDecode t = t ↔ ∀ a b, [0x25, a, b] <:+: t → hexDigit? a = none ∨ hexDigit? b = none := by
  fun_induction percentDecode t with
  | case1 a b r x y hy hx ih =>
    refine iff_of_false (fun h ↦ ?_) fun h ↦ ?_
    · have hlen := congrArg List.length h
      have hle := length_percentDecode_le r
      simp only [List.length_cons] at hlen
      omega
    · obtain hnone | hnone := h a b (List.prefix_append [0x25, a, b] r).isInfix
      · rw [hnone] at hx
        cases hx
      · rw [hnone] at hy
        cases hy
  | case2 a b r hnot ih =>
    rw [List.cons_inj_right, ih]
    refine forall_congr' fun c ↦ forall_congr' fun d ↦ ?_
    rw [@List.infix_cons_iff _ [0x25, c, d] 0x25]
    constructor
    · rintro h (hstart | hrest)
      · obtain ⟨-, hdigits⟩ := List.cons_prefix_cons.mp hstart
        obtain ⟨rfl, hlow⟩ := List.cons_prefix_cons.mp hdigits
        obtain ⟨rfl, -⟩ := List.cons_prefix_cons.mp hlow
        cases hc : hexDigit? c with
        | none => exact Or.inl rfl
        | some x =>
          cases hd : hexDigit? d with
          | none => exact Or.inr rfl
          | some y => exact absurd hd (hnot x y hc)
      · exact h hrest
    · exact fun h hrest ↦ h (Or.inr hrest)
  | case3 d r hnot ih =>
    rw [List.cons_inj_right, ih]
    refine forall_congr' fun a ↦ forall_congr' fun b ↦ ?_
    rw [@List.infix_cons_iff _ [0x25, a, b] d]
    constructor
    · rintro h (hstart | hrest)
      · obtain ⟨rfl, hrest⟩ := List.cons_prefix_cons.mp hstart
        obtain ⟨s, rfl⟩ := hrest
        exact absurd rfl (hnot a b s rfl)
      · exact h hrest
    · exact fun h hrest ↦ h (Or.inr hrest)
  | case4 => simp

/-- What is left by `UrlDecode`. -/
theorem urlDecode_eq_self_iff {t : Bytes} : urlDecode t = t ↔ Undecoded t := by
  have hplus := @gsubByte_eq_self_iff 0x2B 0x20 (by decide) t
  unfold urlDecode Undecoded
  rw [← hplus, ← percentDecode_eq_self_iff]
  constructor
  · intro h
    have hlen : (gsubByte 0x2B 0x20 t).length = t.length := List.length_map _
    have hself := percentDecode_of_length ((congrArg List.length h).trans hlen.symm)
    rw [hself] at h
    rw [h] at hself
    exact ⟨h, hself⟩
  · rintro ⟨hgsub, hescape⟩
    rw [hgsub, hescape]

end OpenWrtCompile.Subscribe
