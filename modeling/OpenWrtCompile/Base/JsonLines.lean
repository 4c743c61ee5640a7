import OpenWrtCompile.Base.Json
import OpenWrtCompile.Base.Search

/-!
# JSON texts written line by line

A text that is put together from parts, with strings in it that nothing has escaped, is read part by
part: a token ends at the end of its line, and a string at a quotation mark behind which nothing is read
as the rest of a string. What is read for each part is then counted, and a text of the right tokens is
right in each part.
-/

namespace OpenWrtCompile.Base

/-! ## Reading a token -/

/-- The tokens of a text behind some bytes of it. -/
theorem lexFrom_eq_drop (k : Nat) (l : Bytes) : lexFrom k l = lexJson (l.drop k) := by
  induction l generalizing k with
  | nil => cases k <;> rfl
  | cons c l ih =>
    cases k with
    | zero => rfl
    | succ k => exact ih k

/-- A token and the rest. -/
theorem lexJson_cons {c : UInt8} (hc : isJsonBlank c = false) (l : Bytes) :
    lexJson (c :: l) = (readToken c l).bind fun p ↦ (lexJson (l.drop p.2)).map (p.1 :: ·) := by
  show lexFrom 0 (c :: l) = _
  rw [lexFrom, if_neg (by simp [hc])]
  cases readToken c l with
  | none => rfl
  | some p => exact congrArg (Option.map (p.1 :: ·)) (lexFrom_eq_drop p.2 l)

/-- The token of a string. -/
theorem readToken_quote (l : Bytes) :
    readToken 0x22 l = (scanString l).bind fun body ↦ (unescape none body).map fun s ↦
      (.str s, body.length + 1) := by
  unfold readToken
  cases hscan : scanString l with
  | none => simp
  | some body => cases hs : unescape none body <;> simp [hs]

/-- A string and the rest. -/
theorem lexJson_quote (l : Bytes) :
    lexJson (0x22 :: l) = (scanString l).bind fun body ↦ (unescape none body).bind fun s ↦
      (lexJson (l.drop (body.length + 1))).map (.str s :: ·) := by
  rw [lexJson_cons rfl, readToken_quote]
  cases scanString l with
  | none => rfl
  | some body => cases hs : unescape none body <;> simp [hs]

/-- A byte at which every token but a string ends. -/
def isBreak (d : UInt8) : Bool := !isNumberByte d && !(0x61 ≤ d && d ≤ 0x7A)

/-- A part in front of a byte that it does not hold. -/
theorem prefix_append_cons_iff {p x r : Bytes} {d : UInt8} (hd : d ∉ p) :
    p <+: x ++ d :: r ↔ p <+: x :=
  ⟨fun h ↦ Search.prefix_of_prefix_append_cons h hd, fun h ↦ h.trans (List.prefix_append _ _)⟩

/-- What is taken in front of a byte that is not taken. -/
theorem takeWhile_append_cons {P : UInt8 → Bool} {x r : Bytes} {d : UInt8} (hd : P d = false) :
    (x ++ d :: r).takeWhile P = x.takeWhile P := by
  induction x with
  | nil => rw [List.nil_append, List.takeWhile_cons_of_neg (by simp [hd]), List.takeWhile_nil]
  | cons c x ih =>
    rw [List.cons_append, List.takeWhile_cons, List.takeWhile_cons, ih]

/-- A token that is no string ends in front of a break. -/
theorem readToken_append {c d : UInt8} (hc : c ≠ 0x22) (hd : isBreak d = true) (x r : Bytes) :
    readToken c (x ++ d :: r) = readToken c x := by
  obtain ⟨hnum, hletter⟩ := Bool.and_eq_true_iff.mp hd
  have hnum' : isNumberByte d = false := by simpa using hnum
  have hword : ∀ {p : Bytes}, (p.all fun e ↦ 0x61 ≤ e && e ≤ 0x7A) = true → d ∉ p := by
    intro p hp hmem
    rw [List.all_eq_true.mp hp d hmem] at hletter
    cases hletter
  have hrue := prefix_append_cons_iff (x := x) (r := r) (hword (p := ascii "rue") rfl)
  have halse := prefix_append_cons_iff (x := x) (r := r) (hword (p := ascii "alse") rfl)
  have hull := prefix_append_cons_iff (x := x) (r := r) (hword (p := ascii "ull") rfl)
  have htake : (c :: (x ++ d :: r)).takeWhile isNumberByte = (c :: x).takeWhile isNumberByte :=
    takeWhile_append_cons (x := c :: x) hnum'
  unfold readToken
  simp only [hc, ↓reduceIte, hrue, halse, hull, htake]

/-- A token that is no string stands in its text. -/
theorem readToken_le {c : UInt8} {x : Bytes} {t : JsonToken} {k : Nat} (hc : c ≠ 0x22)
    (h : readToken c x = some (t, k)) : k ≤ x.length := by
  have hmark : ∀ {u : JsonToken}, some (u, 0) = some (t, k) → k ≤ x.length := by
    intro u hu
    rw [← (Prod.mk.inj (Option.some.inj hu)).2]
    exact Nat.zero_le _
  have hword : ∀ {p : Bytes} {u : JsonToken},
      (if p <+: x then some (u, p.length) else none) = some (t, k) → k ≤ x.length := by
    intro p u hu
    split at hu
    · rename_i hp
      rw [← (Prod.mk.inj (Option.some.inj hu)).2]
      exact hp.length_le
    · cases hu
  unfold readToken at h
  by_cases h₁ : c = 0x5B
  · exact hmark (by rwa [if_pos h₁] at h)
  rw [if_neg h₁] at h
  by_cases h₂ : c = 0x5D
  · exact hmark (by rwa [if_pos h₂] at h)
  rw [if_neg h₂] at h
  by_cases h₃ : c = 0x7B
  · exact hmark (by rwa [if_pos h₃] at h)
  rw [if_neg h₃] at h
  by_cases h₄ : c = 0x7D
  · exact hmark (by rwa [if_pos h₄] at h)
  rw [if_neg h₄] at h
  by_cases h₅ : c = 0x2C
  · exact hmark (by rwa [if_pos h₅] at h)
  rw [if_neg h₅] at h
  by_cases h₆ : c = 0x3A
  · exact hmark (by rwa [if_pos h₆] at h)
  rw [if_neg h₆, if_neg hc] at h
  by_cases h₇ : c = 0x74
  · exact hword (p := ascii "rue") (by rwa [if_pos h₇] at h)
  rw [if_neg h₇] at h
  by_cases h₈ : c = 0x66
  · exact hword (p := ascii "alse") (by rwa [if_pos h₈] at h)
  rw [if_neg h₈] at h
  by_cases h₉ : c = 0x6E
  · exact hword (p := ascii "ull") (by rwa [if_pos h₉] at h)
  rw [if_neg h₉] at h
  dsimp only at h
  split at h
  · rw [← (Prod.mk.inj (Option.some.inj h)).2]
    have hle := (List.takeWhile_prefix (l := c :: x) isNumberByte).length_le
    rw [List.length_cons] at hle
    omega
  · cases h

/-! ## The end of a string -/

/-- A string that ends in a text ends there in front of more. -/
theorem scanString_append {x body : Bytes} (h : scanString x = some body) (y : Bytes) :
    scanString (x ++ y) = some body := by
  induction x using scanString.induct generalizing body with
  | case1 => cases h
  | case2 l =>
    rw [scanString_quote] at h
    rw [List.cons_append, scanString_quote, h]
  | case3 => cases h
  | case4 e l _ ih =>
    rw [scanString_escape, Option.map_eq_some_iff] at h
    obtain ⟨body, hbody, rfl⟩ := h
    rw [List.cons_append, List.cons_append, scanString_escape, ih hbody]
    rfl
  | case5 c l hq hb ih =>
    rw [scanString_plain hq hb, Option.map_eq_some_iff] at h
    obtain ⟨body, hbody, rfl⟩ := h
    rw [List.cons_append, scanString_plain hq hb, ih hbody]
    rfl

/-- A string that does not end in a text ends at the quotation mark behind it, or has it as an escape. -/
theorem scanString_append_quote {x : Bytes} (h : scanString x = none) :
    (∀ r, scanString (x ++ 0x22 :: r) = some x) ∨
      ∀ r, scanString (x ++ 0x22 :: r) = (scanString r).map (x ++ 0x22 :: ·) := by
  induction x using scanString.induct with
  | case1 => exact Or.inl fun r ↦ scanString_quote r
  | case2 l => cases (scanString_quote l).symm.trans h
  | case3 =>
    refine Or.inr fun r ↦ ?_
    rw [List.cons_append, List.nil_append, scanString_escape]
    rfl
  | case4 e l _ ih =>
    rw [scanString_escape, Option.map_eq_none_iff] at h
    refine (ih h).imp (fun hr r ↦ ?_) fun hr r ↦ ?_
    · rw [List.cons_append, List.cons_append, scanString_escape, hr]
      rfl
    · rw [List.cons_append, List.cons_append, scanString_escape, hr, Option.map_map]
      rfl
  | case5 c l hq hb ih =>
    rw [scanString_plain hq hb, Option.map_eq_none_iff] at h
    refine (ih h).imp (fun hr r ↦ ?_) fun hr r ↦ ?_
    · rw [List.cons_append, scanString_plain hq hb, hr]
      rfl
    · rw [List.cons_append, scanString_plain hq hb, hr, Option.map_map]
      rfl

/-- A string that does not end in a text holds the text. -/
theorem prefix_of_scanString_append {x y body : Bytes} (hx : scanString x = none)
    (h : scanString (x ++ y) = some body) : x <+: body := by
  induction x using scanString.induct generalizing body with
  | case1 => exact List.nil_prefix
  | case2 l => cases (scanString_quote l).symm.trans hx
  | case3 =>
    cases y with
    | nil => cases h
    | cons e y =>
      rw [List.cons_append, List.nil_append, scanString_escape, Option.map_eq_some_iff] at h
      obtain ⟨rest, -, rfl⟩ := h
      exact ⟨e :: rest, rfl⟩
  | case4 e l _ ih =>
    rw [scanString_escape, Option.map_eq_none_iff] at hx
    rw [List.cons_append, List.cons_append, scanString_escape, Option.map_eq_some_iff] at h
    obtain ⟨rest, hrest, rfl⟩ := h
    exact (List.prefix_append_right_inj [0x5C, e]).mpr (ih hx hrest)
  | case5 c l hq hb ih =>
    rw [scanString_plain hq hb, Option.map_eq_none_iff] at hx
    rw [List.cons_append, scanString_plain hq hb, Option.map_eq_some_iff] at h
    obtain ⟨rest, hrest, rfl⟩ := h
    exact (List.prefix_append_right_inj [c]).mpr (ih hx hrest)

/-- A string that does not end in a text holds the byte behind it. -/
theorem mem_of_scanString_append {x r body : Bytes} {d : UInt8} (hx : scanString x = none)
    (hd : d ≠ 0x22) (h : scanString (x ++ d :: r) = some body) : d ∈ body := by
  obtain ⟨z, rfl⟩ := prefix_of_scanString_append hx h
  obtain ⟨rest, heq⟩ := scanString_eq_some h
  rw [List.append_assoc] at heq
  have hz := List.append_cancel_left heq
  cases z with
  | nil => exact absurd (List.cons.inj hz).1 hd
  | cons e z =>
    rw [(List.cons.inj hz).1]
    exact List.mem_append_right _ List.mem_cons_self

/-- A quotation mark that is not behind a backslash ends a string. -/
theorem length_scanString {x y body : Bytes} {d : UInt8} (hd : d ≠ 0x5C)
    (h : scanString (x ++ d :: 0x22 :: y) = some body) : body.length ≤ x.length + 1 := by
  induction x using scanString.induct generalizing body with
  | case1 =>
    rw [List.nil_append] at h
    by_cases hq : d = 0x22
    · subst hq
      rw [scanString_quote] at h
      rw [← Option.some.inj h]
      exact Nat.zero_le _
    · rw [scanString_plain hq hd, scanString_quote] at h
      rw [← Option.some.inj h]
      exact le_rfl
  | case2 l =>
    rw [List.cons_append, scanString_quote] at h
    rw [← Option.some.inj h]
    exact Nat.zero_le _
  | case3 =>
    rw [List.cons_append, List.nil_append, scanString_escape, scanString_quote] at h
    rw [← Option.some.inj h]
    exact le_rfl
  | case4 e l _ ih =>
    rw [List.cons_append, List.cons_append, scanString_escape, Option.map_eq_some_iff] at h
    obtain ⟨body, hbody, rfl⟩ := h
    have hle := ih hbody
    simp only [List.length_append, List.length_cons, List.length_nil]
    omega
  | case5 c l hq hb ih =>
    rw [List.cons_append, scanString_plain hq hb, Option.map_eq_some_iff] at h
    obtain ⟨body, hbody, rfl⟩ := h
    have hle := ih hbody
    simp only [List.length_append, List.length_cons, List.length_nil]
    omega

/-- A text with a byte below the blank is no string. -/
theorem unescape_eq_none {body : Bytes} {c : UInt8} (hc : c ∈ body) (hlt : c < 0x20) :
    unescape none body = none := by
  cases h : unescape none body with
  | none => rfl
  | some s => exact absurd hlt ((length_unescape (fun _ h ↦ by cases h) h).2 c hc)

/-! ## Lines -/

/-- Two lists of tokens one behind the other, if both are read. -/
def joinTokens (a b : Option (List JsonToken)) : Option (List JsonToken) :=
  a.bind fun ts ↦ b.map (ts ++ ·)

/-- No tokens in front. -/
@[simp] theorem joinTokens_nil (b : Option (List JsonToken)) : joinTokens (some []) b = b := by
  cases b <;> rfl

/-- Nothing is read where the first part is not. -/
@[simp] theorem joinTokens_none (b : Option (List JsonToken)) : joinTokens none b = none := rfl

/-- A token in front. -/
theorem map_cons_joinTokens (t : JsonToken) (a b : Option (List JsonToken)) :
    (joinTokens a b).map (t :: ·) = joinTokens (a.map (t :: ·)) b := by
  cases a <;> cases b <;> rfl

/-- The tokens of a text whose last line is taken off. -/
theorem lexJson_newline (x r : Bytes) :
    lexJson (x ++ 0x0A :: r) = joinTokens (lexJson x) (lexJson r) := by
  induction hn : x.length using Nat.strong_induction_on generalizing x with
  | _ n ih =>
    subst hn
    cases x with
    | nil => rw [List.nil_append, lexJson_blank rfl, lexJson_nil, joinTokens_nil]
    | cons c x =>
      have hstep : ∀ k, k ≤ x.length → lexJson ((x ++ 0x0A :: r).drop k) =
          joinTokens (lexJson (x.drop k)) (lexJson r) := by
        intro k hk
        rw [List.drop_append_of_le_length hk]
        exact ih (x.drop k).length (by rw [List.length_drop, List.length_cons]; omega) _ rfl
      rw [List.cons_append]
      by_cases hblank : isJsonBlank c = true
      · rw [lexJson_blank hblank, lexJson_blank hblank]
        exact hstep 0 (Nat.zero_le _)
      rw [Bool.not_eq_true] at hblank
      by_cases hc : c = 0x22
      · subst hc
        rw [lexJson_quote, lexJson_quote]
        cases hscan : scanString x with
        | none =>
          rw [Option.bind_none, joinTokens_none]
          cases hmore : scanString (x ++ 0x0A :: r) with
          | none => rfl
          | some body =>
            -- the string would hold the end of the line
            rw [Option.bind_some, unescape_eq_none (mem_of_scanString_append hscan (by decide) hmore)
              (by decide), Option.bind_none]
        | some body =>
          obtain ⟨rest, rfl⟩ := scanString_eq_some hscan
          rw [scanString_append hscan, Option.bind_some, Option.bind_some]
          cases unescape none body with
          | none => rfl
          | some s =>
            rw [Option.bind_some, Option.bind_some, hstep _ (by simp), map_cons_joinTokens]
      · rw [lexJson_cons hblank, lexJson_cons hblank, readToken_append hc rfl]
        cases hread : readToken c x with
        | none => rfl
        | some p =>
          rw [Option.bind_some, Option.bind_some, hstep _ (readToken_le hc hread),
            map_cons_joinTokens]

/-! ## Strings between quotation marks -/

/-- A byte that stands for itself in a string. -/
def isBare (c : UInt8) : Bool := c ≠ 0x22 && c ≠ 0x5C && !(c < 0x20)

/-- What a code unit stands for has four bytes at most. -/
theorem length_unitBytes_le {high high' : Option Nat} {n : Nat} {bytes : Bytes}
    (h : unitBytes high n = some (bytes, high')) : bytes.length ≤ 4 := by
  have hutf8 : ∀ k, (utf8Bytes k).length ≤ 4 := by
    intro k
    unfold utf8Bytes
    split_ifs <;> exact Nat.le_of_ble_eq_true rfl
  unfold unitBytes at h
  split at h
  · split_ifs at h
    rw [← (Prod.mk.inj (Option.some.inj h)).1]
    exact hutf8 _
  · split_ifs at h
    · rw [← (Prod.mk.inj (Option.some.inj h)).1]
      exact Nat.zero_le _
    · rw [← (Prod.mk.inj (Option.some.inj h)).1]
      exact hutf8 _

/-- A text that is a string is its own string, or is longer than its string. -/
theorem unescape_cases {high : Option Nat} {body s : Bytes} (h : unescape high body = some s) :
    (s = body ∧ body.all isBare = true) ∨ s.length < body.length := by
  induction high, body using unescape.induct generalizing s with
  | case1 high hnone =>
    rw [unescape, if_pos hnone] at h
    exact Or.inl ⟨(Option.some.inj h).symm, rfl⟩
  | case2 high hsome =>
    rw [unescape, if_neg hsome] at h
    cases h
  | case3 high => cases h
  | case4 high a b c d l ih =>
    rw [unescape_unit, Option.bind_eq_some_iff] at h
    obtain ⟨n, -, h⟩ := h
    rw [Option.bind_eq_some_iff] at h
    obtain ⟨⟨bytes, high'⟩, hunit, h⟩ := h
    rw [Option.map_eq_some_iff] at h
    obtain ⟨s, hs, rfl⟩ := h
    have hfour := length_unitBytes_le hunit
    have hle : s.length ≤ l.length := by
      obtain ⟨rfl, -⟩ | hlt := ih high' hs
      · exact le_rfl
      · exact hlt.le
    right
    rw [List.length_append]
    simp only [List.length_cons]
    omega
  | case5 high rest hrest =>
    rw [unescape.eq_def] at h
    simp only [↓reduceIte] at h
    cases h
  | case6 high e rest he hnone ih =>
    obtain rfl : high = none := Option.isNone_iff_eq_none.mp hnone
    rw [unescape.eq_def] at h
    simp only [↓reduceIte, he, hnone, Option.bind_eq_bind, Option.bind_eq_some_iff] at h
    obtain ⟨c, -, s, hs, hform⟩ := h
    obtain rfl := Option.some.inj hform
    right
    obtain ⟨rfl, -⟩ | hlt := ih hs
    · simp only [List.length_cons]
      omega
    · simp only [List.length_cons]
      omega
  | case7 high e rest he hsome =>
    rw [unescape.eq_def] at h
    simp only [↓reduceIte, he, hsome] at h
    cases h
  | case8 high c l hb hbad =>
    rw [unescape.eq_def] at h
    simp only [↓reduceIte, hb, hbad] at h
    cases h
  | case9 high c l hb hok ih =>
    rw [not_or, not_or] at hok
    obtain rfl : high = none := by simpa using hok.1
    rw [unescape_plain hok.2.1 hok.2.2 hb, Option.map_eq_some_iff] at h
    obtain ⟨s, hs, rfl⟩ := h
    obtain ⟨rfl, hbare⟩ | hlt := ih hs
    · refine Or.inl ⟨rfl, ?_⟩
      rw [List.all_cons, hbare, Bool.and_true]
      simp [isBare, hok.2.1, hb, hok.2.2]
    · exact Or.inr (Nat.succ_lt_succ hlt)

/-- A text between quotation marks. -/
def quoted (b : Bytes) : Bytes := 0x22 :: (b ++ [0x22])

/-- A text between quotation marks is read as one token at least. -/
theorem length_lexJson_quoted {b : Bytes} {ts : List JsonToken} (h : lexJson (quoted b) = some ts) :
    0 < ts.length := by
  obtain ⟨-, -, -, ts', -, -, -, rfl⟩ := lexJson_quote_eq_some h
  exact Nat.succ_pos _

/-- A text in which a byte is no blank is read as one token at least. -/
theorem length_lexJson_pos {l : Bytes} {ts : List JsonToken} {c : UInt8} (hc : c ∈ l)
    (hblank : isJsonBlank c = false) (h : lexJson l = some ts) : 0 < ts.length := by
  induction l with
  | nil => cases hc
  | cons d l ih =>
    by_cases hd : isJsonBlank d = true
    · rw [lexJson_blank hd] at h
      refine ih ?_ h
      obtain rfl | hmem := List.mem_cons.mp hc
      · rw [hblank] at hd
        cases hd
      · exact hmem
    · rw [lexJson_cons (by simpa using hd), Option.bind_eq_some_iff] at h
      obtain ⟨p, -, h⟩ := h
      rw [Option.map_eq_some_iff] at h
      obtain ⟨ts, -, rfl⟩ := h
      exact Nat.succ_pos _

/-- A text between quotation marks that is one string is the text of the string. -/
theorem unescape_of_lexJson_quoted {b v : Bytes} (h : lexJson (quoted b) = some [.str v]) :
    scanString (b ++ [0x22]) = some b ∧ unescape none b = some v := by
  unfold quoted at h
  rw [lexJson_quote, Option.bind_eq_some_iff] at h
  obtain ⟨body, hscan, h⟩ := h
  rw [Option.bind_eq_some_iff] at h
  obtain ⟨s, hs, h⟩ := h
  rw [Option.map_eq_some_iff] at h
  obtain ⟨ts, hts, heq⟩ := h
  obtain ⟨hstr, rfl⟩ := List.cons.inj heq
  obtain rfl := JsonToken.str.inj hstr
  obtain ⟨rest, hsplit⟩ := scanString_eq_some hscan
  obtain rfl | ⟨rest, d, rfl⟩ := rest.eq_nil_or_concat
  · obtain ⟨rfl, -⟩ := List.append_inj' hsplit rfl
    exact ⟨hscan, hs⟩
  · -- the last quotation mark would be one more token
    have hd : d = 0x22 := by
      have hshape : b ++ [0x22] = (body ++ 0x22 :: rest) ++ [d] := by
        rw [hsplit, List.concat_eq_append, List.append_assoc, List.cons_append]
      exact (List.cons.inj (List.append_inj' hshape rfl).2).1.symm
    subst hd
    have hdrop : (b ++ [0x22]).drop (body.length + 1) = rest ++ [0x22] := by
      rw [hsplit]
      simp
    rw [hdrop] at hts
    exact absurd (length_lexJson_pos (List.mem_append_right _ List.mem_cons_self) rfl hts)
      (Nat.lt_irrefl 0)

/-- A text of bytes that stand for themselves, between quotation marks. -/
theorem lexJson_quoted_of_bare {b : Bytes} (h : b.all isBare = true) :
    lexJson (quoted b) = some [.str b] := by
  have hself : escapeString b = b := by
    refine escapeString_eq_self fun c hc ↦ ?_
    have hbare := List.all_eq_true.mp h c hc
    simpa [isBare, and_assoc] using hbare
  have hlex := lexJson_escapeString b []
  rw [hself, lexJson_nil] at hlex
  exact hlex

/-- A text that is not longer than the string it is read as is the string. -/
theorem eq_of_lexJson_quoted {b v : Bytes} (h : lexJson (quoted b) = some [.str v])
    (hle : b.length ≤ v.length) : b = v ∧ v.all isBare = true := by
  obtain ⟨rfl, hbare⟩ | hlt := unescape_cases (unescape_of_lexJson_quoted h).2
  · exact ⟨rfl, hbare⟩
  · omega

/-- What starts in a string at this text cannot be read: it has no end, or holds a byte below the blank,
or no token is behind it. -/
def Sealed (r : Bytes) : Prop :=
  ∀ body, scanString r = some body →
    (∃ c ∈ body, c < 0x20) ∨ lexJson (r.drop (body.length + 1)) = none

/-- Such a text is not read from a quotation mark on. -/
theorem Sealed.lexJson_quote {r : Bytes} (h : Sealed r) : lexJson (0x22 :: r) = none := by
  rw [Base.lexJson_quote]
  cases hscan : scanString r with
  | none => rfl
  | some body =>
    rw [Option.bind_some]
    obtain ⟨c, hc, hlt⟩ | hnone := h body hscan
    · rw [unescape_eq_none hc hlt]
      rfl
    · rw [hnone]
      cases unescape none body <;> rfl

/-- The tokens of a text on both sides of the quotation mark that ends a string. -/
theorem lexJson_append_quote {r : Bytes} (hr : Sealed r) (x : Bytes) :
    lexJson (x ++ 0x22 :: r) = joinTokens (lexJson (x ++ [0x22])) (lexJson r) := by
  induction hn : x.length using Nat.strong_induction_on generalizing x with
  | _ n ih =>
    subst hn
    cases x with
    | nil => exact hr.lexJson_quote
    | cons c x =>
      have hstep : ∀ k, k ≤ x.length → lexJson ((x ++ 0x22 :: r).drop k) =
          joinTokens (lexJson ((x ++ [0x22]).drop k)) (lexJson r) := by
        intro k hk
        rw [List.drop_append_of_le_length hk, List.drop_append_of_le_length hk]
        exact ih (x.drop k).length (by rw [List.length_drop, List.length_cons]; omega) _ rfl
      rw [List.cons_append, List.cons_append]
      by_cases hblank : isJsonBlank c = true
      · rw [lexJson_blank hblank, lexJson_blank hblank]
        exact hstep 0 (Nat.zero_le _)
      rw [Bool.not_eq_true] at hblank
      by_cases hc : c = 0x22
      · subst hc
        rw [Base.lexJson_quote, Base.lexJson_quote]
        cases hscan : scanString x with
        | none =>
          obtain hend | hescape := scanString_append_quote hscan
          · rw [hend r, hend [], Option.bind_some, Option.bind_some]
            cases unescape none x with
            | none => rfl
            | some s =>
              have hdrop : ∀ z, (x ++ 0x22 :: z).drop (x.length + 1) = z := fun z ↦ by simp
              rw [Option.bind_some, Option.bind_some, hdrop, hdrop]
              cases lexJson r <;> rfl
          · -- the quotation mark is escaped, and the string goes on
            rw [hescape [], hescape r]
            cases hbody : scanString r with
            | none => rfl
            | some body =>
              rw [Option.map_some, Option.bind_some]
              show _ = none
              obtain ⟨c, hmem, hlt⟩ | hnone := hr body hbody
              · rw [unescape_eq_none (List.mem_append_right _ (List.mem_cons_of_mem _ hmem)) hlt]
                rfl
              · have hdrop : (x ++ 0x22 :: r).drop ((x ++ 0x22 :: body).length + 1) =
                    r.drop (body.length + 1) := by
                  rw [List.drop_append, List.drop_eq_nil_of_le (by simp; omega), List.nil_append,
                    List.length_append, List.length_cons,
                    (by omega : x.length + (body.length + 1) + 1 - x.length = body.length + 1 + 1),
                    List.drop_succ_cons]
                rw [hdrop, hnone]
                cases unescape none (x ++ 0x22 :: body) <;> rfl
        | some body =>
          obtain ⟨rest, rfl⟩ := scanString_eq_some hscan
          rw [scanString_append hscan, scanString_append hscan, Option.bind_some, Option.bind_some]
          cases unescape none body with
          | none => rfl
          | some s =>
            rw [Option.bind_some, Option.bind_some, hstep _ (by simp), map_cons_joinTokens]
      · rw [lexJson_cons hblank, lexJson_cons hblank, readToken_append hc rfl,
          readToken_append hc rfl]
        cases hread : readToken c x with
        | none => rfl
        | some p =>
          rw [Option.bind_some, Option.bind_some, hstep _ (readToken_le hc hread),
            map_cons_joinTokens]

/-! ## Parts of a text -/

/-- The tokens of both parts are the tokens of the whole. -/
theorem joinTokens_eq_some {a b : Option (List JsonToken)} {ts : List JsonToken} :
    joinTokens a b = some ts ↔ ∃ u v, a = some u ∧ b = some v ∧ ts = u ++ v := by
  unfold joinTokens
  rw [Option.bind_eq_some_iff]
  simp only [Option.map_eq_some_iff]
  constructor
  · rintro ⟨u, hu, v, hv, rfl⟩
    exact ⟨u, v, hu, hv, rfl⟩
  · rintro ⟨u, v, hu, hv, rfl⟩
    exact ⟨u, hu, v, hv, rfl⟩

/-- A text that is not read as fewer tokens than it has to be, and is read as these under a
condition. -/
structure Reads (l : Bytes) (e : List JsonToken) (P : Prop) : Prop where
  bounds : ∀ ts, lexJson l = some ts → e.length ≤ ts.length
  iff : lexJson l = some e ↔ P

namespace Reads

variable {l r : Bytes} {e e' : List JsonToken} {P Q : Prop}

/-- A text that is read as it has to be. -/
theorem of_eq (h : lexJson l = some e) : Reads l e True where
  bounds ts hts := by
    rw [h] at hts
    rw [Option.some.inj hts]
  iff := iff_of_true h trivial

/-- A text that is read as more tokens. -/
theorem of_lt (h : ∀ ts, lexJson l = some ts → e.length < ts.length) : Reads l e False where
  bounds ts hts := (h ts hts).le
  iff := iff_of_false (fun heq ↦ Nat.lt_irrefl _ (h e heq)) not_false

/-- The condition in another form. -/
theorem congr (h : Reads l e P) (hPQ : P ↔ Q) : Reads l e Q := ⟨h.bounds, h.iff.trans hPQ⟩

/-- The tokens of two parts, where the tokens of the whole are those of the parts. -/
theorem join {text : Bytes} (hl : Reads l e P) (hr : Reads r e' Q)
    (htext : lexJson text = joinTokens (lexJson l) (lexJson r)) : Reads text (e ++ e') (P ∧ Q) where
  bounds ts hts := by
    rw [htext] at hts
    obtain ⟨u, v, hu, hv, rfl⟩ := joinTokens_eq_some.mp hts
    rw [List.length_append, List.length_append]
    exact Nat.add_le_add (hl.bounds u hu) (hr.bounds v hv)
  iff := by
    rw [htext, joinTokens_eq_some, ← hl.iff, ← hr.iff]
    constructor
    · rintro ⟨u, v, hu, hv, heq⟩
      -- neither part can make up for a missing token of the other
      have hlen := congrArg List.length heq
      rw [List.length_append, List.length_append] at hlen
      have hle := hl.bounds u hu
      have hre := hr.bounds v hv
      obtain ⟨rfl, rfl⟩ := List.append_inj heq (by omega)
      exact ⟨hu, hv⟩
    · rintro ⟨hl, hr⟩
      exact ⟨e, e', hl, hr, rfl⟩

/-- A line and what is behind it. -/
theorem newline (hl : Reads l e P) (hr : Reads r e' Q) : Reads (l ++ 0x0A :: r) (e ++ e') (P ∧ Q) :=
  hl.join hr (lexJson_newline l r)

/-- A text that ends with a string. -/
theorem string {pre b v : Bytes} {ts : List JsonToken}
    (hpre : ∀ l, lexJson (pre ++ l) = (lexJson l).map (ts ++ ·)) :
    Reads (pre ++ quoted b) (ts ++ [.str v]) (lexJson (quoted b) = some [.str v]) where
  bounds us hus := by
    rw [hpre, Option.map_eq_some_iff] at hus
    obtain ⟨us, hus, rfl⟩ := hus
    rw [List.length_append, List.length_append]
    exact Nat.add_le_add_left (length_lexJson_quoted hus) _
  iff := by
    rw [hpre, Option.map_eq_some_iff]
    constructor
    · rintro ⟨us, hus, heq⟩
      rw [hus, List.append_cancel_left heq]
    · exact fun h ↦ ⟨_, h, rfl⟩

/-- A text up to the end of a string, and what is behind it. -/
theorem string_append {pre b v : Bytes} {ts : List JsonToken}
    (hpre : ∀ l, lexJson (pre ++ l) = (lexJson l).map (ts ++ ·)) (hsealed : Sealed r)
    (hr : Reads r e Q) :
    Reads (pre ++ quoted b ++ r) (ts ++ [.str v] ++ e) (lexJson (quoted b) = some [.str v] ∧ Q) := by
  refine (string hpre).join hr ?_
  have hform : ∀ l, pre ++ quoted b ++ l = (pre ++ 0x22 :: b) ++ 0x22 :: l := fun l ↦ by
    simp [quoted]
  rw [hform, lexJson_append_quote hsealed, ← hform, List.append_nil]

end Reads

/-- The text of lines. -/
def hereDoc (lines : List Bytes) : Bytes := lines.flatMap (· ++ [0x0A])

/-- No lines. -/
theorem Reads.hereDoc_nil : Reads (hereDoc []) [] True := .of_eq rfl

/-- One more line. -/
theorem Reads.cons {l : Bytes} {ls : List Bytes} {e e' : List JsonToken} {P Q : Prop}
    (hl : Reads l e P) (hls : Reads (hereDoc ls) e' Q) :
    Reads (hereDoc (l :: ls)) (e ++ e') (P ∧ Q) := by
  have hform : hereDoc (l :: ls) = l ++ 0x0A :: hereDoc ls := by
    unfold hereDoc
    rw [List.flatMap_cons, List.append_assoc, List.singleton_append]
  rw [hform]
  exact hl.newline hls

/-! ## Members -/

/-- `"key":value`. -/
def member (key value : Bytes) : Bytes := quoted key ++ 0x3A :: value

/-- The tokens of a member. -/
theorem lexJson_member {key : Bytes} (hkey : key.all isBare = true) (value : Bytes) :
    lexJson (member key value) = (lexJson value).map ([.str key, .colon] ++ ·) := by
  have hself : escapeString key = key := by
    refine escapeString_eq_self fun c hc ↦ ?_
    simpa [isBare, and_assoc] using List.all_eq_true.mp hkey c hc
  have hform : member key value = 0x22 :: (escapeString key ++ 0x22 :: 0x3A :: value) := by
    rw [hself]
    unfold member quoted
    simp
  rw [hform, lexJson_escapeString, lexJson_colon, Option.map_map]
  rfl

end OpenWrtCompile.Base
