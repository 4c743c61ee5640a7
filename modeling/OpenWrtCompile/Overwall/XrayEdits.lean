import OpenWrtCompile.Base.DotPattern
import OpenWrtCompile.Overwall.XrayConfig

/-!
# The substitutions in the configuration of Xray

The four substitutions go through the lines of the JSON text one by one: they take out the holes, rename
`UA`, and turn the form of a string into its shortest form, or, where the string has a backslash or
`null,` behind a blank, into a shorter text.
-/

namespace OpenWrtCompile.Overwall.Xray
open OpenWrtCompile.Base

/-! ## Strings -/

/-- The match of blanks and `null,` at the start of a string. -/
def blankMatch (l : Bytes) : Option Nat :=
  let k := (l.takeWhile (· = 0x20)).length
  if 0 < k ∧ ascii "null," <+: l.drop k then some (k + 5) else none

/-- The string without blanks and `null,`. -/
def dropNull (s : Bytes) : Bytes := gsub blankMatch [] s

/-- A string after the second substitution. -/
def unslashed (s : Bytes) : Bytes := escapeString (dropNull s)

/-- A string after all substitutions. -/
def edited (s : Bytes) : Bytes := gsub (literal (ascii "\\\\")) (ascii "\\") (unslashed s)

/-- What json-c prints for a byte. -/
def jsoncByte (c : UInt8) : Bytes := if c = 0x2F then [0x5C, 0x2F] else escapeByte c

/-- What json-c prints for a string. -/
theorem jsoncString_cons (c : UInt8) (s : Bytes) :
    jsoncString (c :: s) = jsoncByte c ++ jsoncString s := List.flatMap_cons

/-- The form of a byte is not empty. -/
theorem one_le_length_escapeByte (c : UInt8) : 1 ≤ (escapeByte c).length := by
  unfold escapeByte
  split_ifs <;> exact Nat.le_of_ble_eq_true rfl

/-- A letter or a digit. -/
def isAlnum (c : UInt8) : Bool :=
  (0x30 ≤ c && c ≤ 0x39) || (0x41 ≤ c && c ≤ 0x5A) || (0x61 ≤ c && c ≤ 0x7A)

/-- A letter or a digit has its place in the table. -/
theorem isAlnum_iff {c : UInt8} : isAlnum c = true ↔ 48 ≤ c.toNat ∧ c.toNat ≤ 57 ∨
    65 ≤ c.toNat ∧ c.toNat ≤ 90 ∨ 97 ≤ c.toNat ∧ c.toNat ≤ 122 := by
  simp only [isAlnum, Bool.or_eq_true, Bool.and_eq_true, decide_eq_true_eq, UInt8.le_iff_toNat_le,
    or_assoc]
  rfl

/-- A letter or a digit is not a byte of another place. -/
theorem ne_of_isAlnum {c d : UInt8} (hc : isAlnum c = true) (hd : isAlnum d = false) : c ≠ d := by
  rintro rfl
  rw [hc] at hd
  cases hd

/-- A space has its place in the table. -/
theorem isSpace_iff {c : UInt8} :
    Subscribe.isSpace c = true ↔ 9 ≤ c.toNat ∧ c.toNat ≤ 13 ∨ c.toNat = 32 := by
  simp only [Subscribe.isSpace, Bool.or_eq_true, Bool.and_eq_true, decide_eq_true_eq,
    UInt8.le_iff_toNat_le, ← UInt8.toNat_inj]
  rfl

/-- A letter or a digit is no space. -/
theorem isSpace_of_isAlnum {c : UInt8} (hc : isAlnum c = true) : Subscribe.isSpace c = false := by
  rw [Bool.eq_false_iff, ne_eq, isSpace_iff]
  rw [isAlnum_iff] at hc
  omega

/-- A hexadecimal digit is a letter or a digit. -/
theorem isAlnum_hexLower {n : UInt8} (hn : n < 16) : isAlnum (hexLower n) = true := by
  have h : ∀ k, k < 16 → isAlnum (hexLower (UInt8.ofNat k)) = true := by decide
  exact forall_byte_lt (P := fun n ↦ isAlnum (hexLower n) = true) h n hn

/-- The form of a byte: itself, the byte behind a backslash, or letters and digits behind one. -/
theorem escapeByte_cases (c : UInt8) :
    (escapeByte c = [c] ∧ c ≠ 0x22 ∧ c ≠ 0x5C ∧ ¬ c < 0x20) ∨
      (escapeByte c = [0x5C, c] ∧ (c = 0x22 ∨ c = 0x5C)) ∨
        c < 0x20 ∧ ∃ d t, escapeByte c = 0x5C :: d :: t ∧ (d :: t).all isAlnum = true := by
  unfold escapeByte
  split_ifs with h22 h8 hc ha hd h9 h20
  · exact Or.inr (Or.inl ⟨rfl, h22⟩)
  · exact Or.inr (Or.inr ⟨h8 ▸ by decide, _, _, rfl, rfl⟩)
  · exact Or.inr (Or.inr ⟨hc ▸ by decide, _, _, rfl, rfl⟩)
  · exact Or.inr (Or.inr ⟨ha ▸ by decide, _, _, rfl, rfl⟩)
  · exact Or.inr (Or.inr ⟨hd ▸ by decide, _, _, rfl, rfl⟩)
  · exact Or.inr (Or.inr ⟨h9 ▸ by decide, _, _, rfl, rfl⟩)
  · refine Or.inr (Or.inr ⟨h20, 0x75, [0x30, 0x30, hexLower (c / 16), hexLower (c % 16)], rfl, ?_⟩)
    have hlt : c.toNat < 32 := h20
    have hhigh : c / 16 < 16 := by
      show (c / 16).toNat < 16
      rw [UInt8.toNat_div]
      exact Nat.div_lt_of_lt_mul (by simpa using (by omega : c.toNat < 256))
    have hlow : c % 16 < 16 := by
      show (c % 16).toNat < 16
      rw [UInt8.toNat_mod]
      exact Nat.mod_lt _ (by decide)
    simp only [List.all_cons, List.all_nil, isAlnum_hexLower hhigh, isAlnum_hexLower hlow,
      Bool.and_true]
    decide
  · rw [not_or] at h22
    exact Or.inl ⟨rfl, h22.1, h22.2, h20⟩

/-- A byte is printed as something. -/
theorem jsoncByte_ne_nil (c : UInt8) : jsoncByte c ≠ [] := by
  unfold jsoncByte
  split_ifs
  · exact List.cons_ne_nil _ _
  · exact List.ne_nil_of_length_pos (one_le_length_escapeByte c)

/-- No space is printed for a byte other than the blank. -/
theorem blank_not_mem_jsoncByte {c : UInt8} (hc : c ≠ 0x20) :
    ∀ b ∈ jsoncByte c, Subscribe.isSpace b = false := by
  unfold jsoncByte
  split_ifs with hslash
  · exact forall_mem_of_all (by decide)
  · obtain ⟨hform, -, -, hge⟩ | ⟨hform, rfl | rfl⟩ | ⟨-, d, t, hform, hall⟩ := escapeByte_cases c
    · rw [hform, List.forall_mem_singleton, Bool.eq_false_iff, ne_eq, isSpace_iff]
      have hge' : ¬ c.toNat < 32 := hge
      have hne : c.toNat ≠ 32 := fun h ↦ hc (UInt8.toNat_inj.mp h)
      omega
    · rw [hform]
      exact forall_mem_of_all (by decide)
    · rw [hform]
      exact forall_mem_of_all (by decide)
    · rw [hform, List.forall_mem_cons]
      exact ⟨by decide, fun b hb ↦ isSpace_of_isAlnum (List.all_eq_true.mp hall b hb)⟩

/-- The bytes of `null,` and the blank are printed as they are. -/
theorem jsoncByte_of_mem {d : UInt8} (hd : d ∈ ascii " null,") : jsoncByte d = [d] := by
  have h : ∀ d ∈ ascii " null,", jsoncByte d = [d] := forall_mem_of_all (by decide)
  exact h d hd

/-- What is printed for a byte starts with it, or with a backslash. -/
theorem head_jsoncByte (c : UInt8) :
    (jsoncByte c).head? = some 0x5C ∨ jsoncByte c = [c] ∧ c ≠ 0x2F := by
  unfold jsoncByte
  split_ifs with hslash
  · exact Or.inl rfl
  · obtain ⟨hform, -, -, -⟩ | ⟨hform, -⟩ | ⟨-, d, t, hform, -⟩ := escapeByte_cases c
    · exact Or.inr ⟨hform, hslash⟩
    · exact Or.inl (by rw [hform]; rfl)
    · exact Or.inl (by rw [hform]; rfl)

/-- No other byte is printed as one of `null,` or as the blank. -/
theorem jsoncByte_head (c d : UInt8) (hd : d ∈ ascii " null,") :
    (jsoncByte c).head? = some d ↔ c = d := by
  have hne : ∀ d ∈ ascii " null,", d ≠ 0x5C := forall_mem_of_all (by decide)
  constructor
  · intro h
    obtain hb | ⟨hform, -⟩ := head_jsoncByte c
    · rw [hb] at h
      exact absurd (Option.some.inj h).symm (hne d hd)
    · rw [hform] at h
      exact Option.some.inj h
  · rintro rfl
    rw [jsoncByte_of_mem hd]
    rfl

/-- A text of such bytes is printed as it is. -/
theorem jsoncString_of_subset {a : Bytes} (ha : ∀ d ∈ a, d ∈ ascii " null,") (s : Bytes) :
    jsoncString (a ++ s) = a ++ jsoncString s := by
  induction a with
  | nil => rfl
  | cons d a ih =>
    rw [List.cons_append, jsoncString_cons, jsoncByte_of_mem (ha d List.mem_cons_self),
      ih fun e he ↦ ha e (List.mem_cons_of_mem _ he)]
    rfl

/-- The form of a string starts with a plain text if the string does. -/
theorem prefix_jsoncString {p : Bytes} (hp : ∀ d ∈ p, d ∈ ascii " null,") (s : Bytes) :
    p <+: jsoncString s ↔ p <+: s := by
  induction p generalizing s with
  | nil => exact iff_of_true List.nil_prefix List.nil_prefix
  | cons d p ih =>
    have ih' := ih fun e he ↦ hp e (List.mem_cons_of_mem _ he)
    have hd := hp d List.mem_cons_self
    cases s with
    | nil => exact Iff.rfl
    | cons c s =>
      rw [jsoncString_cons, List.cons_prefix_cons]
      by_cases hc : c = d
      · subst hc
        rw [jsoncByte_of_mem hd, List.singleton_append, List.cons_prefix_cons, ih']
      · refine iff_of_false (fun h ↦ ?_) fun h ↦ hc h.1.symm
        have hhead : (jsoncByte c).head? = some d := by
          cases hb : jsoncByte c with
          | nil => exact absurd hb (jsoncByte_ne_nil c)
          | cons b t =>
            rw [hb, List.cons_append, List.cons_prefix_cons] at h
            rw [h.1]
            rfl
        exact hc ((jsoncByte_head c d hd).mp hhead)

/-- The blanks at the start of the form are those of the string. -/
theorem takeWhile_jsoncString (s : Bytes) :
    (jsoncString s).takeWhile Subscribe.isSpace = s.takeWhile (· = 0x20) ∧
      (jsoncString s).drop (s.takeWhile (· = 0x20)).length =
        jsoncString (s.drop (s.takeWhile (· = 0x20)).length) := by
  induction s with
  | nil => exact ⟨rfl, rfl⟩
  | cons c s ih =>
    by_cases hc : c = 0x20
    · subst hc
      have hform : jsoncString (0x20 :: s) = 0x20 :: jsoncString s := rfl
      rw [hform, List.takeWhile_cons_of_pos rfl, List.takeWhile_cons_of_pos (by decide), ih.1]
      exact ⟨rfl, ih.2⟩
    · have hnil : (c :: s).takeWhile (fun b ↦ decide (b = 0x20)) = [] :=
        List.takeWhile_cons_of_neg (by simpa using hc)
      rw [hnil]
      refine ⟨?_, rfl⟩
      rw [jsoncString_cons]
      have hno := blank_not_mem_jsoncByte hc
      cases hb : jsoncByte c with
      | nil => exact absurd hb (jsoncByte_ne_nil c)
      | cons b t =>
        rw [List.cons_append, List.takeWhile_cons_of_neg]
        rw [hno b (by rw [hb]; exact List.mem_cons_self)]
        decide

/-- The first substitution finds in the form what is found in the string. -/
theorem nullMatch_jsoncString (s : Bytes) : nullMatch (jsoncString s) = blankMatch s := by
  have hnull : ∀ d ∈ ascii "null,", d ∈ ascii " null," := forall_mem_of_all (by decide)
  unfold nullMatch blankMatch
  obtain ⟨htake, hdrop⟩ := takeWhile_jsoncString s
  rw [htake]
  dsimp only
  rw [hdrop]
  simp only [prefix_jsoncString hnull]

/-- No match starts at another byte than a space. -/
theorem nullMatch_of_head {c : UInt8} (hc : Subscribe.isSpace c = false) (l : Bytes) :
    nullMatch (c :: l) = none := by
  unfold nullMatch
  rw [List.takeWhile_cons_of_neg (by simp [hc])]
  rfl

/-- A match is a part of the text. -/
theorem blankMatch_eq_some {s : Bytes} {n : Nat} (h : blankMatch s = some n) :
    0 < n ∧ n ≤ s.length ∧ ∀ d ∈ s.take n, d ∈ ascii " null," := by
  have hblank : ∀ d ∈ s.takeWhile (· = 0x20), d ∈ ascii " null," := by
    intro d hd
    obtain rfl : d = 0x20 := by simpa using List.mem_takeWhile_imp hd
    decide
  have hnull : ∀ d ∈ ascii "null,", d ∈ ascii " null," := forall_mem_of_all (by decide)
  have hw : s.takeWhile (· = 0x20) ++ s.drop (s.takeWhile (· = 0x20)).length = s :=
    List.prefix_iff_eq_append.mp (List.takeWhile_prefix _)
  unfold blankMatch at h
  dsimp only at h
  generalize s.takeWhile (fun b ↦ decide (b = 0x20)) = w at h hblank hw
  split_ifs at h with hcond
  obtain ⟨hpos, b, hb⟩ := hcond
  obtain rfl := Option.some.inj h
  rw [← hb, ← List.append_assoc] at hw
  have hlen : (w ++ ascii "null,").length = w.length + 5 := List.length_append
  rw [← hw]
  refine ⟨by omega, by rw [List.length_append]; omega, fun d hd ↦ ?_⟩
  rw [List.take_append_of_le_length hlen.ge, List.take_of_length_le hlen.le, List.mem_append] at hd
  obtain hd | hd := hd
  · exact hblank d hd
  · exact hnull d hd

/-- The first substitution on the form of a string. -/
theorem gsub_nullMatch_jsoncString (s : Bytes) :
    gsub nullMatch [] (jsoncString s) = jsoncString (dropNull s) := by
  induction hn : s.length using Nat.strong_induction_on generalizing s with
  | _ n ih =>
    cases s with
    | nil => rfl
    | cons c l =>
      cases hmatch : blankMatch (c :: l) with
      | some k =>
        obtain ⟨hpos, hk, hbytes⟩ := blankMatch_eq_some hmatch
        have hlen : ((c :: l).take k).length = k := List.length_take_of_le hk
        have hne : (c :: l).take k ≠ [] := List.ne_nil_of_length_pos (by omega)
        have hsplit : (c :: l).take k ++ (c :: l).drop k = c :: l := List.take_append_drop _ _
        have hdrop : dropNull (c :: l) = dropNull ((c :: l).drop k) := by
          conv_lhs => rw [← hsplit]
          exact gsub_match hne (by rw [hsplit, hlen, hmatch])
        have hform : jsoncString (c :: l) = (c :: l).take k ++ jsoncString ((c :: l).drop k) := by
          conv_lhs => rw [← hsplit]
          exact jsoncString_of_subset hbytes _
        have hgsub : gsub nullMatch [] (jsoncString (c :: l)) =
            gsub nullMatch [] (jsoncString ((c :: l).drop k)) := by
          rw [hform]
          exact gsub_match hne (by rw [← hform, nullMatch_jsoncString, hlen, hmatch])
        rw [hgsub, hdrop]
        exact ih _ (by rw [List.length_drop]; omega) _ rfl
      | none =>
        have hdrop : dropNull (c :: l) = c :: dropNull l := gsub_miss hmatch
        rw [hdrop, jsoncString_cons, jsoncString_cons, gsub_append_of_none, ih l.length (by
          rw [← hn, List.length_cons]; omega) l rfl]
        intro t hne ht
        by_cases hc : c = 0x20
        · subst hc
          obtain rfl | ht := List.suffix_cons_iff.mp ht
          · rw [← hmatch, ← nullMatch_jsoncString]
            rfl
          · exact absurd (List.suffix_nil.mp ht) hne
        · cases t with
          | nil => exact absurd rfl hne
          | cons b t =>
            exact nullMatch_of_head (blank_not_mem_jsoncByte hc b (ht.subset List.mem_cons_self)) _

/-- The second substitution on a byte. -/
theorem gsub_slash_jsoncByte (c : UInt8) :
    gsub (literal (ascii "\\/")) (ascii "/") (jsoncByte c) = escapeByte c := by
  unfold jsoncByte
  split_ifs with hslash
  · subst hslash
    decide
  · refine gsub_literal_eq_self fun hinf ↦ ?_
    have hmem : (0x2F : UInt8) ∈ escapeByte c := hinf.subset (by decide)
    obtain ⟨hform, -, -, -⟩ | ⟨hform, rfl | rfl⟩ | ⟨-, d, t, hform, hall⟩ := escapeByte_cases c
    · rw [hform] at hmem
      exact hslash (List.mem_singleton.mp hmem).symm
    · rw [hform] at hmem
      exact absurd hmem (by decide)
    · rw [hform] at hmem
      exact absurd hmem (by decide)
    · rw [hform, List.mem_cons] at hmem
      obtain heq | hmem := hmem
      · exact absurd heq (by decide)
      · exact ne_of_isAlnum (List.all_eq_true.mp hall _ hmem) (by decide) rfl

/-- The second substitution on the form of a string. -/
theorem gsub_slash_jsoncString (s : Bytes) :
    gsub (literal (ascii "\\/")) (ascii "/") (jsoncString s) = escapeString s := by
  have hhead : ∀ (s : Bytes) (c : UInt8), (jsoncString s).head? = some c →
      c ∉ (ascii "\\/").tail := by
    intro s c hc hmem
    have hmem' : c ∈ ([0x2F] : Bytes) := hmem
    obtain rfl := List.mem_singleton.mp hmem'
    cases s with
    | nil => cases hc
    | cons d s =>
      have hd : (jsoncByte d).head? = some 0x2F := by
        rw [jsoncString_cons] at hc
        cases hb : jsoncByte d with
        | nil => exact absurd hb (jsoncByte_ne_nil d)
        | cons b t =>
          rw [hb] at hc
          exact hc
      obtain hb | ⟨hform, hne⟩ := head_jsoncByte d
      · rw [hb] at hd
        exact absurd (Option.some.inj hd) (by decide)
      · rw [hform] at hd
        exact hne (Option.some.inj hd)
  have hparts : gsub (literal (ascii "\\/")) (ascii "/") (s.flatMap jsoncByte) =
      s.flatMap fun c ↦ gsub (literal (ascii "\\/")) (ascii "/") (jsoncByte c) :=
    gsub_flatMap (within_literal _) fun x ys _ ↦ cuts_of_head (hhead ys)
  have hform : jsoncString s = s.flatMap jsoncByte := rfl
  rw [hform, hparts]
  simp only [gsub_slash_jsoncByte]
  rfl

/-- What is taken out of a string is `null,` behind a blank. -/
theorem infix_of_blankMatch {s : Bytes} {n : Nat} (h : blankMatch s = some n) :
    ascii " null," <:+: s := by
  have hw : s.takeWhile (· = 0x20) ++ s.drop (s.takeWhile (· = 0x20)).length = s :=
    List.prefix_iff_eq_append.mp (List.takeWhile_prefix _)
  have hblank : ∀ d ∈ s.takeWhile (· = 0x20), d = 0x20 := fun d hd ↦ by
    simpa using List.mem_takeWhile_imp hd
  unfold blankMatch at h
  dsimp only at h
  generalize s.takeWhile (fun b ↦ decide (b = 0x20)) = w at h hblank hw
  split_ifs at h with hcond
  obtain ⟨hpos, b, hb⟩ := hcond
  obtain rfl | ⟨v, c, rfl⟩ := List.eq_nil_or_concat' w
  · cases hpos
  obtain rfl := hblank c (by simp)
  rw [← hb] at hw
  exact ⟨v, b, by rw [← hw]; simp [ascii]⟩

/-- A match of blanks and `null,` is a part of the string. -/
theorem within_blankMatch : Within blankMatch := fun _ _ h ↦ (blankMatch_eq_some h).2.1

/-- Nothing is taken out of a string without `null,` behind a blank. -/
theorem dropNull_eq_self {s : Bytes} (h : ¬ ascii " null," <:+: s) : dropNull s = s := by
  refine gsub_eq_self fun t _ ht ↦ ?_
  cases hmatch : blankMatch t with
  | none => rfl
  | some n => exact absurd ((infix_of_blankMatch hmatch).trans ht.isInfix) h

/-- A string with `null,` behind a blank gets shorter. -/
theorem length_dropNull_lt {s : Bytes} (h : ascii " null," <:+: s) :
    (dropNull s).length < s.length := by
  have hr : ∀ t n, blankMatch t = some n → ([] : Bytes).length < n := fun t n hn ↦
    (blankMatch_eq_some hn).1
  obtain hlt | ⟨-, hno⟩ := length_gsub within_blankMatch hr s
  · exact hlt
  · obtain ⟨a, b, rfl⟩ := h
    have hnone := hno (ascii " null," ++ b) (by simp [ascii]) ⟨a, by simp⟩
    have hsome : blankMatch (ascii " null," ++ b) = some 6 := by
      have hpre : ascii "null," <+: ascii "null," ++ b := List.prefix_append _ _
      have hform : ascii " null," ++ b = 0x20 :: (ascii "null," ++ b) := rfl
      have htake : (ascii "null," ++ b).takeWhile (fun c ↦ decide (c = 0x20)) = [] := rfl
      unfold blankMatch
      rw [hform, List.takeWhile_cons_of_pos (by decide), htake]
      exact if_pos ⟨by decide, hpre⟩
    rw [hsome] at hnone
    cases hnone

/-- What is left of a string has a form that is shorter by as many bytes at least. -/
theorem length_escapeString_sublist {s t : Bytes} (h : s.Sublist t) :
    (escapeString s).length + t.length ≤ (escapeString t).length + s.length := by
  induction h with
  | slnil => exact le_rfl
  | cons c _ ih =>
    have hone := one_le_length_escapeByte c
    rw [escapeString_cons, List.length_append, List.length_cons]
    omega
  | cons_cons c _ ih =>
    rw [escapeString_cons, escapeString_cons, List.length_append, List.length_append,
      List.length_cons, List.length_cons]
    omega

/-- The third substitution on the form of a byte. -/
theorem gsub_backslash_escapeByte {c : UInt8} (hc : c ≠ 0x5C) :
    (escapeByte c).getLast? ≠ some 0x5C ∧
      gsub (literal (ascii "\\\\")) (ascii "\\") (escapeByte c) = escapeByte c := by
  have htwo : ∀ {l : Bytes}, l.count 0x5C ≤ 1 →
      gsub (literal (ascii "\\\\")) (ascii "\\") l = l := by
    intro l hl
    refine gsub_literal_eq_self fun hinf ↦ ?_
    have hcount := hinf.sublist.count_le 0x5C
    have h2 : (ascii "\\\\").count 0x5C = 2 := by decide
    omega
  obtain ⟨hform, -, -, -⟩ | ⟨hform, rfl | rfl⟩ | ⟨-, d, t, hform, hall⟩ := escapeByte_cases c
  · rw [hform]
    exact ⟨fun h ↦ hc (Option.some.inj h), htwo (List.count_le_length)⟩
  · rw [hform]
    exact ⟨by decide, htwo (by decide)⟩
  · exact absurd rfl hc
  · have hno : (0x5C : UInt8) ∉ d :: t := fun hmem ↦
      ne_of_isAlnum (List.all_eq_true.mp hall _ hmem) (by decide) rfl
    rw [hform]
    refine ⟨fun h ↦ hno ?_, htwo ?_⟩
    · rw [← List.singleton_append, List.getLast?_append_of_ne_nil _ (List.cons_ne_nil _ _)] at h
      exact List.mem_of_getLast? h
    · rw [List.count_cons_self, List.count_eq_zero_of_not_mem hno]

/-- A clean string gets its shortest form. -/
theorem edited_of_clean {s : Bytes} (h : Clean s) : edited s = escapeString s := by
  unfold edited unslashed
  rw [dropNull_eq_self h.2]
  have hparts : gsub (literal (ascii "\\\\")) (ascii "\\") (s.flatMap escapeByte) =
      s.flatMap fun c ↦ gsub (literal (ascii "\\\\")) (ascii "\\") (escapeByte c) := by
    refine gsub_flatMap (within_literal _) fun c ys hys ↦ cuts_of_last fun d hd hmem ↦ ?_
    have hc : c ≠ 0x5C := fun heq ↦ h.1 (heq ▸ hys.subset List.mem_cons_self)
    have hmem' : d ∈ ([0x5C] : Bytes) := hmem
    obtain rfl := List.mem_singleton.mp hmem'
    exact (gsub_backslash_escapeByte hc).1 hd
  have hform : escapeString s = s.flatMap escapeByte := rfl
  rw [hform, hparts]
  refine List.flatMap_congr fun c hc ↦ ?_
  exact (gsub_backslash_escapeByte fun heq ↦ h.1 (heq ▸ hc)).2

/-- The third substitution does not lengthen a text. -/
theorem length_gsub_backslash (l : Bytes) :
    (gsub (literal (ascii "\\\\")) (ascii "\\") l).length ≤ l.length := by
  obtain hlt | ⟨heq, -⟩ := length_gsub_literal (p := ascii "\\\\") (r := ascii "\\") (by decide) l
  · exact hlt.le
  · exact (congrArg List.length heq).le

/-- A string that is not clean gets a text that is shorter than its shortest form. -/
theorem length_edited_lt {s : Bytes} (h : ¬ Clean s) :
    (edited s).length < (escapeString s).length := by
  have hle : (edited s).length ≤ (escapeString (dropNull s)).length := length_gsub_backslash _
  have hsub : (escapeString (dropNull s)).length + s.length ≤
      (escapeString s).length + (dropNull s).length :=
    length_escapeString_sublist (gsub_sublist within_blankMatch s)
  by_cases hnull : ascii " null," <:+: s
  · have hlt := length_dropNull_lt hnull
    omega
  · have hmem : (0x5C : UInt8) ∈ s := by
      by_contra hno
      exact h ⟨hno, hnull⟩
    obtain ⟨a, b, rfl⟩ := List.append_of_mem hmem
    unfold edited unslashed
    rw [dropNull_eq_self hnull]
    obtain hlt | ⟨-, hno⟩ := length_gsub_literal (p := ascii "\\\\") (r := ascii "\\") (by decide)
      (escapeString (a ++ 0x5C :: b))
    · exact hlt
    · refine absurd ⟨escapeString a, escapeString b, ?_⟩ hno
      unfold escapeString
      rw [List.flatMap_append, List.flatMap_cons, List.append_assoc]
      rfl

/-! ## Quotation marks in a string -/

/-- Every quotation mark stands behind a backslash; `p` says whether the text does. -/
def guarded (p : Bool) : Bytes → Bool
  | [] => true
  | c :: l => (c ≠ 0x22 || p) && guarded (c = 0x5C) l

/-- A guarded text behind another. -/
theorem guarded_append {p : Bool} {a b : Bytes} (ha : guarded p a = true)
    (hb : ∀ q, guarded q b = true) : guarded p (a ++ b) = true := by
  induction a generalizing p with
  | nil => exact hb p
  | cons c a ih =>
    obtain ⟨hc, ha⟩ := Bool.and_eq_true_iff.mp ha
    exact Bool.and_eq_true_iff.mpr ⟨hc, ih ha⟩

/-- The form of a string is guarded. -/
theorem guarded_escapeString (p : Bool) (s : Bytes) : guarded p (escapeString s) = true := by
  have hplain : ∀ (l : Bytes) (p : Bool), (0x22 : UInt8) ∉ l → guarded p l = true := by
    intro l
    induction l with
    | nil => exact fun _ _ ↦ rfl
    | cons c l ih =>
      intro p hl
      rw [List.mem_cons, not_or] at hl
      rw [guarded, ih _ hl.2, Bool.and_true, Bool.or_eq_true]
      exact Or.inl (decide_eq_true (Ne.symm hl.1))
  induction s generalizing p with
  | nil => rfl
  | cons c s ih =>
    rw [escapeString_cons]
    refine guarded_append ?_ ih
    obtain ⟨hform, hq, -, -⟩ | ⟨hform, rfl | rfl⟩ | ⟨-, d, t, hform, hall⟩ := escapeByte_cases c
    · rw [hform]
      exact hplain _ p fun hmem ↦ hq (List.mem_singleton.mp hmem).symm
    · rw [hform]
      cases p <;> decide
    · rw [hform]
      cases p <;> decide
    · rw [hform]
      refine hplain _ p fun hmem ↦ ?_
      obtain heq | hmem := List.mem_cons.mp hmem
      · exact absurd heq (by decide)
      · exact ne_of_isAlnum (List.all_eq_true.mp hall _ hmem) (by decide) rfl

/-- The third substitution keeps a text guarded. -/
theorem guarded_gsub_backslash {p : Bool} {l : Bytes} (h : guarded p l = true) :
    guarded p (gsub (literal (ascii "\\\\")) (ascii "\\") l) = true := by
  induction hn : l.length using Nat.strong_induction_on generalizing p l with
  | _ n ih =>
    cases l with
    | nil => rfl
    | cons c l =>
      obtain ⟨hc, hl⟩ := Bool.and_eq_true_iff.mp h
      rw [List.length_cons] at hn
      by_cases hmatch : ascii "\\\\" <+: c :: l
      · obtain ⟨b, hb⟩ := hmatch
        have hform : ascii "\\\\" ++ b = 0x5C :: 0x5C :: b := rfl
        obtain ⟨rfl, rfl⟩ := List.cons.inj (hform.symm.trans hb)
        rw [← hb, gsub_match (by decide) (literal_append _ b)]
        rw [List.length_cons] at hn
        refine Bool.and_eq_true_iff.mpr ⟨rfl, ih b.length (by omega) ?_ rfl⟩
        exact (Bool.and_eq_true_iff.mp hl).2
      · rw [gsub_miss (literal_eq_none hmatch)]
        exact Bool.and_eq_true_iff.mpr ⟨hc, ih l.length (by omega) hl rfl⟩

/-- In a guarded text no quotation mark stands behind another byte than a backslash. -/
theorem not_guarded {p : Bool} {c : UInt8} (hc : c ≠ 0x5C) (a b : Bytes) :
    guarded p (a ++ c :: 0x22 :: b) = false := by
  induction a generalizing p with
  | nil => simp [guarded, hc]
  | cons d a ih =>
    rw [List.cons_append, guarded, ih, Bool.and_false]

/-- The key that is rewritten is not in a string. -/
theorem not_infix_edited (s : Bytes) :
    ¬ ascii "UA\": " <:+: 0x22 :: (edited s ++ [0x22]) := by
  rintro ⟨a, b, hab⟩
  have hguard : guarded false (edited s) = true :=
    guarded_gsub_backslash (guarded_escapeString false _)
  have hform : ascii "UA\": " = [0x55, 0x41, 0x22, 0x3A, 0x20] := by decide
  rw [hform] at hab
  cases a with
  | nil => cases hab
  | cons c a =>
    obtain ⟨-, hab⟩ := List.cons.inj hab
    obtain rfl | ⟨b, d, rfl⟩ := List.eq_nil_or_concat' b
    · have hlast := congrArg List.getLast? hab
      simp at hlast
    · have happ : (a ++ 0x55 :: 0x41 :: 0x22 :: 0x3A :: 0x20 :: b) ++ [d] = edited s ++ [0x22] := by
        rw [← hab]
        simp
      obtain ⟨hedited, -⟩ := List.append_inj' happ rfl
      have hbad := not_guarded (p := false) (c := 0x41) (by decide) (a ++ [0x55]) (0x3A :: 0x20 :: b)
      rw [List.append_assoc, List.singleton_append, hedited, hguard] at hbad
      cases hbad

/-! ## Lines -/

/-- The line is a hole. -/
def JsonLine.isHole : JsonLine → Bool
  | .hole _ => true
  | .line _ _ _ _ => false

/-- A byte that a line has outside of its key and of a string. -/
def isFrame (c : UInt8) : Bool := c ≠ 0x5C && c ≠ 0x55 && c ≠ 0x20 && c ≠ 0x22

/-- The text of a body that is no string. -/
theorem LineBody.text_congr {body : LineBody} (h : ∀ s, body ≠ .str s) (str str' : Bytes → Bytes) :
    body.text str = body.text str' := by
  cases body with
  | str s => exact absurd rfl (h s)
  | _ => rfl

/-- A byte of a number is such a byte. -/
theorem frame_of_isNumberByte {c : UInt8} (h : isNumberByte c = true) :
    (isFrame c && !Subscribe.isSpace c) = true ∧ c ≠ 0x6E := by
  simp only [isNumberByte, isJsonDigit, Bool.or_eq_true, Bool.and_eq_true, decide_eq_true_eq] at h
  obtain ((((⟨h₁, h₂⟩ | rfl) | rfl) | rfl) | rfl) | rfl := h
  · have hlow : 48 ≤ c.toNat := h₁
    have hhigh : c.toNat ≤ 57 := h₂
    have hne : ∀ d : UInt8, ¬ (48 ≤ d.toNat ∧ d.toNat ≤ 57) → c ≠ d := by
      rintro d hd rfl
      exact hd ⟨hlow, hhigh⟩
    have hspace : Subscribe.isSpace c = false := by
      rw [Bool.eq_false_iff, ne_eq, isSpace_iff]
      omega
    refine ⟨?_, hne _ (by decide)⟩
    simp [isFrame, hspace, hne 0x5C (by decide), hne 0x55 (by decide), hne 0x20 (by decide),
      hne 0x22 (by decide)]
  all_goals exact ⟨by decide, by decide⟩

/-- A body that is no string consists of such bytes, and does not start with `n`. -/
theorem LineBody.text_frame {body : LineBody} (h : ∀ s, body ≠ .str s) (str : Bytes → Bytes) :
    (body.text str).all (fun c ↦ isFrame c && !Subscribe.isSpace c) = true ∧
      (body.text str).head? ≠ some 0x6E := by
  rw [LineBody.text_congr h str id]
  cases body with
  | str s => exact absurd rfl (h s)
  | bool b => cases b <;> exact ⟨by decide, by decide⟩
  | num x =>
    obtain ⟨text, valid⟩ := x
    have hall : text.all isNumberByte = true := (Bool.and_eq_true_iff.mp valid).1
    have hbyte := fun c hc ↦ frame_of_isNumberByte (List.all_eq_true.mp hall c hc)
    refine ⟨List.all_eq_true.mpr fun c hc ↦ (hbyte c hc).1, fun hhead ↦ ?_⟩
    exact (hbyte _ (List.mem_of_head? hhead)).2 rfl
  | openArr | closeArr | openObj | closeObj | empty => exact ⟨by decide, by decide⟩

/-- A body is not empty. -/
theorem LineBody.text_ne_nil (body : LineBody) (str : Bytes → Bytes) : body.text str ≠ [] := by
  cases body with
  | bool b => cases b <;> exact List.cons_ne_nil _ _
  | num x =>
    obtain ⟨text, valid⟩ := x
    rintro rfl
    exact absurd valid (by decide)
  | str s => exact List.cons_ne_nil _ _
  | openArr | closeArr | openObj | closeObj | empty => exact List.cons_ne_nil _ _

/-- What a body starts with. -/
theorem LineBody.head_text (body : LineBody) (str : Bytes → Bytes) (l : Bytes) :
    ∃ c t, body.text str ++ l = c :: t ∧ Subscribe.isSpace c = false ∧ c ≠ 0x6E := by
  obtain ⟨c, t, hb⟩ := List.exists_cons_of_ne_nil (body.text_ne_nil str)
  refine ⟨c, t ++ l, by rw [hb]; rfl, ?_⟩
  by_cases hstr : ∃ s, body = .str s
  · obtain ⟨s, rfl⟩ := hstr
    obtain ⟨rfl, -⟩ := List.cons.inj hb
    exact ⟨rfl, by decide⟩
  · obtain ⟨hall, hhead⟩ := LineBody.text_frame (fun s hs ↦ hstr ⟨s, hs⟩) str
    rw [hb] at hall hhead
    have hc := List.all_eq_true.mp hall c List.mem_cons_self
    obtain ⟨-, hspace⟩ := Bool.and_eq_true_iff.mp hc
    exact ⟨by simpa using hspace, fun heq ↦ hhead (by rw [heq]; rfl)⟩

/-- The end of a line behind its body. -/
def commaText (comma : Bool) : Bytes := if comma then [0x2C] else []

/-- The text of a line with a body. -/
theorem JsonLine.text_line (indent : Nat → Nat) (name : Key → Bytes) (str : Bytes → Bytes) (n : Nat)
    (key : Option Key) (body : LineBody) (comma : Bool) :
    0x0A :: (JsonLine.line n key body comma).text indent name str =
      (0x0A :: List.replicate (indent n) 0x20) ++
        (keyText name key ++ (body.text str ++ commaText comma)) := rfl

/-! ## The other substitutions on a line -/

/-- A substitution of a plain pattern that starts with a backslash or with `U`, on keys and on strings. -/
structure Passes (p r : Bytes) (name name' : Key → Bytes) (str str' : Bytes → Bytes) : Prop where
  first : p.head? = some 0x5C ∨ p.head? = some 0x55
  last : ∀ c ∈ ascii "\n ", c ∉ p.dropLast
  rest : ∀ c ∈ ascii "\n,", c ∉ p.tail
  key : ∀ k, gsub (literal p) r (keyText name (some k)) = keyText name' (some k)
  string : ∀ s, gsub (literal p) r (0x22 :: (str s ++ [0x22])) = 0x22 :: (str' s ++ [0x22])

namespace Passes

variable {p r : Bytes} {name name' : Key → Bytes} {str str' : Bytes → Bytes}

/-- Nothing changes in a text without the first byte of the pattern. -/
theorem gsub_frame (h : Passes p r name name' str str') {l : Bytes}
    (hl : ∀ c ∈ l, c ≠ 0x5C ∧ c ≠ 0x55) : gsub (literal p) r l = l := by
  refine gsub_literal_eq_self fun hinf ↦ ?_
  obtain hfirst | hfirst := h.first
  · exact (hl _ (hinf.subset (List.mem_of_head? hfirst))).1 rfl
  · exact (hl _ (hinf.subset (List.mem_of_head? hfirst))).2 rfl

/-- A line. -/
theorem line (h : Passes p r name name' str str') (indent : Nat → Nat) {l : JsonLine}
    (hl : l.isHole = false) :
    gsub (literal p) r (0x0A :: l.text indent name str) = 0x0A :: l.text indent name' str' := by
  cases l with
  | hole n => cases hl
  | line n key body comma =>
    have hpre : ∀ c ∈ (0x0A :: List.replicate (indent n) 0x20 : Bytes), c = 0x0A ∨ c = 0x20 := by
      intro c hc
      obtain rfl | hc := List.mem_cons.mp hc
      · exact Or.inl rfl
      · exact Or.inr (List.mem_replicate.mp hc).2
    have hcomma : ∀ c ∈ commaText comma, c = 0x2C := by
      intro c hc
      cases comma with
      | false => cases hc
      | true => exact List.mem_singleton.mp hc
    rw [JsonLine.text_line, JsonLine.text_line]
    have hcut₁ : Cuts (literal p) (0x0A :: List.replicate (indent n) 0x20)
        (keyText name key ++ (body.text str ++ commaText comma)) := by
      refine cuts_of_last fun c hc ↦ ?_
      obtain rfl | rfl := hpre c (List.mem_of_getLast? hc)
      · exact h.last _ (by decide)
      · exact h.last _ (by decide)
    have hcut₂ : Cuts (literal p) (keyText name key) (body.text str ++ commaText comma) := by
      refine cuts_of_last fun c hc ↦ ?_
      cases key with
      | none => cases hc
      | some k =>
        have hlast : (keyText name (some k)).getLast? = some 0x20 := by
          show (0x22 :: (name k ++ ascii "\": ")).getLast? = some 0x20
          rw [← List.cons_append, List.getLast?_append_of_ne_nil _ (by decide)]
          rfl
        rw [hlast] at hc
        obtain rfl := Option.some.inj hc
        exact h.last _ (by decide)
    have hcut₃ : Cuts (literal p) (body.text str) (commaText comma) := by
      refine cuts_of_head fun c hc ↦ ?_
      obtain rfl := hcomma c (List.mem_of_head? hc)
      exact h.rest _ (by decide)
    have hbody : gsub (literal p) r (body.text str) = body.text str' := by
      by_cases hstr : ∃ s, body = .str s
      · obtain ⟨s, rfl⟩ := hstr
        exact h.string s
      · have hno : ∀ s, body ≠ .str s := fun s hs ↦ hstr ⟨s, hs⟩
        rw [LineBody.text_congr hno str' str]
        refine h.gsub_frame fun c hc ↦ ?_
        have hframe := List.all_eq_true.mp (LineBody.text_frame hno str).1 c hc
        simp only [isFrame, Bool.and_eq_true, decide_eq_true_eq] at hframe
        exact ⟨hframe.1.1.1.1, hframe.1.1.1.2⟩
    have hkey : gsub (literal p) r (keyText name key) = keyText name' key := by
      cases key with
      | none => rfl
      | some k => exact h.key k
    rw [gsub_append (within_literal p) hcut₁, gsub_append (within_literal p) hcut₂,
      gsub_append (within_literal p) hcut₃, hkey, hbody, h.gsub_frame fun c hc ↦ by
        obtain rfl | rfl := hpre c hc <;> decide, h.gsub_frame (l := commaText comma) fun c hc ↦ by
        obtain rfl := hcomma c hc
        decide]

/-- All lines. -/
theorem lines (h : Passes p r name name' str str') (indent : Nat → Nat) {ls : List JsonLine}
    (hls : ∀ l ∈ ls, l.isHole = false) :
    gsub (literal p) r (linesText (JsonLine.text indent name str) ls) =
      linesText (JsonLine.text indent name' str') ls := by
  unfold linesText
  rw [gsub_flatMap (within_literal p)]
  · exact List.flatMap_congr fun l hl ↦ h.line indent (hls l hl)
  · intro l ls' _
    refine cuts_of_head fun c hc ↦ ?_
    cases ls' with
    | nil => cases hc
    | cons l' ls' =>
      obtain rfl := Option.some.inj hc
      exact h.rest _ (by decide)

end Passes

/-- A key consists of letters, and none but `UA` ends with `UA`. -/
theorem Key.name_spec (k : Key) :
    (k.name.all isAlnum && (k = .UA || !decide (ascii "UA" <:+ k.name))) = true := by
  cases k <;> rfl

/-- A key consists of letters. -/
theorem Key.name_alnum (k : Key) : ∀ c ∈ k.name, isAlnum c = true :=
  List.all_eq_true.mp (Bool.and_eq_true_iff.mp k.name_spec).1

/-- Nothing changes in a key for a pattern that starts with a backslash. -/
theorem gsub_keyText {p r : Bytes} (hp : p.head? = some 0x5C) (k : Key) :
    gsub (literal p) r (keyText Key.name (some k)) = keyText Key.name (some k) := by
  refine gsub_literal_eq_self fun hinf ↦ ?_
  have hmem : (0x5C : UInt8) ∈ 0x22 :: (k.name ++ ascii "\": ") :=
    hinf.subset (List.mem_of_head? hp)
  rw [List.mem_cons, List.mem_append] at hmem
  obtain heq | hmem | hmem := hmem
  · exact absurd heq (by decide)
  · exact ne_of_isAlnum (k.name_alnum _ hmem) (by decide) rfl
  · exact absurd hmem (by decide)

/-- The fourth substitution renames the key `UA`. -/
theorem gsub_userAgent_keyText (k : Key) :
    gsub (literal (ascii "UA\": ")) (ascii "User-Agent\": ") (keyText Key.name (some k)) =
      keyText Key.renamed (some k) := by
  by_cases hk : k = .UA
  · subst hk
    decide
  · have hname : Key.renamed k = k.name := if_neg hk
    have hsame : keyText Key.renamed (some k) = keyText Key.name (some k) := by
      simp only [keyText, hname]
    rw [hsame]
    refine gsub_literal_eq_self fun hinf ↦ ?_
    obtain ⟨a, b, hab⟩ := hinf
    have hno : (0x22 : UInt8) ∉ k.name := fun hmem ↦
      ne_of_isAlnum (k.name_alnum _ hmem) (by decide) rfl
    -- the quotation mark of the pattern is the one behind the name
    have hform : a ++ ascii "UA\": " ++ b = (a ++ ascii "UA") ++ 0x22 :: (0x3A :: 0x20 :: b) := by
      simp [ascii]
    have hkey : keyText Key.name (some k) = (0x22 :: k.name) ++ 0x22 :: [0x3A, 0x20] := rfl
    rw [hform, hkey] at hab
    cases a with
    | nil => exact absurd (List.cons.inj hab).1 (by decide)
    | cons c a =>
      obtain ⟨rfl, htail⟩ := List.cons.inj hab
      have hrest : (a ++ ascii "UA") ++ 0x22 :: (0x3A :: 0x20 :: b) =
          k.name ++ 0x22 :: [0x3A, 0x20] := htail
      have hend : (0x22 : UInt8) ∉ [0x3A, 0x20] := by decide
      have hcount := congrArg (List.count 0x22) hrest
      simp only [List.count_append, List.count_cons_self,
        List.count_eq_zero_of_not_mem hno, List.count_eq_zero_of_not_mem hend] at hcount
      have ha : (0x22 : UInt8) ∉ a ++ ascii "UA" := List.count_eq_zero.mp (by
        rw [List.count_append]
        omega)
      obtain ⟨hsuffix, -⟩ := append_cons_left ha hno hrest
      have hspec := (Bool.and_eq_true_iff.mp k.name_spec).2
      simp only [hk, decide_false, Bool.false_or, Bool.not_eq_true', decide_eq_false_iff_not] at hspec
      exact hspec ⟨a, hsuffix⟩

/-- The second substitution. -/
theorem passes_slash : Passes (ascii "\\/") (ascii "/") Key.name Key.name
    (fun s ↦ jsoncString (dropNull s)) unslashed where
  first := by decide
  last := forall_mem_of_all (by decide)
  rest := forall_mem_of_all (by decide)
  key := gsub_keyText rfl
  string s := by
    have hcut₁ : Cuts (literal (ascii "\\/")) [0x22] (jsoncString (dropNull s) ++ [0x22]) :=
      cuts_of_last fun c hc ↦ by
        obtain rfl := Option.some.inj hc
        decide
    have hcut₂ : Cuts (literal (ascii "\\/")) (jsoncString (dropNull s)) [0x22] :=
      cuts_of_head fun c hc ↦ by
        obtain rfl := Option.some.inj hc
        decide
    rw [← List.singleton_append, gsub_append (within_literal _) hcut₁,
      gsub_append (within_literal _) hcut₂, gsub_slash_jsoncString]
    rfl

/-- The third substitution. -/
theorem passes_backslash : Passes (ascii "\\\\") (ascii "\\") Key.name Key.name unslashed
    edited where
  first := by decide
  last := forall_mem_of_all (by decide)
  rest := forall_mem_of_all (by decide)
  key := gsub_keyText rfl
  string s := by
    have hcut₁ : Cuts (literal (ascii "\\\\")) [0x22] (unslashed s ++ [0x22]) :=
      cuts_of_last fun c hc ↦ by
        obtain rfl := Option.some.inj hc
        decide
    have hcut₂ : Cuts (literal (ascii "\\\\")) (unslashed s) [0x22] :=
      cuts_of_head fun c hc ↦ by
        obtain rfl := Option.some.inj hc
        decide
    rw [← List.singleton_append, gsub_append (within_literal _) hcut₁,
      gsub_append (within_literal _) hcut₂]
    rfl

/-- The fourth substitution. -/
theorem passes_userAgent : Passes (ascii "UA\": ") (ascii "User-Agent\": ") Key.name Key.renamed
    edited edited where
  first := by decide
  last := forall_mem_of_all (by decide)
  rest := forall_mem_of_all (by decide)
  key := gsub_userAgent_keyText
  string s := gsub_literal_eq_self (not_infix_edited s)

/-! ## The first substitution on a line -/

/-- A match is a part of the text. -/
theorem within_nullMatch : Within nullMatch := by
  intro s n h
  unfold nullMatch at h
  dsimp only at h
  split_ifs at h with hcond
  obtain ⟨hpos, hpre⟩ := hcond
  obtain rfl := Option.some.inj h
  have hlen := hpre.length_le
  rw [List.length_drop] at hlen
  have h5 : (ascii "null,").length = 5 := rfl
  omega

/-- No match starts in spaces in front of another byte than `n`. -/
theorem nullMatch_spaces {a b : Bytes} {c : UInt8} (ha : ∀ d ∈ a, Subscribe.isSpace d = true)
    (hc : Subscribe.isSpace c = false) (hn : c ≠ 0x6E) : nullMatch (a ++ c :: b) = none := by
  have htake : (a ++ c :: b).takeWhile Subscribe.isSpace = a := by
    rw [List.takeWhile_append_of_pos ha, List.takeWhile_cons_of_neg (by simp [hc]), List.append_nil]
  unfold nullMatch
  rw [htake]
  dsimp only
  rw [List.drop_left, if_neg]
  rintro ⟨-, hpre⟩
  have hform : ascii "null," = 0x6E :: ascii "ull," := rfl
  rw [hform, List.cons_prefix_cons] at hpre
  exact hn hpre.1.symm

/-- A text is cut behind a byte other than a space, or in front of one, if what follows does not go on
with `null,`. -/
theorem cuts_nullMatch {a b : Bytes} (hb : ∀ c, b.head? = some c → c ∉ ascii "null,")
    (h : (∀ c, b.head? = some c → Subscribe.isSpace c = false) ∨
      ∀ c, a.getLast? = some c → Subscribe.isSpace c = false) : Cuts nullMatch a b := by
  intro s hne hsa
  by_cases hall : ∀ c ∈ s, Subscribe.isSpace c = true
  · -- the text ends with a space
    have hlast : a.getLast? = some (s.getLast hne) := by
      obtain ⟨t, rfl⟩ := hsa
      rw [List.getLast?_append_of_ne_nil t hne, List.getLast?_eq_some_getLast hne]
    have hhead : ∀ c, b.head? = some c → Subscribe.isSpace c = false := by
      obtain h | h := h
      · exact h
      · have hspace := hall _ (List.getLast_mem hne)
        rw [h _ hlast] at hspace
        cases hspace
    have hnone : nullMatch s = none := by
      have htake : s.takeWhile Subscribe.isSpace = s := List.takeWhile_eq_self_iff.mpr hall
      unfold nullMatch
      rw [htake]
      dsimp only
      rw [List.drop_length, if_neg]
      rintro ⟨-, hpre⟩
      exact absurd (List.prefix_nil.mp hpre) (by decide)
    rw [hnone]
    cases b with
    | nil => rw [List.append_nil, hnone]
    | cons c b =>
      have hnmem : c ∉ ascii "null," := hb c rfl
      refine nullMatch_spaces hall (hhead c rfl) fun heq ↦ hnmem ?_
      rw [heq]
      decide
  · -- the spaces at the start end in the text
    have htake : (s ++ b).takeWhile Subscribe.isSpace = s.takeWhile Subscribe.isSpace := by
      rw [List.takeWhile_append, if_neg]
      intro hlen
      refine hall (List.takeWhile_eq_self_iff.mp ?_)
      exact (List.takeWhile_prefix _).eq_of_length hlen
    have hlt : (s.takeWhile Subscribe.isSpace).length < s.length := by
      refine lt_of_le_of_ne (List.takeWhile_prefix _).length_le fun hlen ↦ hall ?_
      exact List.takeWhile_eq_self_iff.mp ((List.takeWhile_prefix _).eq_of_length hlen)
    unfold nullMatch
    rw [htake]
    dsimp only
    rw [List.drop_append_of_le_length hlt.le]
    have hiff : ascii "null," <+: s.drop (s.takeWhile Subscribe.isSpace).length ++ b ↔
        ascii "null," <+: s.drop (s.takeWhile Subscribe.isSpace).length := by
      refine ⟨fun hpre ↦ ?_, fun hpre ↦ hpre.trans (List.prefix_append _ _)⟩
      by_contra hno
      have hdrop : s.drop (s.takeWhile Subscribe.isSpace).length ≠ [] :=
        List.ne_nil_of_length_pos (by rw [List.length_drop]; omega)
      obtain ⟨q, -, hq, hqb, hqp⟩ := prefix_append_cases hdrop hpre hno
      cases q with
      | nil => exact hq rfl
      | cons c q =>
        obtain ⟨t, rfl⟩ := hqb
        exact hb c rfl (List.mem_of_mem_tail (hqp.subset List.mem_cons_self))
    simp only [hiff]

/-- A hole is taken out. -/
theorem gsub_hole (indent : Nat → Nat) (name : Key → Bytes) (str : Bytes → Bytes) (n : Nat) :
    gsub nullMatch [] (0x0A :: (JsonLine.hole n).text indent name str) = [] := by
  have hspace : ∀ c ∈ (0x0A :: List.replicate (indent n) 0x20 : Bytes), Subscribe.isSpace c = true := by
    intro c hc
    obtain rfl | hc := List.mem_cons.mp hc
    · rfl
    · obtain rfl := (List.mem_replicate.mp hc).2
      rfl
  have hform : 0x0A :: (JsonLine.hole n).text indent name str =
      (0x0A :: List.replicate (indent n) 0x20) ++ ascii "null," := rfl
  have htake : ((0x0A :: List.replicate (indent n) 0x20) ++ ascii "null,").takeWhile
      Subscribe.isSpace = 0x0A :: List.replicate (indent n) 0x20 := by
    have hnull : (ascii "null,").takeWhile Subscribe.isSpace = [] := rfl
    rw [List.takeWhile_append_of_pos hspace, hnull, List.append_nil]
  have hmatch : nullMatch ((0x0A :: List.replicate (indent n) 0x20) ++ ascii "null,") =
      some ((0x0A :: List.replicate (indent n) 0x20) ++ ascii "null,").length := by
    unfold nullMatch
    rw [htake]
    dsimp only
    rw [List.drop_left, if_pos ⟨Nat.succ_pos _, List.prefix_rfl⟩, List.length_append]
    rfl
  rw [hform, ← List.append_nil ((0x0A :: List.replicate (indent n) 0x20) ++ ascii "null,")]
  rw [gsub_match (by simp) (by rw [List.append_nil, hmatch])]
  rfl

/-- What stands behind the indentation of a line. -/
theorem head_keyText (name : Key → Bytes) (str : Bytes → Bytes) (key : Option Key) (body : LineBody)
    (l : Bytes) : ∃ c t, keyText name key ++ (body.text str ++ l) = c :: t ∧
      Subscribe.isSpace c = false ∧ c ≠ 0x6E := by
  cases key with
  | none => exact body.head_text str l
  | some k => exact ⟨0x22, _, rfl, rfl, by decide⟩

/-- No match starts in the indentation of a line with a body. -/
theorem nullMatch_indent (name : Key → Bytes) (str : Bytes → Bytes) (key : Option Key)
    (body : LineBody) (l : Bytes) {a : Bytes} (ha : ∀ c ∈ a, Subscribe.isSpace c = true) :
    nullMatch (a ++ (keyText name key ++ (body.text str ++ l))) = none := by
  obtain ⟨c, t, heq, hc, hn⟩ := head_keyText name str key body l
  rw [heq]
  exact nullMatch_spaces ha hc hn

/-- The first substitution on a body. -/
theorem gsub_nullMatch_body (body : LineBody) (comma : Bool) :
    gsub nullMatch [] (body.text jsoncString ++ commaText comma) =
      body.text (fun s ↦ jsoncString (dropNull s)) ++ commaText comma := by
  have hcomma : gsub nullMatch [] (commaText comma) = commaText comma := by cases comma <;> rfl
  by_cases hstr : ∃ s, body = .str s
  · obtain ⟨s, rfl⟩ := hstr
    have hform : (LineBody.str s).text jsoncString ++ commaText comma =
        0x22 :: (jsoncString s ++ 0x22 :: commaText comma) := by simp [LineBody.text]
    have hcut : Cuts nullMatch (jsoncString s) (0x22 :: commaText comma) := by
      refine cuts_nullMatch (fun c hc ↦ ?_) (Or.inl fun c hc ↦ ?_)
      · obtain rfl := Option.some.inj hc
        decide
      · obtain rfl := Option.some.inj hc
        rfl
    rw [hform, gsub_miss (nullMatch_of_head rfl _), gsub_append within_nullMatch hcut,
      gsub_nullMatch_jsoncString, gsub_miss (nullMatch_of_head rfl _), hcomma]
    simp [LineBody.text]
  · have hno : ∀ s, body ≠ .str s := fun s hs ↦ hstr ⟨s, hs⟩
    rw [LineBody.text_congr hno (fun s ↦ jsoncString (dropNull s)) jsoncString, gsub_append_of_none,
      hcomma]
    intro t hne ht
    cases t with
    | nil => exact absurd rfl hne
    | cons c t =>
      have hframe := List.all_eq_true.mp (LineBody.text_frame hno jsoncString).1 c
        (ht.subset List.mem_cons_self)
      obtain ⟨-, hspace⟩ := Bool.and_eq_true_iff.mp hframe
      exact nullMatch_of_head (by simpa using hspace) _

/-- No space is in the name of a key. -/
theorem Key.name_no_space (k : Key) :
    ∀ c ∈ (0x22 :: (k.name ++ ascii "\":") : Bytes), Subscribe.isSpace c = false := by
  rw [List.forall_mem_cons, List.forall_mem_append]
  exact ⟨rfl, fun c hc ↦ isSpace_of_isAlnum (k.name_alnum c hc),
    forall_mem_of_all (by decide)⟩

/-- The first substitution on a line with a body. -/
theorem gsub_nullMatch_line (indent : Nat → Nat) {l : JsonLine} (hl : l.isHole = false) :
    gsub nullMatch [] (0x0A :: l.text indent Key.name jsoncString) =
      0x0A :: l.text indent Key.name fun s ↦ jsoncString (dropNull s) := by
  cases l with
  | hole n => cases hl
  | line n key body comma =>
    have hspace : ∀ c ∈ (0x0A :: List.replicate (indent n) 0x20 : Bytes),
        Subscribe.isSpace c = true := by
      intro c hc
      obtain rfl | hc := List.mem_cons.mp hc
      · rfl
      · obtain rfl := (List.mem_replicate.mp hc).2
        rfl
    rw [JsonLine.text_line, JsonLine.text_line, gsub_append_of_none fun s _ hs ↦
      nullMatch_indent Key.name jsoncString key body (commaText comma) fun c hc ↦
        hspace c (hs.subset hc)]
    congr 1
    cases key with
    | none => exact gsub_nullMatch_body body comma
    | some k =>
      rw [gsub_append_of_none, gsub_nullMatch_body]
      intro t hne ht
      have hform : keyText Key.name (some k) = (0x22 :: (k.name ++ ascii "\":")) ++ [0x20] := by
        simp [keyText, ascii]
      rw [hform] at ht
      obtain ⟨u, hu⟩ := ht
      obtain rfl | ⟨t, d, rfl⟩ := List.eq_nil_or_concat' t
      · exact absurd rfl hne
      · rw [← List.append_assoc] at hu
        obtain ⟨hu', hd⟩ := List.append_inj' hu rfl
        obtain rfl := List.singleton_injective hd
        cases t with
        | nil =>
          exact nullMatch_indent Key.name jsoncString none body (commaText comma) (a := [0x20])
            fun c hc ↦ by
              obtain rfl := List.mem_singleton.mp hc
              rfl
        | cons c t =>
          refine nullMatch_of_head (k.name_no_space c ?_) _
          rw [← hu']
          simp

/-- What a line ends with. -/
theorem getLast_line (indent : Nat → Nat) (l : JsonLine) (c : UInt8)
    (hc : (0x0A :: l.text indent Key.name jsoncString).getLast? = some c) :
    Subscribe.isSpace c = false := by
  cases l with
  | hole n =>
    have hform : 0x0A :: (JsonLine.hole n).text indent Key.name jsoncString =
        (0x0A :: List.replicate (indent n) 0x20) ++ ascii "null," := rfl
    rw [hform, List.getLast?_append_of_ne_nil _ (by decide)] at hc
    obtain rfl := Option.some.inj hc
    rfl
  | line n key body comma =>
    rw [JsonLine.text_line, ← List.append_assoc, ← List.append_assoc] at hc
    cases comma with
    | true =>
      rw [List.getLast?_append_of_ne_nil _ (by decide)] at hc
      obtain rfl := Option.some.inj hc
      rfl
    | false =>
      have hnil : commaText false = [] := rfl
      rw [hnil, List.append_nil, List.getLast?_append_of_ne_nil _ (body.text_ne_nil _)] at hc
      by_cases hstr : ∃ s, body = .str s
      · obtain ⟨s, rfl⟩ := hstr
        have hform : (LineBody.str s).text jsoncString = (0x22 :: jsoncString s) ++ [0x22] := rfl
        rw [hform, List.getLast?_append_of_ne_nil _ (by decide)] at hc
        obtain rfl := Option.some.inj hc
        rfl
      · have hframe := List.all_eq_true.mp
          (LineBody.text_frame (fun s hs ↦ hstr ⟨s, hs⟩) jsoncString).1 c (List.mem_of_getLast? hc)
        obtain ⟨-, hspace⟩ := Bool.and_eq_true_iff.mp hframe
        simpa using hspace

/-- The first substitution on all lines. -/
theorem gsub_nullMatch_lines (indent : Nat → Nat) (ls : List JsonLine) :
    gsub nullMatch [] (linesText (JsonLine.text indent Key.name jsoncString) ls) =
      linesText (JsonLine.text indent Key.name fun s ↦ jsoncString (dropNull s))
        (ls.filter fun l ↦ !l.isHole) := by
  unfold linesText
  rw [gsub_flatMap within_nullMatch]
  · induction ls with
    | nil => rfl
    | cons l ls ih =>
      rw [List.flatMap_cons, ih, List.filter_cons]
      cases hl : l.isHole with
      | true =>
        cases l with
        | hole n => rw [gsub_hole]; rfl
        | line n key body comma => cases hl
      | false =>
        rw [gsub_nullMatch_line indent hl]
        rfl
  · intro l ls' _
    refine cuts_nullMatch (fun c hc ↦ ?_) (Or.inr (getLast_line indent l))
    cases ls' with
    | nil => cases hc
    | cons l' ls' =>
      obtain rfl := Option.some.inj hc
      decide

/-! ## The text after all substitutions -/

/-- A text behind the end of a line, where no match starts. -/
theorem gsub_drop {m : Bytes → Option Nat} {r l : Bytes} (h : m (0x0A :: l) = none) :
    gsub m r l = (gsub m r (0x0A :: l)).drop 1 := by
  rw [gsub_miss h]
  rfl

/-- A value starts with a line that is no hole. -/
theorem exists_lines (v : Value) :
    ∃ l ls, v.lines 0 none false = l :: ls ∧ l.isHole = false := by
  cases v with
  | list items =>
    rw [Value.lines]
    split_ifs
    · exact ⟨_, _, rfl, rfl⟩
    · exact ⟨_, _, rfl, rfl⟩
  | table members =>
    rw [Value.lines]
    split_ifs
    · exact ⟨_, _, rfl, rfl⟩
    · exact ⟨_, _, rfl, rfl⟩
  | bool b => exact ⟨_, _, rfl, rfl⟩
  | num x => exact ⟨_, _, rfl, rfl⟩
  | str s => exact ⟨_, _, rfl, rfl⟩

/-- A plain pattern is not at the end of a line. -/
theorem Passes.drop {p r : Bytes} {name name' : Key → Bytes} {str str' : Bytes → Bytes}
    (h : Passes p r name name' str str') (indent : Nat → Nat) {l : JsonLine} {ls : List JsonLine}
    (hls : ∀ k ∈ l :: ls, k.isHole = false) :
    gsub (literal p) r ((linesText (JsonLine.text indent name str) (l :: ls)).drop 1) =
      (linesText (JsonLine.text indent name' str') (l :: ls)).drop 1 := by
  rw [← h.lines indent hls]
  refine gsub_drop (literal_eq_none fun hpre ↦ ?_)
  obtain hfirst | hfirst := h.first
  · obtain ⟨t, ht⟩ := hpre
    cases p with
    | nil => cases hfirst
    | cons c p =>
      obtain rfl := Option.some.inj hfirst
      cases ht
  · obtain ⟨t, ht⟩ := hpre
    cases p with
    | nil => cases hfirst
    | cons c p =>
      obtain rfl := Option.some.inj hfirst
      cases ht

/-- The lines that are printed. -/
def printed (indent : Nat → Nat) (v : Value) : Bytes :=
  linesText (JsonLine.text indent Key.renamed edited)
    ((v.lines 0 none false).filter fun l ↦ !l.isHole)

/-- The four substitutions on the text of a value. -/
theorem edit_pretty (indent : Nat → Nat) (v : Value) :
    edit (pretty indent v) = (printed indent v).drop 1 := by
  obtain ⟨l, ls, hv, hl⟩ := exists_lines v
  have hfilter : (l :: ls).filter (fun l ↦ !l.isHole) = l :: ls.filter fun l ↦ !l.isHole := by
    rw [List.filter_cons, hl]
    rfl
  have hno : ∀ k ∈ l :: ls.filter (fun l ↦ !l.isHole), k.isHole = false := by
    rw [← hfilter]
    intro k hk
    simpa using (List.mem_filter.mp hk).2
  have hstart : nullMatch (0x0A ::
      (linesText (JsonLine.text indent Key.name jsoncString) (l :: ls)).drop 1) = none := by
    cases l with
    | hole n => cases hl
    | line n key body comma =>
      have hform : 0x0A :: (linesText (JsonLine.text indent Key.name jsoncString)
          (JsonLine.line n key body comma :: ls)).drop 1 =
          (0x0A :: List.replicate (indent n) 0x20) ++ (keyText Key.name key ++
            (body.text jsoncString ++ (commaText comma ++
              linesText (JsonLine.text indent Key.name jsoncString) ls))) := by
        show ((0x0A :: (JsonLine.line n key body comma).text indent Key.name jsoncString) ++ _) = _
        rw [JsonLine.text_line]
        simp [linesText, List.flatMap]
      rw [hform]
      refine nullMatch_indent _ _ _ _ _ fun c hc ↦ ?_
      obtain rfl | hc := List.mem_cons.mp hc
      · rfl
      · obtain rfl := (List.mem_replicate.mp hc).2
        rfl
  unfold edit pretty printed
  dsimp only
  rw [hv, gsub_drop hstart]
  have hback : 0x0A :: (linesText (JsonLine.text indent Key.name jsoncString) (l :: ls)).drop 1 =
      linesText (JsonLine.text indent Key.name jsoncString) (l :: ls) := rfl
  rw [hback, gsub_nullMatch_lines, hfilter, passes_slash.drop indent hno,
    passes_backslash.drop indent hno, passes_userAgent.drop indent hno]

end OpenWrtCompile.Overwall.Xray
