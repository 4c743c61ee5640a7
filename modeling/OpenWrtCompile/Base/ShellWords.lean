import OpenWrtCompile.Base.Bytes
import Mathlib.Data.List.Infix

/-!
# Words of a shell

What a shell makes of a variable that stands without quotation marks: it is split at blanks, and each word
is a pattern for the names in a directory. `echo` prints the words with one blank between them, behind its
options; `$(…)` takes the ends of lines off what is printed. Where a word names itself alone, the text is
printed as it is if its words have one blank between them and the first is no option.
-/

namespace OpenWrtCompile.Base.ShellWords
open OpenWrtCompile.Base

/-! ## The shell -/

/-- A byte of `$IFS`. -/
def isIfs (c : UInt8) : Bool := c = 0x20 || c = 0x09 || c = 0x0A

/-- The words of a text. -/
def words (text : Bytes) : List Bytes := (text.splitOnP isIfs).filter (· ≠ [])

/-- The words after the expansion of patterns: a word without a name that it matches stands for itself. -/
def fields (names : Bytes → List Bytes) (text : Bytes) : List Bytes :=
  (words text).flatMap fun w ↦ if names w = [] then [w] else names w

/-- Words with a blank between them. -/
def joined (ws : List Bytes) : Bytes := [0x20].intercalate ws

/-- `-n`, `-e`, `-E` and their combinations. -/
def isOption : Bytes → Bool
  | 0x2D :: c :: r => (c :: r).all fun x ↦ x = 0x6E || x = 0x65 || x = 0x45
  | _ => false

/-- The value of the digits of a number to a base, three or two at most. -/
def escapeNumber (base : Nat) (digits : List Nat) : UInt8 :=
  UInt8.ofNat (digits.foldl (fun n d ↦ n * base + d) 0)

/-- A digit to base 16. -/
def hexDigit (c : UInt8) : Option Nat :=
  if 0x30 ≤ c ∧ c ≤ 0x39 then some (c.toNat - 0x30)
  else if 0x61 ≤ c ∧ c ≤ 0x66 then some (c.toNat - 0x57)
  else if 0x41 ≤ c ∧ c ≤ 0x46 then some (c.toNat - 0x37)
  else none

/-- A digit to base 8. -/
def octDigit (c : UInt8) : Option Nat := if 0x30 ≤ c ∧ c ≤ 0x37 then some (c.toNat - 0x30) else none

/-- The digits that a text starts with. -/
def digitsOf (digit : UInt8 → Option Nat) (l : Bytes) : List Nat :=
  (l.takeWhile fun c ↦ (digit c).isSome).filterMap digit

/-- What `echo -e` prints for a backslash in front of a text, with the number of bytes of the text that it
takes; nothing more is printed behind `\c`. -/
def echoEscape (l : Bytes) : Option (UInt8 × Nat) :=
  match l with
  | 0x63 :: _ => none
  | 0x61 :: _ => some (0x07, 1)
  | 0x62 :: _ => some (0x08, 1)
  | 0x65 :: _ => some (0x1B, 1)
  | 0x66 :: _ => some (0x0C, 1)
  | 0x6E :: _ => some (0x0A, 1)
  | 0x72 :: _ => some (0x0D, 1)
  | 0x74 :: _ => some (0x09, 1)
  | 0x76 :: _ => some (0x0B, 1)
  | 0x5C :: _ => some (0x5C, 1)
  | 0x30 :: r =>
    let digits := (digitsOf octDigit r).take 3
    some (escapeNumber 8 digits, digits.length + 1)
  | 0x78 :: r =>
    let digits := (digitsOf hexDigit r).take 2
    if digits = [] then some (0x5C, 0) else some (escapeNumber 16 digits, digits.length + 1)
  | _ => some (0x5C, 0)

/-- What `echo -e` prints for a text behind `k` bytes of an escape. -/
def echoEscapes : Nat → Bytes → Bytes
  | _, [] => []
  | k + 1, _ :: l => echoEscapes k l
  | 0, c :: l =>
    if c = 0x5C then
      match echoEscape l with
      | none => []
      | some (d, k) => d :: echoEscapes k l
    else c :: echoEscapes 0 l

/-- What `echo` prints in front of the end of the line. -/
def echo (args : List Bytes) : Bytes :=
  let options := args.takeWhile isOption
  let text := joined (args.dropWhile isOption)
  if options.any (0x65 ∈ ·) then echoEscapes 0 text else text

/-- What `$(…)` makes of what is printed. -/
def captured (out : Bytes) : Bytes := (out.reverse.dropWhile (· = 0x0A)).reverse

/-- `$(echo $text)`. -/
def echoed (names : Bytes → List Bytes) (text : Bytes) : Bytes :=
  captured (echo (fields names text))

/-! ## Lengths -/

/-- The length of the words, with one more for each. -/
def span : List Bytes → Nat
  | [] => 0
  | w :: ws => w.length + 1 + span ws

/-- The length of words with a blank between them. -/
theorem length_joined (ws : List Bytes) : (joined ws).length = span ws - 1 := by
  unfold joined
  induction ws with
  | nil => rfl
  | cons w ws ih =>
    cases ws with
    | nil => simp [List.intercalate, span]
    | cons v vs =>
      have hform : [0x20].intercalate (w :: v :: vs) = w ++ 0x20 :: [0x20].intercalate (v :: vs) := by
        simp [List.intercalate]
      rw [hform, List.length_append, List.length_cons, ih]
      simp only [span]
      omega

/-- The words between the separators of a text. -/
theorem span_splitOnP (P : UInt8 → Bool) (text : Bytes) : span (text.splitOnP P) = text.length + 1 := by
  induction text with
  | nil => rfl
  | cons c text ih =>
    rw [List.splitOnP_cons_eq_if_modifyHead]
    split
    · rw [span, ih, List.length_nil, List.length_cons]
      omega
    · obtain ⟨w, ws, hws⟩ := List.exists_cons_of_ne_nil (List.splitOnP_ne_nil P text)
      rw [hws] at ih ⊢
      simp only [List.modifyHead_cons, span, List.length_cons] at ih ⊢
      omega

/-- Fewer words are not longer. -/
theorem span_le_of_sublist {ws vs : List Bytes} (h : ws.Sublist vs) : span ws ≤ span vs := by
  induction h with
  | slnil => exact le_rfl
  | cons w _ ih => exact ih.trans (Nat.le_add_left _ _)
  | cons_cons w _ ih => exact Nat.add_le_add_left ih _

/-- The words of a text are not longer than the text. -/
theorem length_joined_words (text : Bytes) : (joined (words text)).length ≤ text.length := by
  have hle : span (words text) ≤ span (text.splitOnP isIfs) := span_le_of_sublist List.filter_sublist
  rw [span_splitOnP] at hle
  rw [length_joined]
  omega

/-- Nothing that is printed for escapes is longer. -/
theorem length_echoEscapes (k : Nat) (l : Bytes) : (echoEscapes k l).length ≤ l.length := by
  induction l generalizing k with
  | nil => cases k <;> exact le_rfl
  | cons c l ih =>
    cases k with
    | succ k => exact (ih k).trans (Nat.le_succ _)
    | zero =>
      rw [echoEscapes]
      split
      · split
        · exact Nat.zero_le _
        · exact Nat.succ_le_succ (ih _)
      · exact Nat.succ_le_succ (ih 0)

/-- What is left in front of the ends of lines. -/
theorem captured_start (out : Bytes) : captured out <+: out := by
  obtain ⟨t, ht⟩ := List.dropWhile_suffix (l := out.reverse) (fun c ↦ decide (c = 0x0A))
  refine ⟨t.reverse, ?_⟩
  have hrev := congrArg List.reverse ht
  rwa [List.reverse_append, List.reverse_reverse] at hrev

/-- An option has two bytes or more. -/
theorem length_of_isOption {w : Bytes} (h : isOption w = true) : 2 ≤ w.length := by
  unfold isOption at h
  split at h
  · simp
  · cases h

/-- What is printed is not longer than the words, and shorter where the first is an option. -/
theorem length_echo (args : List Bytes) : (echo args).length ≤ (joined args).length ∧
    (∀ w, args.head? = some w → isOption w = true →
      (echo args).length < (joined args).length) := by
  have htext : (echo args).length ≤ (joined (args.dropWhile isOption)).length := by
    unfold echo
    dsimp only
    split
    · exact length_echoEscapes 0 _
    · exact le_rfl
  have hle : span (args.dropWhile isOption) ≤ span args :=
    span_le_of_sublist (List.dropWhile_sublist isOption)
  rw [length_joined] at htext ⊢
  refine ⟨by omega, fun w hw hopt ↦ ?_⟩
  cases args with
  | nil => cases hw
  | cons v ws =>
    obtain rfl := Option.some.inj hw
    have htwo := length_of_isOption hopt
    rw [List.dropWhile_cons_of_pos hopt] at htext
    have hrest : span (ws.dropWhile isOption) ≤ span ws :=
      span_le_of_sublist (List.dropWhile_sublist isOption)
    have hspan : span (v :: ws) = v.length + 1 + span ws := rfl
    omega

/-! ## Ends of lines -/

/-- One more end of a line. -/
theorem captured_append_newline (out : Bytes) : captured (out ++ [0x0A]) = captured out := by
  unfold captured
  rw [List.reverse_append, List.reverse_singleton, List.singleton_append,
    List.dropWhile_cons_of_pos rfl]

/-- The ends of lines behind a text have no words. -/
theorem words_captured (out : Bytes) : words (captured out) = words out := by
  have hend : ∀ x : Bytes, words (x ++ [0x0A]) = words x := by
    intro x
    unfold words
    rw [List.splitOnP_append_cons x [] (by decide), List.filter_append]
    simp
  have hrev : ∀ l : Bytes, words ((l.dropWhile (· = 0x0A)).reverse) = words l.reverse := by
    intro l
    induction l with
    | nil => rfl
    | cons c l ih =>
      by_cases hc : c = 0x0A
      · subst hc
        rw [List.dropWhile_cons_of_pos rfl, ih, List.reverse_cons, hend]
      · rw [List.dropWhile_cons_of_neg (by simpa using hc)]
  have h := hrev out.reverse
  rwa [List.reverse_reverse] at h

/-- What is printed depends on the words. -/
theorem echoed_congr {names : Bytes → List Bytes} {text text' : Bytes} (h : words text = words text') :
    echoed names text = echoed names text' := by
  unfold echoed fields
  rw [h]

/-! ## Words that name themselves -/

/-- No name but the word itself matches a word of the text. -/
def Leaves (names : Bytes → List Bytes) (text : Bytes) : Prop :=
  ∀ w ∈ words text, names w = [] ∨ names w = [w]

/-- The words of such a text. -/
theorem Leaves.fields_eq {names : Bytes → List Bytes} {text : Bytes} (h : Leaves names text) :
    fields names text = words text := by
  unfold fields
  conv_rhs => rw [← List.flatMap_singleton' (words text)]
  refine List.flatMap_congr fun w hw ↦ ?_
  obtain hnil | hself := h w hw
  · rw [if_pos hnil]
  · rw [hself, if_neg (List.cons_ne_nil _ _)]

/-- What is printed of such a text is not longer than the text. -/
theorem Leaves.length_echoed {names : Bytes → List Bytes} {text : Bytes} (h : Leaves names text) :
    (echoed names text).length ≤ text.length := by
  unfold echoed
  rw [h.fields_eq]
  exact ((captured_start _).length_le.trans (length_echo _).1).trans (length_joined_words text)

/-- The text is printed as it is. -/
structure Kept (names : Bytes → List Bytes) (text : Bytes) : Prop where
  leaves : Leaves names text
  spaced : joined (words text) = text
  option : ∀ w, (words text).head? = some w → isOption w = false

/-- The parts of a text hold none of its separators. -/
theorem not_of_mem_splitOnP {P : UInt8 → Bool} {text w : Bytes} (hw : w ∈ text.splitOnP P) :
    ∀ c ∈ w, P c = false := by
  induction text generalizing w with
  | nil =>
    obtain rfl := List.mem_singleton.mp hw
    exact fun c hc ↦ absurd hc List.not_mem_nil
  | cons d text ih =>
    rw [List.splitOnP_cons_eq_if_modifyHead] at hw
    split at hw
    · obtain rfl | hw := List.mem_cons.mp hw
      · exact fun c hc ↦ absurd hc List.not_mem_nil
      · exact ih hw
    · rename_i hd
      obtain ⟨v, vs, hvs⟩ := List.exists_cons_of_ne_nil (List.splitOnP_ne_nil P text)
      rw [hvs, List.modifyHead_cons] at hw
      obtain rfl | hw := List.mem_cons.mp hw
      · rw [List.forall_mem_cons]
        exact ⟨by simpa using hd, ih (by rw [hvs]; exact List.mem_cons_self)⟩
      · exact ih (by rw [hvs]; exact List.mem_cons_of_mem _ hw)

/-- The words of a text do not end with the end of a line. -/
theorem getLast?_joined {ws : List Bytes} (h : ∀ w ∈ ws, w ≠ [] ∧ ∀ c ∈ w, isIfs c = false) :
    ∀ c, (joined ws).getLast? = some c → c ≠ 0x0A := by
  induction ws with
  | nil => exact fun c hc ↦ by cases hc
  | cons w ws ih =>
    obtain ⟨⟨hne, hw⟩, hws⟩ := List.forall_mem_cons.mp h
    cases ws with
    | nil =>
      rintro c hc rfl
      have hmem : (0x0A : UInt8) ∈ w := by
        refine List.mem_of_getLast? ?_
        simpa [joined, List.intercalate] using hc
      exact absurd (hw _ hmem) (by decide)
    | cons v vs =>
      have hform : joined (w :: v :: vs) = (w ++ [0x20]) ++ joined (v :: vs) := by
        simp [joined, List.intercalate]
      have hrest : joined (v :: vs) ≠ [] := by
        intro hnil
        have hlen := congrArg List.length hnil
        have hv := List.length_pos_iff.mpr (hws v List.mem_cons_self).1
        rw [length_joined] at hlen
        simp only [span, List.length_nil] at hlen
        omega
      rw [hform, List.getLast?_append_of_ne_nil _ hrest]
      exact ih hws

/-- What has no end of a line at its end. -/
theorem captured_eq_self {out : Bytes} (h : ∀ c, out.getLast? = some c → c ≠ 0x0A) :
    captured out = out := by
  unfold captured
  obtain rfl | ⟨l, d, rfl⟩ := out.eq_nil_or_concat
  · rfl
  · rw [List.concat_eq_append, List.reverse_append, List.reverse_singleton, List.singleton_append,
      List.dropWhile_cons_of_neg (by simpa using h d (by simp)), List.reverse_cons,
      List.reverse_reverse]

/-- Words of which the first is no option are printed as they are. -/
theorem echo_eq_joined {args : List Bytes} (h : ∀ w, args.head? = some w → isOption w = false) :
    echo args = joined args := by
  cases args with
  | nil => rfl
  | cons w ws =>
    have hw : ¬ isOption w = true := by simp [h w rfl]
    unfold echo
    rw [List.takeWhile_cons_of_neg hw, List.dropWhile_cons_of_neg hw]
    rfl

/-- A text in a directory in which its words name themselves alone is printed as it is if and only if it
has this form. -/
theorem echoed_eq_self_iff {names : Bytes → List Bytes} {text : Bytes} (h : Leaves names text) :
    echoed names text = text ↔ Kept names text := by
  have hwords := length_joined_words text
  obtain ⟨hecho, hoption⟩ := length_echo (words text)
  unfold echoed
  rw [h.fields_eq]
  constructor
  · intro heq
    have hcap := (captured_start (echo (words text))).length_le
    rw [heq] at hcap
    have hno : ∀ w, (words text).head? = some w → isOption w = false := by
      intro w hw
      by_contra hopt
      have hlt := hoption w hw (by simpa using hopt)
      omega
    have hjoined := echo_eq_joined hno
    have hfull : captured (echo (words text)) = echo (words text) :=
      (captured_start _).eq_of_length (by rw [heq]; omega)
    refine ⟨h, ?_, hno⟩
    rw [← hjoined, ← hfull, heq]
  · intro hkept
    have hlast : ∀ c, (joined (words text)).getLast? = some c → c ≠ 0x0A := by
      refine getLast?_joined fun w hw ↦ ?_
      obtain ⟨hw, hne⟩ := List.mem_filter.mp hw
      exact ⟨by simpa using hne, not_of_mem_splitOnP hw⟩
    rw [echo_eq_joined hkept.option, captured_eq_self hlast, hkept.spaced]

/-- A text that is printed as it is. -/
theorem Kept.echoed_eq {names : Bytes → List Bytes} {text : Bytes} (h : Kept names text) :
    echoed names text = text := (echoed_eq_self_iff h.leaves).mpr h

end OpenWrtCompile.Base.ShellWords
