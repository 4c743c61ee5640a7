import Mathlib.Data.List.Basic
import Mathlib.Data.List.Infix
import Mathlib.Tactic.Common

/-!
# Substitution in a text

Every match of a pattern is replaced, from the left and without overlaps. A matcher gives the length of
the match that starts a text. A text is cut where no match reaches over; the substitution then goes
through its two parts.
-/

namespace OpenWrtCompile.Base

universe u v

section Gsub

variable {α : Type u} (m : List α → Option Nat) (r : List α)

/-- The substitution behind `k` letters of a match. -/
def gsubFrom : Nat → List α → List α
  | _, [] => []
  | k + 1, _ :: l => gsubFrom k l
  | 0, c :: l =>
    match m (c :: l) with
    | some (n + 1) => r ++ gsubFrom n l
    | _ => c :: gsubFrom 0 l

/-- Every match replaced by `r`. -/
def gsub (l : List α) : List α := gsubFrom m r 0 l

/-- A matcher gives a part of the text. -/
def Within : Prop := ∀ s n, m s = some n → n ≤ s.length

/-- No match that starts in `a` depends on `b`. -/
def Cuts (a b : List α) : Prop := ∀ s, s ≠ [] → s <:+ a → m (s ++ b) = m s

variable {m r}

/-- The empty text. -/
@[simp] theorem gsub_nil : gsub m r [] = [] := rfl

/-- The rest of a match is passed over. -/
theorem gsubFrom_length (a b : List α) : gsubFrom m r a.length (a ++ b) = gsub m r b := by
  induction a with
  | nil => rfl
  | cons c a ih => exact ih

/-- A match at the start. -/
theorem gsub_match {a b : List α} (ha : a ≠ []) (h : m (a ++ b) = some a.length) :
    gsub m r (a ++ b) = r ++ gsub m r b := by
  cases a with
  | nil => exact absurd rfl ha
  | cons c a =>
    have hm : m (c :: (a ++ b)) = some (a.length + 1) := h
    show gsubFrom m r 0 (c :: (a ++ b)) = _
    rw [gsubFrom, hm]
    dsimp only
    rw [gsubFrom_length]

/-- No match at the start. -/
theorem gsub_miss {c : α} {l : List α} (h : m (c :: l) = none) :
    gsub m r (c :: l) = c :: gsub m r l := by
  show gsubFrom m r 0 (c :: l) = _
  rw [gsubFrom, h]
  rfl

/-- A match of length zero is none. -/
theorem gsub_zero {c : α} {l : List α} (h : m (c :: l) = some 0) :
    gsub m r (c :: l) = c :: gsub m r l := by
  show gsubFrom m r 0 (c :: l) = _
  rw [gsubFrom, h]
  rfl

/-- The rest of a text is cut where the text is. -/
theorem Cuts.of_suffix {a a' b : List α} (h : Cuts m a b) (hs : a' <:+ a) : Cuts m a' b :=
  fun s hne hsa ↦ h s hne (hsa.trans hs)

/-- The substitution goes through the parts of a text. -/
theorem gsub_append (hm : Within m) {a b : List α} (h : Cuts m a b) :
    gsub m r (a ++ b) = gsub m r a ++ gsub m r b := by
  induction hn : a.length using Nat.strong_induction_on generalizing a with
  | _ n ih =>
    cases a with
    | nil => rfl
    | cons c a =>
      have heq : m (c :: (a ++ b)) = m (c :: a) := h (c :: a) (by simp) List.suffix_rfl
      have hlen : a.length < n := by rw [← hn, List.length_cons]; omega
      have hrest : gsub m r (a ++ b) = gsub m r a ++ gsub m r b :=
        ih a.length hlen (h.of_suffix (List.suffix_cons c a)) rfl
      rw [List.cons_append]
      cases hmatch : m (c :: a) with
      | none => rw [gsub_miss hmatch, gsub_miss (heq.trans hmatch), hrest, List.cons_append]
      | some k =>
        cases k with
        | zero => rw [gsub_zero hmatch, gsub_zero (heq.trans hmatch), hrest, List.cons_append]
        | succ k =>
          have hk : k + 1 ≤ (c :: a).length := hm _ _ hmatch
          have htake : (c :: a).take (k + 1) ≠ [] := by simp
          have hltake : ((c :: a).take (k + 1)).length = k + 1 := List.length_take_of_le hk
          have hsplit : c :: a = (c :: a).take (k + 1) ++ (c :: a).drop (k + 1) :=
            (List.take_append_drop _ _).symm
          have hdrop : ((c :: a).drop (k + 1)).length < n := by
            rw [List.length_drop, ← hn]
            omega
          have ih' := ih _ hdrop (h.of_suffix (List.drop_suffix _ _)) rfl
          have hleft : gsub m r (c :: a) = r ++ gsub m r ((c :: a).drop (k + 1)) := by
            conv_lhs => rw [hsplit]
            exact gsub_match htake (by rw [← hsplit, hltake, hmatch])
          have hright : gsub m r (c :: (a ++ b)) =
              r ++ gsub m r ((c :: a).drop (k + 1) ++ b) := by
            have hsplit' : c :: (a ++ b) =
                (c :: a).take (k + 1) ++ ((c :: a).drop (k + 1) ++ b) := by
              rw [← List.append_assoc, ← hsplit, List.cons_append]
            rw [hsplit']
            exact gsub_match htake (by rw [← hsplit', hltake, heq, hmatch])
          rw [hleft, hright, ih', List.append_assoc]

/-- The substitution goes through all parts of a text. -/
theorem gsub_flatMap {β : Type v} (hm : Within m) {f : β → List α} {xs : List β}
    (h : ∀ x ys, x :: ys <:+ xs → Cuts m (f x) (ys.flatMap f)) :
    gsub m r (xs.flatMap f) = xs.flatMap fun x ↦ gsub m r (f x) := by
  induction xs with
  | nil => rfl
  | cons x xs ih =>
    rw [List.flatMap_cons, gsub_append hm (h x xs List.suffix_rfl), List.flatMap_cons,
      ih fun y ys hys ↦ h y ys (hys.trans (List.suffix_cons x xs))]

/-- Nothing changes where nothing matches. -/
theorem gsub_eq_self {l : List α} (h : ∀ s, s ≠ [] → s <:+ l → m s = none) : gsub m r l = l := by
  induction l with
  | nil => rfl
  | cons c l ih =>
    rw [gsub_miss (h _ (by simp) List.suffix_rfl),
      ih fun s hne hs ↦ h s hne (hs.trans (List.suffix_cons c l))]

/-- A part where no match starts. -/
theorem gsub_append_of_none {a b : List α} (h : ∀ s, s ≠ [] → s <:+ a → m (s ++ b) = none) :
    gsub m r (a ++ b) = a ++ gsub m r b := by
  induction a with
  | nil => rfl
  | cons c a ih =>
    have hmiss : m (c :: (a ++ b)) = none := h (c :: a) (by simp) List.suffix_rfl
    rw [List.cons_append, gsub_miss hmiss,
      ih fun s hne hs ↦ h s hne (hs.trans (List.suffix_cons c a)), List.cons_append]

/-- A shorter text for every match: the text shrinks, or nothing matches. -/
theorem length_gsub (hm : Within m) (hr : ∀ s n, m s = some n → r.length < n) (l : List α) :
    (gsub m r l).length < l.length ∨
      gsub m r l = l ∧ ∀ s, s ≠ [] → s <:+ l → m s = none := by
  induction hn : l.length using Nat.strong_induction_on generalizing l with
  | _ n ih =>
    cases l with
    | nil => exact Or.inr ⟨rfl, fun s hne hs ↦ absurd (List.suffix_nil.mp hs) hne⟩
    | cons c l =>
      cases hmatch : m (c :: l) with
      | some k =>
        have hk : k ≤ (c :: l).length := hm _ _ hmatch
        have hrk : r.length < k := hr _ _ hmatch
        have hsplit : c :: l = (c :: l).take k ++ (c :: l).drop k := (List.take_append_drop _ _).symm
        have htake : ((c :: l).take k).length = k := List.length_take_of_le hk
        have hdrop : ((c :: l).drop k).length = n - k := by rw [List.length_drop, hn]
        have hgsub : gsub m r (c :: l) = r ++ gsub m r ((c :: l).drop k) := by
          conv_lhs => rw [hsplit]
          refine gsub_match (List.ne_nil_of_length_pos (by omega)) ?_
          rw [← hsplit, htake, hmatch]
        left
        rw [hgsub, List.length_append]
        obtain hlt | ⟨heq, -⟩ := ih _ (by omega) _ hdrop
        · omega
        · rw [heq]
          omega
      | none =>
        rw [gsub_miss hmatch]
        rw [List.length_cons] at hn ⊢
        obtain hlt | ⟨heq, hno⟩ := ih l.length (by omega) l rfl
        · exact Or.inl (by omega)
        · refine Or.inr ⟨by rw [heq], fun s hne hs ↦ ?_⟩
          obtain rfl | hs := List.suffix_cons_iff.mp hs
          · exact hmatch
          · exact hno s hne hs

/-- What is left when the matches are taken out. -/
theorem gsub_sublist (hm : Within m) (l : List α) : (gsub m [] l).Sublist l := by
  induction hn : l.length using Nat.strong_induction_on generalizing l with
  | _ n ih =>
    cases l with
    | nil => exact List.Sublist.refl _
    | cons c l =>
      have hrest : l.length < n := by rw [← hn, List.length_cons]; omega
      cases hmatch : m (c :: l) with
      | none =>
        rw [gsub_miss hmatch]
        exact (ih _ hrest l rfl).cons_cons c
      | some k =>
        cases k with
        | zero =>
          rw [gsub_zero hmatch]
          exact (ih _ hrest l rfl).cons_cons c
        | succ k =>
          have hk : k + 1 ≤ (c :: l).length := hm _ _ hmatch
          have htake : ((c :: l).take (k + 1)).length = k + 1 := List.length_take_of_le hk
          have hgsub : gsub m [] (c :: l) = gsub m [] ((c :: l).drop (k + 1)) := by
            conv_lhs => rw [← List.take_append_drop (k + 1) (c :: l)]
            rw [gsub_match (by simp) (by rw [List.take_append_drop, htake, hmatch]), List.nil_append]
          rw [hgsub]
          have hdrop : ((c :: l).drop (k + 1)).length < n := by rw [List.length_drop]; omega
          exact (ih _ hdrop _ rfl).trans (List.drop_sublist _ _)

/-- A plain pattern starts a text and another, or it reaches from the one into the other. -/
theorem prefix_append_cases {p s b : List α} (hne : s ≠ []) (h : p <+: s ++ b) (hs : ¬ p <+: s) :
    ∃ q, p = s ++ q ∧ q ≠ [] ∧ q <+: b ∧ q <:+ p.tail := by
  obtain ⟨t, ht⟩ := h
  obtain ⟨q, rfl, hq⟩ | ⟨q, rfl, hq⟩ := List.append_eq_append_iff.mp ht
  · exact absurd (List.prefix_append p q) hs
  · refine ⟨q, rfl, ?_, ⟨t, hq.symm⟩, ?_⟩
    · rintro rfl
      exact hs (by simp)
    · cases s with
      | nil => exact absurd rfl hne
      | cons c s => exact ⟨s, rfl⟩

end Gsub

section Literal

variable {α : Type u} [DecidableEq α]

/-- The matcher of a plain pattern. -/
def literal (p l : List α) : Option Nat := if p <+: l then some p.length else none

/-- A plain pattern matches a part of the text. -/
theorem within_literal (p : List α) : Within (literal p) := by
  intro s n h
  unfold literal at h
  split_ifs at h with hp
  · obtain rfl := Option.some.inj h
    exact hp.length_le

/-- A plain pattern does not match where it does not start. -/
theorem literal_eq_none {p l : List α} (h : ¬ p <+: l) : literal p l = none := if_neg h

/-- A plain pattern at the start. -/
theorem literal_append (p b : List α) : literal p (p ++ b) = some p.length :=
  if_pos (List.prefix_append p b)

/-- A text is cut in front of a letter that is not in the rest of the pattern. -/
theorem cuts_of_head {p a b : List α} (h : ∀ c, b.head? = some c → c ∉ p.tail) :
    Cuts (literal p) a b := by
  intro s hne _
  unfold literal
  by_cases hs : p <+: s
  · rw [if_pos hs, if_pos (hs.trans (List.prefix_append s b))]
  · rw [if_neg hs, if_neg]
    intro hp
    obtain ⟨q, -, hq, hqb, hqp⟩ := prefix_append_cases hne hp hs
    cases q with
    | nil => exact hq rfl
    | cons c q =>
      obtain ⟨t, rfl⟩ := hqb
      exact h c rfl (hqp.subset List.mem_cons_self)

/-- A text is cut behind a letter that is not in the start of the pattern. -/
theorem cuts_of_last {p a b : List α} (h : ∀ c, a.getLast? = some c → c ∉ p.dropLast) :
    Cuts (literal p) a b := by
  intro s hne hsa
  unfold literal
  by_cases hs : p <+: s
  · rw [if_pos hs, if_pos (hs.trans (List.prefix_append s b))]
  · rw [if_neg hs, if_neg]
    intro hp
    obtain ⟨q, rfl, hq, -, -⟩ := prefix_append_cases hne hp hs
    obtain ⟨t, rfl⟩ := hsa
    have hlast : (t ++ s).getLast? = some (s.getLast hne) := by
      rw [List.getLast?_append_of_ne_nil t hne, List.getLast?_eq_some_getLast hne]
    refine h _ hlast ?_
    rw [List.dropLast_append_of_ne_nil hq]
    exact List.mem_append_left _ (List.getLast_mem hne)

/-- A plain pattern that is not in a text. -/
theorem gsub_literal_eq_self {p r l : List α} (h : ¬ p <:+: l) : gsub (literal p) r l = l :=
  gsub_eq_self fun _ _ hs ↦ literal_eq_none fun hp ↦ h (hp.isInfix.trans hs.isInfix)

/-- A shorter text for a plain pattern: the text shrinks, or the pattern is not in it. -/
theorem length_gsub_literal {p r : List α} (hr : r.length < p.length) (l : List α) :
    (gsub (literal p) r l).length < l.length ∨ gsub (literal p) r l = l ∧ ¬ p <:+: l := by
  have hm : ∀ s n, literal p s = some n → r.length < n := by
    intro s n h
    unfold literal at h
    split_ifs at h
    obtain rfl := Option.some.inj h
    exact hr
  obtain hlt | ⟨heq, hno⟩ := length_gsub (within_literal p) hm l
  · exact Or.inl hlt
  · refine Or.inr ⟨heq, fun hinf ↦ ?_⟩
    obtain ⟨a, b, rfl⟩ := hinf
    have hp : p ≠ [] := List.ne_nil_of_length_pos (by omega)
    have hnone := hno (p ++ b) (by simp [hp]) ⟨a, by simp⟩
    rw [literal_append] at hnone
    cases hnone

end Literal

end OpenWrtCompile.Base
