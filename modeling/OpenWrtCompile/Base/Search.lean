import Mathlib.Data.List.Infix
import Mathlib.Tactic.Common

/-!
# First occurrence of a pattern in a list

`find? pat l` is the offset at which `pat` first occurs in `l`: the meaning of C's `strstr` and of
a plain Lua `string.find`. `split sep l` cuts a list at every occurrence of a separator.
-/

namespace OpenWrtCompile.Base.Search

universe u

variable {α : Type u} [DecidableEq α]

/-- Offset of the first occurrence of `pat`. -/
def find? (pat : List α) : List α → Option Nat
  | [] => if pat.isPrefixOf [] then some 0 else none
  | a :: l => if pat.isPrefixOf (a :: l) then some 0 else (find? pat l).map (· + 1)

/-- A hit at the very start. -/
theorem find?_at_start {pat l : List α} (h : pat <+: l) : find? pat l = some 0 := by
  have hp : pat.isPrefixOf l = true := List.isPrefixOf_iff_prefix.mpr h
  cases l <;> simp only [find?, hp, if_true]

/-- A miss at the start moves the search one element on. -/
theorem find?_cons_of_miss {pat l : List α} {a : α} (h : ¬ pat <+: a :: l) :
    find? pat (a :: l) = (find? pat l).map (· + 1) := by
  have hp : pat.isPrefixOf (a :: l) ≠ true := fun hc ↦ h (List.isPrefixOf_iff_prefix.mp hc)
  simp only [find?, hp]
  rfl

/-- The search returns the least offset at which the pattern stands. -/
theorem find?_eq_some_iff {pat l : List α} {i : Nat} :
    find? pat l = some i ↔
      i ≤ l.length ∧ pat <+: l.drop i ∧ ∀ j, j < i → ¬ pat <+: l.drop j := by
  induction l generalizing i with
  | nil =>
    by_cases h : pat <+: []
    · rw [find?_at_start h]
      constructor
      · intro hi
        obtain rfl := Option.some.inj hi
        exact ⟨Nat.le_refl _, h, fun j hj ↦ absurd hj (Nat.not_lt_zero j)⟩
      · rintro ⟨hi, -, -⟩
        rw [Nat.le_zero.mp hi]
    · have hp : pat.isPrefixOf [] ≠ true := fun hc ↦ h (List.isPrefixOf_iff_prefix.mp hc)
      simp only [find?, hp]
      constructor
      · intro hi
        cases hi
      · rintro ⟨-, hd, -⟩
        exact absurd (by simpa using hd) h
  | cons a l ih =>
    by_cases h : pat <+: a :: l
    · rw [find?_at_start h]
      constructor
      · intro hi
        obtain rfl := Option.some.inj hi
        exact ⟨Nat.zero_le _, h, fun j hj ↦ absurd hj (Nat.not_lt_zero j)⟩
      · rintro ⟨-, -, hm⟩
        rcases Nat.eq_zero_or_pos i with rfl | hi
        · rfl
        · exact absurd h (hm 0 hi)
    · rw [find?_cons_of_miss h, Option.map_eq_some_iff]
      constructor
      · rintro ⟨k, hk, rfl⟩
        obtain ⟨hl, hd, hm⟩ := ih.mp hk
        refine ⟨by simp only [List.length_cons]; omega, by simpa using hd, ?_⟩
        intro j hj
        cases j with
        | zero => exact h
        | succ j => exact hm j (by omega)
      · rintro ⟨hl, hd, hm⟩
        cases i with
        | zero => exact absurd hd h
        | succ i =>
          refine ⟨i, ih.mpr ⟨?_, by simpa using hd, ?_⟩, rfl⟩
          · simp only [List.length_cons] at hl
            omega
          · intro j hj
            exact hm (j + 1) (by omega)

/-- No hit means that the pattern stands nowhere. -/
theorem find?_eq_none_iff {pat l : List α} :
    find? pat l = none ↔ ∀ j, j ≤ l.length → ¬ pat <+: l.drop j := by
  constructor
  · intro h j hj hp
    induction l generalizing j with
    | nil =>
      rw [find?_at_start (by simpa using hp)] at h
      cases h
    | cons a l ih =>
      by_cases hc : pat <+: a :: l
      · rw [find?_at_start hc] at h
        cases h
      · rw [find?_cons_of_miss hc, Option.map_eq_none_iff] at h
        cases j with
        | zero => exact hc hp
        | succ j =>
          simp only [List.length_cons] at hj
          exact ih h j (by omega) (by simpa using hp)
  · intro h
    cases hf : find? pat l with
    | none => rfl
    | some i =>
      obtain ⟨hl, hd, -⟩ := find?_eq_some_iff.mp hf
      exact absurd hd (h i hl)

/-- What stands in the list is found. -/
theorem exists_find?_of_infix {pat l : List α} (h : pat <:+: l) : ∃ i, find? pat l = some i := by
  cases hf : find? pat l with
  | some i => exact ⟨i, rfl⟩
  | none =>
    obtain ⟨a, b, rfl⟩ := h
    have hnot := find?_eq_none_iff.mp hf a.length (by simp only [List.length_append]; omega)
    rw [List.append_assoc, List.drop_left] at hnot
    exact absurd (List.prefix_append pat b) hnot

/-- A hit lies inside the list, pattern included. -/
theorem add_length_le_of_find? {pat l : List α} {i : Nat} (h : find? pat l = some i) :
    i + pat.length ≤ l.length := by
  obtain ⟨hl, hd, -⟩ := find?_eq_some_iff.mp h
  have := hd.length_le
  rw [List.length_drop] at this
  omega

/-- What stands after the hit does not change it. -/
theorem find?_append {pat l : List α} {i : Nat} (r : List α) (h : find? pat l = some i) :
    find? pat (l ++ r) = some i := by
  have hb := add_length_le_of_find? h
  obtain ⟨hl, hd, hm⟩ := find?_eq_some_iff.mp h
  refine find?_eq_some_iff.mpr ⟨by rw [List.length_append]; omega, ?_, ?_⟩
  · rw [List.drop_append_of_le_length hl]
    exact hd.trans (List.prefix_append _ _)
  · intro j hj hp
    refine hm j hj ?_
    rw [List.drop_append_of_le_length (by omega)] at hp
    exact List.prefix_of_prefix_length_le hp (List.prefix_append _ _)
      (by rw [List.length_drop]; omega)

/-- A hit is found from any place before it on. -/
theorem find?_drop {pat l : List α} {i k : Nat} (h : find? pat l = some i) (hk : k ≤ i) :
    find? pat (l.drop k) = some (i - k) := by
  obtain ⟨hl, hd, hm⟩ := find?_eq_some_iff.mp h
  refine find?_eq_some_iff.mpr ⟨by rw [List.length_drop]; omega, ?_, ?_⟩
  · rw [List.drop_drop, Nat.add_sub_cancel' hk]
    exact hd
  · intro j hj hp
    rw [List.drop_drop] at hp
    exact hm (k + j) (by omega) hp

/-- A hit that ends inside the first part is a hit of the first part. -/
theorem find?_of_append {pat l r : List α} {i : Nat} (h : find? pat (l ++ r) = some i)
    (hi : i + pat.length ≤ l.length) : find? pat l = some i := by
  obtain ⟨-, hd, hm⟩ := find?_eq_some_iff.mp h
  rw [List.drop_append_of_le_length (by omega)] at hd
  refine find?_eq_some_iff.mpr ⟨by omega, ?_, ?_⟩
  · exact List.prefix_of_prefix_length_le hd (List.prefix_append _ _)
      (by rw [List.length_drop]; omega)
  · intro j hj hp
    refine hm j hj ?_
    rw [List.drop_append_of_le_length (by omega)]
    exact hp.trans (List.prefix_append _ _)

/-- A list in which no occurrence starts, whatever follows it, is passed over. -/
theorem find?_append_of_clear {pat a : List α} (r : List α)
    (h : ∀ j, j < a.length → ¬ pat.take (a.length - j) <+: a.drop j) :
    find? pat (a ++ r) = (find? pat r).map (a.length + ·) := by
  induction a with
  | nil => simp
  | cons x a ih =>
    have hmiss : ¬ pat <+: x :: (a ++ r) := by
      intro hp
      have htake := hp.take (x :: a).length
      rw [← List.cons_append, List.take_left] at htake
      exact h 0 (Nat.succ_pos _) htake
    have hrest : ∀ j, j < a.length → ¬ pat.take (a.length - j) <+: a.drop j := by
      intro j hj
      have hnext := h (j + 1) (Nat.succ_lt_succ hj)
      rwa [List.length_cons, Nat.add_sub_add_right, List.drop_succ_cons] at hnext
    rw [List.cons_append, find?_cons_of_miss hmiss, ih hrest, Option.map_map]
    congr 1
    funext i
    simp only [Function.comp_apply, List.length_cons]
    omega

/-- A list without the first element of the pattern is passed over. -/
theorem find?_append_of_not_mem {x : α} {pat a : List α} (r : List α) (h : x ∉ a) :
    find? (x :: pat) (a ++ r) = (find? (x :: pat) r).map (a.length + ·) := by
  apply find?_append_of_clear
  intro j hj hp
  rw [List.take_cons (by omega)] at hp
  have hmem := hp.subset List.mem_cons_self
  exact h (List.mem_of_mem_drop hmem)

/-- Cut `l` at each occurrence of `sep`; an empty last piece is dropped. `fuel` bounds the cuts. -/
def splitLoop (sep : List α) : Nat → List α → List (List α)
  | 0, _ => []
  | fuel + 1, l =>
    match find? sep l with
    | none => if l = [] then [] else [l]
    | some i => l.take i :: splitLoop sep fuel (l.drop (i + sep.length))

/-- Cut `l` at each occurrence of the non-empty separator `sep`; one cut takes at least one
element, so the length of the list is fuel enough. -/
def split (sep l : List α) : List (List α) := splitLoop sep (l.length + 1) l

/-- More fuel than elements changes nothing. -/
theorem splitLoop_eq {sep : List α} (hs : sep ≠ []) (l : List α) (fuel : Nat)
    (h : l.length < fuel) : splitLoop sep fuel l = split sep l := by
  have hpos : 0 < sep.length := List.length_pos_iff.mpr hs
  have key : ∀ (n : Nat) (l : List α) (a b : Nat), l.length ≤ n → l.length < a → l.length < b →
      splitLoop sep a l = splitLoop sep b l := by
    intro n
    induction n with
    | zero =>
      intro l a b hn ha hb
      obtain ⟨a, rfl⟩ := Nat.exists_eq_succ_of_ne_zero (by omega : a ≠ 0)
      obtain ⟨b, rfl⟩ := Nat.exists_eq_succ_of_ne_zero (by omega : b ≠ 0)
      simp only [splitLoop]
      cases hf : find? sep l with
      | none => rfl
      | some i =>
        have := add_length_le_of_find? hf
        omega
    | succ n ih =>
      intro l a b hn ha hb
      obtain ⟨a, rfl⟩ := Nat.exists_eq_succ_of_ne_zero (by omega : a ≠ 0)
      obtain ⟨b, rfl⟩ := Nat.exists_eq_succ_of_ne_zero (by omega : b ≠ 0)
      simp only [splitLoop]
      cases hf : find? sep l with
      | none => rfl
      | some i =>
        have hb' := add_length_le_of_find? hf
        have hd : (l.drop (i + sep.length)).length + sep.length ≤ l.length := by
          rw [List.length_drop]
          omega
        simp only
        rw [ih _ a b (by omega) (by omega) (by omega)]
  exact key l.length l fuel (l.length + 1) (Nat.le_refl _) h (Nat.lt_succ_self _)

/-- One cut of `split`. -/
theorem split_eq {sep : List α} (hs : sep ≠ []) (l : List α) :
    split sep l =
      match find? sep l with
      | none => if l = [] then [] else [l]
      | some i => l.take i :: split sep (l.drop (i + sep.length)) := by
  have hpos : 0 < sep.length := List.length_pos_iff.mpr hs
  conv_lhs => rw [split, splitLoop]
  cases hf : find? sep l with
  | none => rfl
  | some i =>
    have := add_length_le_of_find? hf
    simp only
    rw [splitLoop_eq hs _ _ (by rw [List.length_drop]; omega)]

/-- Only the empty list has no piece. -/
theorem split_eq_nil_iff {sep : List α} (hs : sep ≠ []) (l : List α) :
    split sep l = [] ↔ l = [] := by
  rw [split_eq hs]
  cases hf : find? sep l with
  | none =>
    by_cases hl : l = []
    · simp [hl]
    · simp [hl]
  | some i =>
    have := add_length_le_of_find? hf
    have hpos : 0 < sep.length := List.length_pos_iff.mpr hs
    simp only [reduceCtorEq, false_iff]
    rintro rfl
    simp only [List.length_nil] at this
    omega

/-- The pieces hold nothing that the list does not. -/
theorem subset_of_mem_split {sep l v : List α} (hs : sep ≠ []) (h : v ∈ split sep l) : v ⊆ l := by
  have hpos : 0 < sep.length := List.length_pos_iff.mpr hs
  induction hn : l.length using Nat.strong_induction_on generalizing l with
  | _ n ih =>
    rw [split_eq hs] at h
    cases hf : find? sep l with
    | none =>
      rw [hf] at h
      simp only at h
      split at h
      · cases h
      · rw [List.mem_singleton.mp h]
        exact List.Subset.refl l
    | some i =>
      rw [hf] at h
      have hle := add_length_le_of_find? hf
      rcases List.mem_cons.mp h with hv | hv
      · rw [hv]
        exact List.take_subset i l
      · refine List.Subset.trans ?_ (List.drop_subset (i + sep.length) l)
        exact ih _ (by rw [List.length_drop]; omega) hv rfl

/-- The pattern does not start in a list that does not have it, nor at the element behind it that the
pattern does not have. -/
theorem find?_append_cons {pat a : List α} {c : α} (r : List α) (hc : c ∉ pat)
    (h : ¬ pat <:+: a) :
    find? pat (a ++ c :: r) = (find? pat r).map (a.length + 1 + ·) := by
  have hclear : find? pat ((a ++ [c]) ++ r) = (find? pat r).map ((a ++ [c]).length + ·) := by
    apply find?_append_of_clear
    intro j hj hp
    rw [List.length_append, List.length_singleton] at hj hp
    rw [List.drop_append_of_le_length (by omega)] at hp
    by_cases hlen : pat.length ≤ (a.drop j).length
    · rw [List.take_of_length_le (by rw [List.length_drop] at hlen; omega)] at hp
      have hin : pat <+: a.drop j :=
        List.prefix_of_prefix_length_le hp (List.prefix_append _ _) hlen
      exact h (hin.isInfix.trans (List.drop_suffix j a).isInfix)
    · have htake : (pat.take (a.length + 1 - j)).length = (a.drop j ++ [c]).length := by
        rw [List.length_take, List.length_append, List.length_singleton, List.length_drop]
        rw [List.length_drop] at hlen
        omega
      have hall := hp.eq_of_length htake
      have hmem : c ∈ pat.take (a.length + 1 - j) := by
        rw [hall]
        exact List.mem_append_right _ (List.mem_singleton_self c)
      exact hc (List.mem_of_mem_take hmem)
  rw [List.append_assoc, List.singleton_append] at hclear
  rw [hclear, List.length_append, List.length_singleton]

/-- No hit means that the pattern stands nowhere in the list. -/
theorem find?_of_not_infix {pat l : List α} (h : ¬ pat <:+: l) : find? pat l = none := by
  cases hf : find? pat l with
  | none => rfl
  | some i =>
    obtain ⟨-, hd, -⟩ := find?_eq_some_iff.mp hf
    exact absurd (hd.isInfix.trans (List.drop_suffix i l).isInfix) h

/-- The separator is found behind a list in which it does not start. -/
theorem find?_append_sep {sep a : List α} (r : List α) (h : ¬ sep <:+: a ++ sep.dropLast) :
    find? sep (a ++ sep ++ r) = some a.length := by
  refine find?_eq_some_iff.mpr ⟨by simp only [List.length_append]; omega, ?_, ?_⟩
  · rw [List.append_assoc, List.drop_left]
    exact List.prefix_append sep r
  · intro j hj hp
    apply h
    have hlen : sep.length - 1 + 1 = sep.length := by
      have hpos : sep ≠ [] := by
        rintro rfl
        exact h List.nil_infix
      have := List.length_pos_iff.mpr hpos
      omega
    have hcut : (a ++ sep ++ r).drop j =
        (a ++ sep.dropLast).drop j ++ (sep.drop (sep.length - 1) ++ r) := by
      have hsep : sep.dropLast ++ sep.drop (sep.length - 1) = sep := by
        rw [List.dropLast_eq_take, List.take_append_drop]
      conv_lhs => rw [← hsep]
      rw [← List.append_assoc a, List.append_assoc _ _ r,
        List.drop_append_of_le_length (by rw [List.length_append]; omega)]
    rw [hcut] at hp
    have hin : sep <+: (a ++ sep.dropLast).drop j :=
      List.prefix_of_prefix_length_le hp (List.prefix_append _ _)
        (by rw [List.length_drop, List.length_append, List.length_dropLast]; omega)
    exact hin.isInfix.trans (List.drop_suffix j _).isInfix

/-- What stands before the first separator: the whole list where there is none. -/
def before (sep l : List α) : List α := (find? sep l).elim l l.take

/-- Without a separator nothing is cut off. -/
theorem before_of_not_infix {sep l : List α} (h : ¬ sep <:+: l) : before sep l = l := by
  rw [before, find?_of_not_infix h]
  rfl

/-- A separator behind a list in which it does not start is the first. -/
theorem before_append_sep {sep a : List α} (r : List α) (h : ¬ sep <:+: a ++ sep.dropLast) :
    before sep (a ++ sep ++ r) = a := by
  rw [before, find?_append_sep r h, List.append_assoc]
  exact List.take_left

/-- A list that has the separator is cut inside. -/
theorem before_append_of_infix {sep a : List α} (r : List α) (h : sep <:+: a) :
    before sep (a ++ r) = before sep a := by
  obtain ⟨i, hi⟩ := exists_find?_of_infix h
  have hle := (find?_eq_some_iff.mp hi).1
  unfold before
  rw [find?_append r hi, hi]
  exact List.take_append_of_le_length hle

/-- A list that has no separator, and an element that is not in it, are passed over. -/
theorem before_append_cons {sep a : List α} {c : α} (r : List α) (hc : c ∉ sep)
    (h : ¬ sep <:+: a) : before sep (a ++ c :: r) = a ++ c :: before sep r := by
  unfold before
  rw [find?_append_cons r hc h]
  cases find? sep r with
  | none => rfl
  | some i =>
    show (a ++ c :: r).take (a.length + 1 + i) = a ++ c :: r.take i
    rw [Nat.add_assoc, List.take_length_add_append, Nat.add_comm 1 i, List.take_succ_cons]

/-- What stands before the first separator starts the list. -/
theorem before_start (sep l : List α) : before sep l <+: l := by
  unfold before
  cases find? sep l with
  | none => exact List.prefix_refl l
  | some i => exact List.take_prefix i l

/-- The separator does not stand before its first place. -/
theorem not_infix_before {sep l : List α} (hs : sep ≠ []) : ¬ sep <:+: before sep l := by
  intro hin
  unfold before at hin
  cases hf : find? sep l with
  | none =>
    rw [hf] at hin
    obtain ⟨i, hi⟩ := exists_find?_of_infix hin
    have hnone : find? sep l = some i := hi
    rw [hf] at hnone
    cases hnone
  | some i =>
    rw [hf] at hin
    obtain ⟨hle, -, hmiss⟩ := find?_eq_some_iff.mp hf
    obtain ⟨j, hj⟩ := exists_find?_of_infix hin
    have hend := add_length_le_of_find? hj
    have hpos := List.length_pos_iff.mpr hs
    rw [Option.elim_some, List.length_take, Nat.min_eq_left hle] at hend
    have hwhole := find?_append (l.drop i) hj
    rw [Option.elim_some, List.take_append_drop] at hwhole
    exact hmiss j (by omega) (find?_eq_some_iff.mp hwhole).2.1

/-- The first piece. -/
theorem exists_split_eq {sep l : List α} (hs : sep ≠ []) (hl : l ≠ []) :
    ∃ r, split sep l = before sep l :: r := by
  rw [split_eq hs]
  unfold before
  cases find? sep l with
  | none => exact ⟨[], by rw [if_neg hl]; rfl⟩
  | some i => exact ⟨_, rfl⟩

/-- One piece where there is no separator. -/
theorem split_of_not_infix {sep l : List α} (hs : sep ≠ []) (hl : l ≠ []) (h : ¬ sep <:+: l) :
    split sep l = [l] := by
  rw [split_eq hs, find?_of_not_infix h]
  exact if_neg hl

/-- The piece before the first separator. -/
theorem split_append_sep {sep a : List α} (r : List α) (h : ¬ sep <:+: a ++ sep.dropLast) :
    split sep (a ++ sep ++ r) = a :: split sep r := by
  have hs : sep ≠ [] := by
    rintro rfl
    exact h List.nil_infix
  rw [split_eq hs, find?_append_sep r h]
  simp only
  rw [List.append_assoc, List.take_left, ← List.append_assoc, ← List.length_append, List.drop_left]

/-- The pieces stand in the list. -/
theorem infix_of_mem_split {sep l v : List α} (hs : sep ≠ []) (h : v ∈ split sep l) : v <:+: l := by
  have hpos : 0 < sep.length := List.length_pos_iff.mpr hs
  induction hn : l.length using Nat.strong_induction_on generalizing l with
  | _ n ih =>
    rw [split_eq hs] at h
    cases hf : find? sep l with
    | none =>
      rw [hf] at h
      simp only at h
      split at h
      · cases h
      · rw [List.mem_singleton.mp h]
    | some i =>
      rw [hf] at h
      have hle := add_length_le_of_find? hf
      obtain hv | hv := List.mem_cons.mp h
      · rw [hv]
        exact (List.take_prefix i l).isInfix
      · have hrest := ih _ (by rw [List.length_drop]; omega) hv rfl
        exact hrest.trans (List.drop_suffix (i + sep.length) l).isInfix

/-- No piece has the separator. -/
theorem not_infix_of_mem_split {sep l v : List α} (hs : sep ≠ []) (h : v ∈ split sep l) :
    ¬ sep <:+: v := by
  have hpos : 0 < sep.length := List.length_pos_iff.mpr hs
  induction hn : l.length using Nat.strong_induction_on generalizing l with
  | _ n ih =>
    have hl : l ≠ [] := by
      rintro rfl
      rw [(split_eq_nil_iff hs []).mpr rfl] at h
      cases h
    have hfirst : ¬ sep <:+: before sep l := not_infix_before hs
    rw [split_eq hs] at h
    unfold before at hfirst
    cases hf : find? sep l with
    | none =>
      rw [hf] at h hfirst
      simp only at h
      rw [if_neg hl] at h
      rw [List.mem_singleton.mp h]
      exact hfirst
    | some i =>
      rw [hf] at h hfirst
      have hle := add_length_le_of_find? hf
      obtain hv | hv := List.mem_cons.mp h
      · rw [hv]
        exact hfirst
      · exact ih _ (by rw [List.length_drop]; omega) hv rfl

/-- Cut at one element: the first piece. -/
theorem split_cons_of_not_mem {c : α} {a : List α} (r : List α) (h : c ∉ a) :
    split [c] (a ++ c :: r) = a :: split [c] r := by
  have hsep : ¬ [c] <:+: a ++ [c].dropLast := by
    rw [List.dropLast_singleton, List.append_nil, List.singleton_infix_iff]
    exact h
  have hcut := split_append_sep r hsep
  rwa [List.append_assoc, List.singleton_append] at hcut

/-- Cut at one element that is not there. -/
theorem split_singleton_of_not_mem {c : α} {l : List α} (hl : l ≠ []) (h : c ∉ l) :
    split [c] l = [l] :=
  split_of_not_infix (List.cons_ne_nil c []) hl (fun hin ↦ h ((List.singleton_infix_iff c l).mp hin))

/-- The first two pieces of a list that is cut at one element. -/
theorem prefix_of_split_singleton {c : α} {l a b : List α} {r : List (List α)}
    (h : split [c] l = a :: b :: r) : a ++ c :: b <+: l ∧ c ∉ a ∧ c ∉ b := by
  have hmem : c ∈ l := by
    by_contra hc
    by_cases hl : l = []
    · rw [(split_eq_nil_iff (List.cons_ne_nil c []) l).mpr hl] at h
      cases h
    · rw [split_singleton_of_not_mem hl hc] at h
      cases h
  obtain ⟨x, y, rfl, hx⟩ := List.eq_append_cons_of_mem hmem
  rw [split_cons_of_not_mem y hx] at h
  obtain ⟨rfl, hy⟩ := List.cons.inj h
  have hne : y ≠ [] := by
    rintro rfl
    rw [(split_eq_nil_iff (List.cons_ne_nil c []) []).mpr rfl] at hy
    cases hy
  obtain ⟨rest, hrest⟩ := exists_split_eq (List.cons_ne_nil c []) hne
  rw [hrest] at hy
  obtain ⟨rfl, -⟩ := List.cons.inj hy
  refine ⟨?_, hx, fun hc ↦ ?_⟩
  · rw [List.prefix_append_right_inj, List.cons_prefix_cons]
    exact ⟨rfl, before_start [c] y⟩
  · exact not_infix_before (List.cons_ne_nil c []) ((List.singleton_infix_iff c _).mpr hc)

/-- The second piece of a start of a list stands behind its first separator. -/
theorem prefix_of_second_piece {sep a r l q : List α} (ha : ¬ sep <:+: a ++ sep.dropLast)
    (hl : l <+: a ++ sep ++ r) (h : (split sep l)[1]? = some q) : q <+: r := by
  have hs : sep ≠ [] := by
    rintro rfl
    exact ha List.nil_infix
  by_cases hlen : (a ++ sep).length ≤ l.length
  · obtain ⟨s, rfl⟩ := List.prefix_of_prefix_length_le (List.prefix_append _ r) hl hlen
    rw [split_append_sep s ha, List.getElem?_cons_succ] at h
    have hne : s ≠ [] := by
      rintro rfl
      rw [(split_eq_nil_iff hs []).mpr rfl] at h
      cases h
    obtain ⟨rest, hrest⟩ := exists_split_eq hs hne
    rw [hrest, List.getElem?_cons_zero] at h
    cases h
    exact (before_start sep s).trans ((List.prefix_append_right_inj _).mp hl)
  · have hstart : l <+: a ++ sep.dropLast := by
      have hcut : a ++ sep.dropLast <+: a ++ sep ++ r :=
        ((List.prefix_append_right_inj a).mpr (List.dropLast_prefix sep)).trans
          (List.prefix_append _ r)
      apply List.prefix_of_prefix_length_le hl hcut
      have hpos := List.length_pos_iff.mpr hs
      simp only [List.length_append, List.length_dropLast] at hlen ⊢
      omega
    have hfree : ¬ sep <:+: l := fun hin ↦ ha (hin.trans hstart.isInfix)
    rw [split_eq hs, find?_of_not_infix hfree] at h
    simp only at h
    split at h <;> cases h

omit [DecidableEq α] in
/-- A start without an element is a start of what stands before it. -/
theorem prefix_of_prefix_append_cons {x a r : List α} {c : α} (h : x <+: a ++ c :: r) (hc : c ∉ x) :
    x <+: a := by
  by_cases hlen : x.length ≤ a.length
  · exact List.prefix_of_prefix_length_le h (List.prefix_append a _) hlen
  · have hcut : a ++ [c] <+: a ++ c :: r := (List.prefix_append_right_inj a).mpr (by simp)
    have hin : a ++ [c] <+: x := by
      apply List.prefix_of_prefix_length_le hcut h
      rw [List.length_append, List.length_singleton]
      omega
    exact absurd (hin.subset (by simp)) hc

/-- Cut at one element: the pieces before it and those behind it. -/
theorem split_append_cut {c : α} (a r : List α) :
    split [c] (a ++ c :: r) = split [c] (a ++ [c]) ++ split [c] r := by
  have hnil : split [c] ([] : List α) = [] := (split_eq_nil_iff (List.cons_ne_nil c []) _).mpr rfl
  induction hn : a.length using Nat.strong_induction_on generalizing a with
  | _ n ih =>
    by_cases hc : c ∈ a
    · obtain ⟨a₁, a₂, rfl, hfirst⟩ := List.eq_append_cons_of_mem hc
      rw [List.append_assoc, List.append_assoc, List.cons_append, List.cons_append,
        split_cons_of_not_mem _ hfirst, split_cons_of_not_mem _ hfirst,
        ih a₂.length (by rw [← hn, List.length_append, List.length_cons]; omega) a₂ rfl]
      rfl
    · rw [split_cons_of_not_mem _ hc, split_cons_of_not_mem _ hc, hnil]
      rfl

/-- Cut at one element behind a piece. -/
theorem split_concat {c : α} {b : List α} (h : c ∉ b) : split [c] (b ++ [c]) = [b] := by
  rw [split_cons_of_not_mem _ h, (split_eq_nil_iff (List.cons_ne_nil c []) _).mpr rfl]

/-- Cut at one element: the last piece. -/
theorem getLast?_split {c : α} {b : List α} (a : List α) (hb : b ≠ []) (h : c ∉ b) :
    (split [c] (a ++ c :: b)).getLast? = some b := by
  induction hn : a.length using Nat.strong_induction_on generalizing a with
  | _ n ih =>
    by_cases hc : c ∈ a
    · obtain ⟨a₁, a₂, rfl, hfirst⟩ := List.eq_append_cons_of_mem hc
      rw [List.append_assoc, List.cons_append, split_cons_of_not_mem _ hfirst,
        List.getLast?_cons, ih a₂.length (by rw [← hn, List.length_append, List.length_cons]; omega)
        a₂ rfl]
      rfl
    · rw [split_cons_of_not_mem _ hc, split_singleton_of_not_mem hb h]
      rfl

/-- Items that were joined with an element are cut apart again. -/
theorem split_intercalate {c : α} {items : List (List α)} (h : ∀ v ∈ items, c ∉ v)
    (hlast : items.getLast? ≠ some []) : split [c] (List.intercalate [c] items) = items := by
  induction items with
  | nil => exact (split_eq_nil_iff (List.cons_ne_nil c []) _).mpr rfl
  | cons v items ih =>
    have hv := h v List.mem_cons_self
    cases items with
    | nil =>
      have hne : v ≠ [] := by
        rintro rfl
        exact hlast rfl
      rw [List.intercalate_singleton, split_singleton_of_not_mem hne hv]
    | cons w items =>
      have hjoin : List.intercalate [c] (v :: w :: items) =
          v ++ c :: List.intercalate [c] (w :: items) := by
        rw [List.intercalate_cons_cons, List.append_assoc, List.singleton_append]
      rw [hjoin, split_cons_of_not_mem _ hv, ih (fun x hx ↦ h x (List.mem_cons_of_mem v hx))]
      rwa [List.getLast?_cons_cons] at hlast

/-- A pattern stands on one side of an element that it does not have. -/
theorem infix_append_cons {pat a r : List α} {c : α} (hc : c ∉ pat) :
    pat <:+: a ++ c :: r ↔ pat <:+: a ∨ pat <:+: r := by
  constructor
  · intro h
    by_cases ha : pat <:+: a
    · exact Or.inl ha
    · right
      obtain ⟨i, hi⟩ := exists_find?_of_infix h
      rw [find?_append_cons r hc ha] at hi
      obtain ⟨j, hj, -⟩ := Option.map_eq_some_iff.mp hi
      have hd := (find?_eq_some_iff.mp hj).2.1
      exact hd.isInfix.trans (List.drop_suffix j r).isInfix
  · rintro (h | h)
    · exact h.trans (List.prefix_append a _).isInfix
    · exact h.trans ((List.suffix_cons c r).trans (List.suffix_append a _)).isInfix

omit [DecidableEq α] in
/-- What follows a list in a part of a list that starts with it is a part of the rest. -/
theorem infix_of_append_infix {k v r : List α} (h : k ++ v <:+: k ++ r) : v <:+: r := by
  obtain ⟨x, y, hxy⟩ := h
  have hsuffix : v ++ y <:+ k ++ r := ⟨x ++ k, by simpa using hxy⟩
  have hlen := congrArg List.length hxy
  simp only [List.length_append] at hlen
  have hrest : v ++ y <:+ r := by
    apply List.suffix_of_suffix_length_le hsuffix (List.suffix_append k r)
    rw [List.length_append]
    omega
  exact (List.prefix_append v y).isInfix.trans hrest.isInfix

omit [DecidableEq α] in
/-- What follows a list in a part of a list that starts with another one of the same length is shorter
than the rest. -/
theorem length_lt_of_infix {k k' b v : List α} (hlen : k.length = k'.length) (hne : k ≠ k')
    (h : k ++ b <:+: k' ++ v) : b.length < v.length := by
  have hle := h.length_le
  simp only [List.length_append] at hle
  by_contra hlt
  have heq : k ++ b = k' ++ v := by
    apply h.eq_of_length
    simp only [List.length_append]
    omega
  exact hne (List.append_inj heq hlen).1

/-- A pattern without the element between joined lists stands in one of them. -/
theorem infix_intercalate {pat : List α} {c : α} {l : List (List α)} (hc : c ∉ pat)
    (hne : pat ≠ []) : pat <:+: List.intercalate [c] l ↔ ∃ x ∈ l, pat <:+: x := by
  induction l with
  | nil => simp [hne]
  | cons x l ih =>
    cases l with
    | nil => simp
    | cons y l =>
      rw [List.intercalate_cons_cons, List.append_assoc, List.singleton_append,
        infix_append_cons hc, ih, ← List.exists_mem_cons_iff (pat <:+: ·) x]

/-- The first element of its kind is found behind what has none. -/
theorem idxOf?_append_cons {c : α} {a : List α} (b : List α) (h : c ∉ a) :
    (a ++ c :: b).idxOf? c = some a.length := by
  rw [List.idxOf?_eq_some_iff]
  refine ⟨by simp, by simp, ?_⟩
  intro j hj
  rw [List.getElem_append_left hj]
  intro heq
  exact h (by simpa using heq ▸ List.getElem_mem hj)

/-- An element that `idxOf?` finds, with what stands in front of it. -/
theorem exists_cut_of_idxOf? {c : α} {l : List α} {i : Nat} (h : l.idxOf? c = some i) :
    ∃ a b, l = a ++ c :: b ∧ a.length = i ∧ c ∉ a := by
  obtain ⟨hi, hc, hfirst⟩ := List.idxOf?_eq_some_iff.mp h
  refine ⟨l.take i, l.drop (i + 1), ?_, List.length_take_of_le hi.le, ?_⟩
  · rw [← hc, List.getElem_cons_drop, List.take_append_drop]
  · intro hm
    obtain ⟨j, hj, he⟩ := List.mem_iff_getElem.mp hm
    rw [List.length_take] at hj
    rw [List.getElem_take] at he
    exact hfirst j (by omega) he

/-- Two cuts of one list at the first place of an element are the same. -/
theorem append_cons_inj {c : α} {a b r s : List α} (ha : c ∉ a) (hb : c ∉ b)
    (h : a ++ c :: r = b ++ c :: s) : a = b ∧ r = s := by
  have hlen : a.length = b.length := by
    have hidx (x y : List α) (hx : c ∉ x) : (x ++ c :: y).idxOf c = x.length := by
      rw [List.idxOf_append_of_notMem hx, List.idxOf_cons_self, Nat.add_zero]
    rw [← hidx a r ha, ← hidx b s hb, h]
  obtain ⟨hab, hrs⟩ := List.append_inj h hlen
  exact ⟨hab, (List.cons.inj hrs).2⟩

/-- A pattern that ends with an element ends at its only place. -/
theorem concat_infix_append_cons {pat a r : List α} {c : α} (ha : c ∉ a) (hr : c ∉ r) :
    pat ++ [c] <:+: a ++ c :: r ↔ pat <:+ a := by
  constructor
  · rintro ⟨s, t, h⟩
    have hcut : (s ++ pat) ++ c :: t = a ++ c :: r := by simpa using h
    have hcount : (s ++ pat).count c = 0 := by
      have htotal := congrArg (List.count c) hcut
      simp only [List.count_append, List.count_cons_self, List.count_eq_zero_of_not_mem ha,
        List.count_eq_zero_of_not_mem hr] at htotal ⊢
      omega
    obtain ⟨hs, -⟩ := append_cons_inj (List.count_eq_zero.mp hcount) ha hcut
    exact ⟨s, hs⟩
  · rintro ⟨s, rfl⟩
    exact ⟨s, r, by simp⟩

/-- Cut before the first separator, with an element in between that the separator does not have. -/
theorem before_append_cons_eq {sep a : List α} {c : α} (r : List α) (hc : c ∉ sep) :
    before sep (a ++ c :: r) = if sep <:+: a then before sep a else a ++ c :: before sep r := by
  split
  · next h => exact before_append_of_infix _ h
  · next h => exact before_append_cons r hc h

end OpenWrtCompile.Base.Search
