import Mathlib.Data.List.Basic
import Mathlib.Data.List.Infix
import Mathlib.Tactic.Common

/-!
# Patterns with a wildcard

A pattern is a list of places, each of which takes one letter or any. It finds a text if it matches a
part of it. In a text between two separators, a pattern between two separators finds the whole text;
one that starts with another mark finds what stands behind such a mark in it.
-/

namespace OpenWrtCompile.Base

universe u

/-- A place of a pattern: one letter, or any. -/
inductive PatPlace (α : Type u)
  | one (c : α)
  | any
  deriving DecidableEq, Repr

/-- Two texts up to the first place of a letter. -/
theorem append_cons_left {α : Type u} {s : α} {x₁ x₂ z₁ z₂ : List α} (h₁ : s ∉ x₁) (h₂ : s ∉ x₂)
    (h : x₁ ++ s :: z₁ = x₂ ++ s :: z₂) : x₁ = x₂ ∧ z₁ = z₂ := by
  induction x₁ generalizing x₂ with
  | nil =>
    cases x₂ with
    | nil => exact ⟨rfl, (List.cons.inj h).2⟩
    | cons c x₂ =>
      obtain ⟨rfl, _⟩ := List.cons.inj h
      exact absurd List.mem_cons_self h₂
  | cons c x₁ ih =>
    cases x₂ with
    | nil =>
      obtain ⟨rfl, _⟩ := List.cons.inj h
      exact absurd List.mem_cons_self h₁
    | cons d x₂ =>
      obtain ⟨rfl, hrest⟩ := List.cons.inj h
      obtain ⟨rfl, rfl⟩ := ih (fun hs ↦ h₁ (List.mem_cons_of_mem _ hs))
        (fun hs ↦ h₂ (List.mem_cons_of_mem _ hs)) hrest
      exact ⟨rfl, rfl⟩

/-- Two texts at a letter that the first has once. -/
theorem append_cons_once {α : Type u} {s : α} {x₁ x₂ z₁ z₂ : List α} (hx : s ∉ x₁) (hz : s ∉ z₁)
    (h : x₁ ++ s :: z₁ = x₂ ++ s :: z₂) : x₁ = x₂ ∧ z₁ = z₂ := by
  obtain ⟨y, hy, hrest⟩ | ⟨y, hy, hrest⟩ := List.append_eq_append_iff.mp h
  · cases y with
    | nil => exact ⟨by simpa using hy.symm, (List.cons.inj hrest).2⟩
    | cons c y =>
      obtain ⟨rfl, rfl⟩ := List.cons.inj hrest
      exact absurd (List.mem_append_right _ List.mem_cons_self) hz
  · cases y with
    | nil => exact ⟨by simpa using hy, (List.cons.inj hrest).2.symm⟩
    | cons c y =>
      obtain ⟨rfl, rfl⟩ := List.cons.inj hrest
      exact absurd (hy ▸ List.mem_append_right _ List.mem_cons_self) hx

/-- A letter behind a text without it, or further behind. -/
theorem append_cons_cases {α : Type u} {s : α} {x k z₁ z₂ : List α} (hk : s ∉ k)
    (h : x ++ s :: z₁ = k ++ s :: z₂) :
    x = k ∧ z₁ = z₂ ∨ ∃ y, x = k ++ s :: y ∧ y ++ s :: z₁ = z₂ := by
  obtain ⟨y, hy, hrest⟩ | ⟨y, hy, hrest⟩ := List.append_eq_append_iff.mp h
  · cases y with
    | nil => exact Or.inl ⟨by simpa using hy.symm, (List.cons.inj hrest).2⟩
    | cons c y =>
      obtain ⟨rfl, -⟩ := List.cons.inj hrest
      exact absurd (hy ▸ List.mem_append_right _ List.mem_cons_self) hk
  · cases y with
    | nil => exact Or.inl ⟨by simpa using hy, (List.cons.inj hrest).2.symm⟩
    | cons c y =>
      obtain ⟨rfl, hz⟩ := List.cons.inj hrest
      exact Or.inr ⟨y, hy, hz.symm⟩

section Patterns

variable {α : Type u} [DecidableEq α]

/-- The place takes the letter. -/
def PatPlace.takes (c : α) : PatPlace α → Bool
  | .one d => d = c
  | .any => true

/-- The pattern matches at the start of the text. -/
def startsWith : List (PatPlace α) → List α → Bool
  | [], _ => true
  | _ :: _, [] => false
  | a :: p, c :: l => a.takes c && startsWith p l

/-- The pattern matches a part of the text. -/
def finds (p : List (PatPlace α)) : List α → Bool
  | [] => startsWith p []
  | c :: l => startsWith p (c :: l) || finds p l

/-- The pattern matches the whole text. -/
def Fits (p : List (PatPlace α)) (l : List α) : Prop :=
  List.Forall₂ (fun a c ↦ PatPlace.takes c a = true) p l

/-- A match at the start. -/
theorem startsWith_iff {p : List (PatPlace α)} {l : List α} :
    startsWith p l = true ↔ ∃ m post, l = m ++ post ∧ Fits p m := by
  induction p generalizing l with
  | nil => exact iff_of_true rfl ⟨[], l, rfl, .nil⟩
  | cons a p ih =>
    cases l with
    | nil =>
      refine iff_of_false (by simp [startsWith]) ?_
      rintro ⟨m, post, hl, hm⟩
      obtain ⟨rfl, _⟩ := List.append_eq_nil_iff.mp hl.symm
      cases hm
    | cons c l =>
      rw [startsWith, Bool.and_eq_true, ih]
      constructor
      · rintro ⟨ha, m, post, rfl, hm⟩
        exact ⟨c :: m, post, rfl, .cons ha hm⟩
      · rintro ⟨m, post, hl, hm⟩
        cases hm with
        | cons ha hm =>
          obtain ⟨rfl, rfl⟩ := List.cons.inj hl
          exact ⟨ha, _, post, rfl, hm⟩

/-- A match somewhere. -/
theorem finds_iff {p : List (PatPlace α)} {l : List α} :
    finds p l = true ↔ ∃ pre m post, l = pre ++ m ++ post ∧ Fits p m := by
  induction l with
  | nil =>
    rw [finds, startsWith_iff]
    constructor
    · rintro ⟨m, post, hl, hm⟩
      exact ⟨[], m, post, hl, hm⟩
    · rintro ⟨pre, m, post, hl, hm⟩
      rw [List.append_assoc] at hl
      obtain ⟨_, hrest⟩ := List.append_eq_nil_iff.mp hl.symm
      exact ⟨m, post, hrest.symm, hm⟩
  | cons c l ih =>
    rw [finds, Bool.or_eq_true, startsWith_iff, ih]
    constructor
    · rintro (⟨m, post, hl, hm⟩ | ⟨pre, m, post, rfl, hm⟩)
      · exact ⟨[], m, post, hl, hm⟩
      · exact ⟨c :: pre, m, post, rfl, hm⟩
    · rintro ⟨pre, m, post, hl, hm⟩
      cases pre with
      | nil => exact Or.inl ⟨m, post, hl, hm⟩
      | cons d pre =>
        obtain ⟨rfl, rfl⟩ := List.cons.inj hl
        exact Or.inr ⟨pre, m, post, rfl, hm⟩

/-- A match of two patterns one behind the other. -/
theorem fits_append {p q : List (PatPlace α)} {l : List α} :
    Fits (p ++ q) l ↔ ∃ m n, l = m ++ n ∧ Fits p m ∧ Fits q n := by
  induction p generalizing l with
  | nil =>
    constructor
    · intro h
      exact ⟨[], l, rfl, .nil, h⟩
    · rintro ⟨m, n, rfl, hm, hn⟩
      cases hm
      exact hn
  | cons a p ih =>
    constructor
    · intro h
      cases h with
      | cons ha hrest =>
        obtain ⟨m, n, rfl, hm, hn⟩ := ih.mp hrest
        exact ⟨_ :: m, n, rfl, .cons ha hm, hn⟩
    · rintro ⟨m, n, rfl, hm, hn⟩
      cases hm with
      | cons ha hm => exact .cons ha (ih.mpr ⟨_, n, rfl, hm, hn⟩)

/-- A match of one letter. -/
theorem fits_one {s : α} {l : List α} : Fits [.one s] l ↔ l = [s] := by
  constructor
  · intro h
    cases h with
    | cons ha hrest =>
      cases hrest
      rw [PatPlace.takes, decide_eq_true_eq] at ha
      rw [ha]
  · rintro rfl
    exact .cons (by simp [PatPlace.takes]) .nil

/-- A match of a pattern between two letters. -/
theorem fits_between {s t : α} {p : List (PatPlace α)} {l : List α} :
    Fits (.one s :: (p ++ [.one t])) l ↔ ∃ m, l = s :: (m ++ [t]) ∧ Fits p m := by
  have hsplit : PatPlace.one s :: (p ++ [.one t]) = [.one s] ++ (p ++ [.one t]) := rfl
  rw [hsplit, fits_append]
  constructor
  · rintro ⟨m, n, rfl, hm, hn⟩
    obtain ⟨x, y, rfl, hx, hy⟩ := fits_append.mp hn
    rw [fits_one.mp hm, fits_one.mp hy]
    exact ⟨x, rfl, hx⟩
  · rintro ⟨m, rfl, hm⟩
    exact ⟨[s], m ++ [t], rfl, fits_one.mpr rfl, fits_append.mpr ⟨m, [t], rfl, hm, fits_one.mpr rfl⟩⟩

/-- A pattern between two separators finds a text with two separators if it fits what stands between
them. -/
theorem finds_between {s : α} {p : List (PatPlace α)} {front x back : List α} (hfront : s ∉ front)
    (hx : s ∉ x) (hback : s ∉ back) :
    finds (.one s :: (p ++ [.one s])) (front ++ s :: (x ++ s :: back)) = true ↔ Fits p x := by
  rw [finds_iff]
  constructor
  · rintro ⟨pre, l, post, heq, hl⟩
    obtain ⟨m, rfl, hm⟩ := fits_between.mp hl
    -- both sides hold the separator twice
    have hcount := congrArg (List.count s) heq
    simp only [List.count_append, List.count_cons_self, List.count_nil,
      List.count_eq_zero_of_not_mem hfront, List.count_eq_zero_of_not_mem hx,
      List.count_eq_zero_of_not_mem hback] at hcount
    have hpre : s ∉ pre := List.count_eq_zero.mp (by omega)
    have hm' : s ∉ m := List.count_eq_zero.mp (by omega)
    have hrw : pre ++ (s :: (m ++ [s])) ++ post = pre ++ s :: (m ++ s :: post) := by simp
    rw [hrw] at heq
    obtain ⟨rfl, hrest⟩ := append_cons_left hfront hpre heq
    obtain ⟨rfl, _⟩ := append_cons_left hx hm' hrest
    exact hm
  · intro h
    exact ⟨front, s :: (x ++ [s]), back, by simp, fits_between.mpr ⟨x, rfl, h⟩⟩

/-- A pattern that starts with a mark and ends with a separator finds a text with two separators if it
fits what stands behind such a mark in the text between them. -/
theorem finds_behind {s t : α} {p : List (PatPlace α)} {front x back : List α} (hts : t ≠ s)
    (hfront : s ∉ front) (hmark : t ∉ front) (hx : s ∉ x) (hback : s ∉ back) :
    finds (.one t :: (p ++ [.one s])) (front ++ s :: (x ++ s :: back)) = true ↔
      ∃ y z, x = y ++ t :: z ∧ Fits p z := by
  rw [finds_iff]
  constructor
  · rintro ⟨pre, l, post, heq, hl⟩
    obtain ⟨m, rfl, hm⟩ := fits_between.mp hl
    have hrw : pre ++ (t :: (m ++ [s])) ++ post = (pre ++ t :: m) ++ s :: post := by simp
    rw [hrw] at heq
    -- the separator of the match is the second one: the first has no mark in front
    have hcount := congrArg (List.count s) heq
    simp only [List.count_append, List.count_cons_self, List.count_eq_zero_of_not_mem hfront,
      List.count_eq_zero_of_not_mem hx, List.count_eq_zero_of_not_mem hback] at hcount
    have hmem : s ∈ pre ++ t :: m := by
      by_contra hno
      obtain ⟨rfl, _⟩ := append_cons_left hfront hno heq
      exact hmark (List.mem_append_right _ List.mem_cons_self)
    obtain ⟨u, v, huv, hu⟩ := List.eq_append_cons_of_mem hmem
    have hcuv : List.count s (pre ++ t :: m) = List.count s u + (List.count s v + 1) := by
      rw [huv, List.count_append, List.count_cons_self]
    have hone : List.count s (pre ++ t :: m) + List.count s post = 1 := by
      simp only [List.count_append]
      omega
    have hv : s ∉ v := List.count_eq_zero.mp (by omega)
    rw [huv, List.append_assoc, List.cons_append] at heq
    obtain ⟨rfl, hrest⟩ := append_cons_left hfront hu heq
    obtain ⟨rfl, _⟩ := append_cons_left hx hv hrest
    -- the mark is behind the first separator
    obtain ⟨c, rfl, hc⟩ | ⟨c, rfl, hc⟩ := List.append_eq_append_iff.mp huv
    · cases c with
      | nil => exact absurd (List.cons.inj hc).1 hts
      | cons d c =>
        obtain ⟨rfl, _⟩ := List.cons.inj hc
        exact absurd (List.mem_append_right _ List.mem_cons_self) hmark
    · cases c with
      | nil => exact absurd (List.cons.inj hc).1.symm hts
      | cons d c =>
        obtain ⟨_, rfl⟩ := List.cons.inj hc
        exact ⟨c, m, rfl, hm⟩
  · rintro ⟨y, z, rfl, hz⟩
    exact ⟨front ++ s :: y, t :: (z ++ [s]), back, by simp, fits_between.mpr ⟨z, rfl, hz⟩⟩

end Patterns

end OpenWrtCompile.Base
