import Mathlib.Data.List.Perm.Basic
import Mathlib.Data.List.Nodup
import Mathlib.Tactic.Common

/-!
# Merge sort with a comparison that may fail

The sort of a program whose comparison is neither total nor an order: all that is left of sorting is
that the values are permuted. The place of the cut is a parameter, and so is the depth of the
recursion, since not every cut makes the pieces smaller. Then tables that are filled entry by entry.
-/

namespace OpenWrtCompile.Base

section Sorting
variable {α : Type} (first : α → α → Option Bool)

/-- Merge two runs: `first x y` says that `x` goes before `y`, or fails. -/
def mergeRuns : List α → List α → Option (List α)
  | x :: l, y :: r =>
    (first x y).bind fun isLeft ↦
      if isLeft then (mergeRuns l (y :: r)).map (x :: ·) else (mergeRuns (x :: l) r).map (y :: ·)
  | x :: l, [] => some (x :: l)
  | [], r => some r
termination_by l r => l.length + r.length

/-- Sort by merging: of `n` values the first `n - cut n` and the others are sorted alone. `none` is a
failed comparison, or a recursion deeper than `depth`. -/
def sortRuns (cut : Nat → Nat) (depth : Nat) (a : List α) : Option (List α) :=
  if a.length ≤ 1 then some a
  else
    match depth with
    | 0 => none
    | depth + 1 => do
      let left ← sortRuns cut depth (a.take (a.length - cut a.length))
      let right ← sortRuns cut depth (a.drop (a.length - cut a.length))
      mergeRuns first left right

variable {first}

/-- Runs are merged when no comparison fails, and the result has the values of both. -/
theorem mergeRuns_perm (h : ∀ x y, (first x y).isSome) (l r : List α) :
    ∃ out, mergeRuns first l r = some out ∧ out.Perm (l ++ r) := by
  induction l, r using mergeRuns.induct with
  | case1 x l y r ihLeft ihRight =>
    obtain ⟨b, hb⟩ := Option.isSome_iff_exists.mp (h x y)
    cases b with
    | true =>
      obtain ⟨out, hout, hperm⟩ := ihLeft
      exact ⟨x :: out, by simp [mergeRuns, hb, hout], hperm.cons x⟩
    | false =>
      obtain ⟨out, hout, hperm⟩ := ihRight
      exact ⟨y :: out, by simp [mergeRuns, hb, hout],
        (hperm.cons y).trans List.perm_middle.symm⟩
  | case2 x l => exact ⟨x :: l, by rw [mergeRuns], by rw [List.append_nil]⟩
  | case3 r => exact ⟨r, by rw [mergeRuns], List.Perm.refl r⟩

/-- When no comparison fails and every cut leaves two smaller parts, the sort ends and permutes. -/
theorem sortRuns_perm (h : ∀ x y, (first x y).isSome) {cut : Nat → Nat} {depth : Nat} {a : List α}
    (hcut : ∀ n, 2 ≤ n → n ≤ a.length → 0 < cut n ∧ cut n < n) (hdepth : a.length ≤ depth + 1) :
    ∃ out, sortRuns first cut depth a = some out ∧ out.Perm a := by
  induction depth generalizing a with
  | zero =>
    refine ⟨a, ?_, List.Perm.refl a⟩
    rw [sortRuns, if_pos (by omega)]
  | succ depth ih =>
    by_cases hone : a.length ≤ 1
    · exact ⟨a, by rw [sortRuns, if_pos hone], List.Perm.refl a⟩
    · have hbound := hcut a.length (by omega) (Nat.le_refl _)
      have hleft : (a.take (a.length - cut a.length)).length = a.length - cut a.length := by
        rw [List.length_take]
        omega
      have hright : (a.drop (a.length - cut a.length)).length = cut a.length := by
        rw [List.length_drop]
        omega
      have hpart {b : List α} (hb : b.length < a.length) :
          ∃ out, sortRuns first cut depth b = some out ∧ out.Perm b := by
        apply ih
        · intro n h2 hn
          exact hcut n h2 (by omega)
        · omega
      obtain ⟨left, hl, hlperm⟩ := hpart (b := a.take (a.length - cut a.length)) (by omega)
      obtain ⟨right, hr, hrperm⟩ := hpart (b := a.drop (a.length - cut a.length)) (by omega)
      obtain ⟨out, hout, hperm⟩ := mergeRuns_perm h left right
      refine ⟨out, ?_, ?_⟩
      · rw [sortRuns, if_neg hone]
        simp only [hl, hr, hout, Option.bind_eq_bind, Option.bind_some]
      · have hparts := hperm.trans (hlperm.append hrperm)
        rwa [List.take_append_drop] at hparts

end Sorting

section Tables
variable {ι β : Type} (slot : ι → Nat) (val : ι → β)

/-- Write `val i` to entry `slot i`, for one `i` after the other. -/
def fill (t : List β) (is : List ι) : List β := is.foldl (fun t i ↦ t.set (slot i) (val i)) t

variable {slot}

/-- Filling keeps the size of the table. -/
@[simp] theorem length_fill (t : List β) (is : List ι) : (fill slot val t is).length = t.length := by
  induction is generalizing t with
  | nil => rfl
  | cons i is ih =>
    show (fill slot val (t.set (slot i) (val i)) is).length = _
    rw [ih, List.length_set]

/-- An entry that no write goes to is kept. -/
theorem getElem?_fill_of_not_mem {t : List β} {is : List ι} {n : Nat} (h : n ∉ is.map slot) :
    (fill slot val t is)[n]? = t[n]? := by
  induction is generalizing t with
  | nil => rfl
  | cons i is ih =>
    rw [List.map_cons, List.mem_cons, not_or] at h
    show (fill slot val (t.set (slot i) (val i)) is)[n]? = _
    rw [ih h.2, List.getElem?_set_ne (Ne.symm h.1)]

/-- When every write goes to an entry of its own, each is read back. -/
theorem getElem?_fill {t : List β} {is : List ι} (hnodup : (is.map slot).Nodup) {i : ι} (hi : i ∈ is)
    (hlt : slot i < t.length) : (fill slot val t is)[slot i]? = some (val i) := by
  induction is generalizing t with
  | nil => exact absurd hi List.not_mem_nil
  | cons j is ih =>
    rw [List.map_cons, List.nodup_cons] at hnodup
    show (fill slot val (t.set (slot j) (val j)) is)[slot i]? = _
    cases List.mem_cons.mp hi with
    | inl h =>
      rw [h, getElem?_fill_of_not_mem val hnodup.1, List.getElem?_set_self (h ▸ hlt)]
    | inr h => exact ih hnodup.2 h (by rwa [List.length_set])

end Tables
end OpenWrtCompile.Base
