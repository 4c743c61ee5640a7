import Mathlib.Data.List.Basic
import Mathlib.Data.List.Infix
import Mathlib.Data.Finset.Basic
import Mathlib.Data.Set.Finite.Lattice
import Mathlib.Order.Interval.Finset.Nat
import Mathlib.Tactic.Common

/-!
# The first free number

`firstFree` is the least number from a start on that a list leaves free. `skip` walks the list once
and steps over each number it meets. The two agree exactly when the numbers to step over stand in
the list in ascending order, and otherwise `skip` ends on a number of the list.
-/

namespace OpenWrtCompile.Base

/-- Some number from `c` on is free. -/
theorem exists_free (taken : List Nat) (c : Nat) : ∃ k, c + k ∉ taken := by
  obtain ⟨n, hn⟩ := Finset.exists_nat_subset_range taken.toFinset
  refine ⟨n, fun h ↦ ?_⟩
  have hlt := Finset.mem_range.mp (hn (List.mem_toFinset.mpr h))
  omega

/-- Numbers to step over from `c` on until a free one. -/
def occupied (taken : List Nat) (c : Nat) : Nat := Nat.find (exists_free taken c)

/-- The first free number from `c` on. -/
def firstFree (taken : List Nat) (c : Nat) : Nat := c + occupied taken c

/-- The first free number is free. -/
theorem firstFree_not_mem (taken : List Nat) (c : Nat) : firstFree taken c ∉ taken :=
  Nat.find_spec (exists_free taken c)

/-- A free number with the numbers before it in the list is the first. -/
theorem occupied_eq {taken : List Nat} {c k : Nat} (hfree : c + k ∉ taken)
    (hbelow : (List.range' c k).Sublist taken) : occupied taken c = k := by
  apply (Nat.find_eq_iff _).mpr
  refine ⟨hfree, fun i hi h ↦ h (hbelow.subset ?_)⟩
  rw [List.mem_range'_1]
  omega

/-- Walk the list once, stepping over each number met. -/
def skip (taken : List Nat) (c : Nat) : Nat :=
  taken.foldl (fun p t ↦ if p = t then p + 1 else p) c

/-- No number to compare with. -/
@[simp] theorem skip_nil (c : Nat) : skip [] c = c := rfl

/-- The number met is stepped over. -/
theorem skip_cons_self (c : Nat) (taken : List Nat) : skip (c :: taken) c = skip taken (c + 1) := by
  simp [skip]

/-- Another number is passed. -/
theorem skip_cons_of_ne {c t : Nat} (h : c ≠ t) (taken : List Nat) :
    skip (t :: taken) c = skip taken c := by
  simp [skip, h]

/-- The numbers stepped over stand in the list in ascending order. -/
theorem exists_skip (taken : List Nat) (c : Nat) :
    ∃ k, skip taken c = c + k ∧ (List.range' c k).Sublist taken := by
  induction taken generalizing c with
  | nil => exact ⟨0, rfl, List.Sublist.refl []⟩
  | cons t taken ih =>
    by_cases h : c = t
    · subst h
      obtain ⟨k, hk, hsub⟩ := ih (c + 1)
      refine ⟨k + 1, ?_, ?_⟩
      · rw [skip_cons_self, hk]
        omega
      · rw [List.range'_succ]
        exact hsub.cons_cons c
    · obtain ⟨k, hk, hsub⟩ := ih c
      exact ⟨k, by rw [skip_cons_of_ne h, hk], hsub.cons t⟩

/-- Numbers that stand in the list in ascending order are stepped over. -/
theorem le_skip {taken : List Nat} {c k : Nat} (h : (List.range' c k).Sublist taken) :
    c + k ≤ skip taken c := by
  induction taken generalizing c k with
  | nil =>
    have hk : k = 0 := List.range'_eq_nil_iff.mp (List.sublist_nil.mp h)
    rw [skip_nil, hk]
    exact Nat.le_refl c
  | cons t taken ih =>
    by_cases hc : c = t
    · subst hc
      rw [skip_cons_self]
      cases k with
      | zero =>
        have hle := ih (c := c + 1) (k := 0) (List.nil_sublist taken)
        omega
      | succ k =>
        rw [List.range'_succ] at h
        have hle := ih (List.cons_sublist_cons.mp h)
        omega
    · rw [skip_cons_of_ne hc]
      cases k with
      | zero => exact ih (List.nil_sublist taken)
      | succ k =>
        rw [List.range'_succ] at h
        apply ih
        rw [List.range'_succ]
        cases h with
        | cons _ h => exact h
        | cons_cons _ h => exact absurd rfl hc

/-- Where stepping over ends on a free number, it is the first. -/
theorem skip_eq_firstFree {taken : List Nat} {c : Nat} (h : skip taken c ∉ taken) :
    skip taken c = firstFree taken c := by
  obtain ⟨k, hk, hsub⟩ := exists_skip taken c
  rw [hk] at h
  rw [hk, firstFree, occupied_eq h hsub]

/-- Stepping over ends on a free number exactly when the occupied numbers from the start on stand in
the list in ascending order. -/
theorem skip_not_mem_iff (taken : List Nat) (c : Nat) :
    skip taken c ∉ taken ↔ (List.range' c (occupied taken c)).Sublist taken := by
  obtain ⟨k, hk, hsub⟩ := exists_skip taken c
  constructor
  · intro hfree
    rw [hk] at hfree
    rw [occupied_eq hfree hsub]
    exact hsub
  · intro hasc
    have hle := le_skip hasc
    have hocc : k ≤ occupied taken c := by
      by_contra hlt
      apply firstFree_not_mem taken c
      apply hsub.subset
      rw [firstFree, List.mem_range'_1]
      omega
    have hfirst : skip taken c = firstFree taken c := by
      rw [hk] at hle ⊢
      unfold firstFree
      omega
    rw [hfirst]
    exact firstFree_not_mem taken c

end OpenWrtCompile.Base
