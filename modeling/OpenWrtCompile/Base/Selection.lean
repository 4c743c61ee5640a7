import Mathlib.Data.List.Perm.Basic
import Mathlib.Tactic.Common

/-!
# Selecting a least element

One pass over a list that keeps the element before which none has been seen, and the exchange of two
elements: the two parts of a selection sort.
-/

namespace OpenWrtCompile.Base

section Selection
variable {α : Type} (before : α → α → Bool)

/-- The element kept after a pass over `l` that starts with `m`; `before m x` says that `x` goes in
front of `m`. -/
def select (m : α) (l : List α) : α := l.foldl (fun m x ↦ if before m x then x else m) m

/-- What is selected is one of the elements. -/
theorem select_mem (m : α) (l : List α) : select before m l ∈ m :: l := by
  induction l generalizing m with
  | nil => exact List.mem_singleton_self m
  | cons x l ih =>
    show select before (if before m x then x else m) l ∈ _
    obtain h | h := List.mem_cons.mp (ih (if before m x then x else m))
    · rw [h]
      split
      · exact List.mem_cons_of_mem m List.mem_cons_self
      · exact List.mem_cons_self
    · exact List.mem_cons_of_mem m (List.mem_cons_of_mem x h)

variable {before}

/-- In a strict order nothing goes in front of what is selected. -/
theorem select_least (hirrefl : ∀ a, before a a = false)
    (htrans : ∀ a b c, before a b = true → before b c = true → before a c = true) (m : α)
    (l : List α) : ∀ x ∈ m :: l, before (select before m l) x = false := by
  -- everything seen so far stays behind the element that is kept
  have hkept : ∀ (l seen : List α) (m : α), (∀ x ∈ seen, before m x = false) →
      ∀ x ∈ seen ++ l, before (select before m l) x = false := by
    intro l
    induction l with
    | nil =>
      intro seen m hseen x hx
      rw [List.append_nil] at hx
      exact hseen x hx
    | cons y l ih =>
      intro seen m hseen x hx
      rw [← List.singleton_append, ← List.append_assoc] at hx
      apply ih (seen ++ [y]) (if before m y then y else m) _ x hx
      intro z hz
      by_cases hy : before m y = true
      · rw [if_pos hy]
        obtain hz | hz := List.mem_append.mp hz
        · by_contra hlt
          rw [Bool.not_eq_false] at hlt
          have hm := htrans m y z hy hlt
          rw [hseen z hz] at hm
          contradiction
        · rw [List.mem_singleton.mp hz]
          exact hirrefl y
      · rw [if_neg hy]
        obtain hz | hz := List.mem_append.mp hz
        · exact hseen z hz
        · rw [List.mem_singleton.mp hz]
          exact Bool.not_eq_true _ ▸ hy
  intro x hx
  apply hkept l [m] m _ x hx
  intro y hy
  rw [List.mem_singleton.mp hy]
  exact hirrefl m

end Selection

/-- Two elements change places. -/
theorem exchange_perm {α : Type} (a b : α) (l r : List α) :
    (a :: (l ++ b :: r)).Perm (b :: (l ++ a :: r)) := by
  have hout : (a :: (l ++ b :: r)).Perm (a :: b :: (l ++ r)) := List.perm_middle.cons a
  have hin : (b :: a :: (l ++ r)).Perm (b :: (l ++ a :: r)) := List.perm_middle.symm.cons b
  exact (hout.trans (List.Perm.swap b a (l ++ r))).trans hin

end OpenWrtCompile.Base
