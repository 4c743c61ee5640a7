import Mathlib.Data.List.Basic
import Mathlib.Tactic.Common

/-!
# Blocks that are filled

What `malloc` returns is a block of cells that hold nothing yet. A write outside a block is undefined.
A block that is filled from its start holds a list, then nothing.
-/

namespace OpenWrtCompile.Base

universe u

/-- The cells of a block; a cell is `none` until it is written. -/
abbrev Block (α : Type u) := List (Option α)

namespace Block

variable {α : Type u}

/-- A new block of `n` cells. -/
def fresh (α : Type u) (n : Nat) : Block α := List.replicate n none

/-- One write. -/
def write (b : Block α) (i : Nat) (a : α) : Option (Block α) :=
  if i < b.length then some (b.set i (some a)) else none

/-- A block of `n` cells that holds a list at its start. -/
def filled (l : List α) (n : Nat) : Block α := l.map some ++ fresh α (n - l.length)

/-- A block that holds a list has its size, where the list fits. -/
theorem length_filled {l : List α} {n : Nat} (h : l.length ≤ n) : (filled l n).length = n := by
  rw [filled, fresh, List.length_append, List.length_map, List.length_replicate]
  omega

/-- The next cell is written. -/
theorem write_filled {l : List α} {n : Nat} (h : l.length < n) (a : α) :
    (filled l n).write l.length a = some (filled (l ++ [a]) n) := by
  rw [write, if_pos (by rw [length_filled (Nat.le_of_lt h)]; exact h)]
  have hsplit : fresh α (n - l.length) = none :: fresh α (n - (l ++ [a]).length) := by
    rw [fresh, fresh, List.length_append, List.length_singleton, ← List.replicate_succ]
    congr 1
    omega
  rw [filled, filled, hsplit, List.set_append_right _ _ (Nat.le_of_eq (List.length_map _)), List.length_map,
    Nat.sub_self, List.set_cons_zero, List.map_append, List.append_assoc]
  rfl

/-- The last cell that is written. -/
theorem getElem?_last (l : List α) (a : α) (n : Nat) :
    (filled (l ++ [a]) n)[l.length]? = some (some a) := by
  have hlt : l.length < ((l ++ [a]).map some).length := by
    rw [List.length_map, List.length_append, List.length_singleton]
    exact Nat.lt_succ_self _
  rw [filled, List.getElem?_append_left hlt, List.getElem?_map, List.getElem?_concat_length]
  rfl

/-- The last cell is written again. -/
theorem write_last {l : List α} {a : α} {n : Nat} (h : (l ++ [a]).length ≤ n) (a' : α) :
    (filled (l ++ [a]) n).write l.length a' = some (filled (l ++ [a']) n) := by
  have hlen : l.length < n := by
    rw [List.length_append, List.length_singleton] at h
    omega
  rw [write, if_pos (by rw [length_filled h]; exact hlen)]
  simp only [filled, List.map_append, List.map_cons, List.map_nil, List.append_assoc,
    List.length_append, List.length_singleton]
  rw [List.set_append_right _ _ (Nat.le_of_eq (List.length_map _)), List.length_map, Nat.sub_self,
    List.cons_append, List.nil_append, List.set_cons_zero, List.cons_append, List.nil_append]

end Block

end OpenWrtCompile.Base
