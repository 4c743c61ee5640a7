import Mathlib.Data.List.Basic
import Mathlib.Tactic.Common

/-!
# Chains of filter rules

A rule tests a packet with a conjunction of matches and then decides the packet, leaves its chain,
or sends the packet through another chain. A user chain stands in the place of its name, since no
chain leads back to itself. A packet that no rule decides goes on behind the chain.
-/

namespace OpenWrtCompile.Base

universe u v

/-- A rule: its matches, and what it does with a packet that meets them all. -/
inductive Rule (μ : Type u) (υ : Type v)
  | stop (guard : List μ) (verdict : υ)
  | ret (guard : List μ)
  | jump (guard : List μ) (chain : List (Rule μ υ))

/-- What one rule does: nothing, leave the chain, or decide. -/
inductive Outcome (υ : Type v)
  | pass
  | ret
  | stop (verdict : υ)

section Traverse

variable {μ : Type u} {υ : Type v}

mutual

/-- One rule meets a packet, of which `sat` tells the matches it meets. -/
def Rule.fire (sat : μ → Bool) : Rule μ υ → Outcome υ
  | .stop guard v => if guard.all sat then .stop v else .pass
  | .ret guard => if guard.all sat then .ret else .pass
  | .jump guard chain =>
    if guard.all sat then
      match traverseChain sat chain with
      | some v => .stop v
      | none => .pass
    else .pass

/-- The verdict of a chain, the rules taken in order; `none` where it ends or is left undecided. -/
def traverseChain (sat : μ → Bool) : List (Rule μ υ) → Option υ
  | [] => none
  | r :: rs =>
    match r.fire sat with
    | .pass => traverseChain sat rs
    | .ret => none
    | .stop v => some v

end

variable {sat : μ → Bool}

/-- An empty chain decides nothing. -/
@[simp] theorem traverse_nil : traverseChain sat ([] : List (Rule μ υ)) = none := rfl

/-- A deciding rule in front. -/
@[simp] theorem traverse_stop (guard : List μ) (v : υ) (rs : List (Rule μ υ)) :
    traverseChain sat (.stop guard v :: rs) =
      if guard.all sat then some v else traverseChain sat rs := by
  rw [traverseChain, Rule.fire]
  by_cases h : guard.all sat
  · simp only [h, if_true]
  · simp only [h, Bool.false_eq_true, if_false]

/-- A leaving rule in front. -/
@[simp] theorem traverse_ret (guard : List μ) (rs : List (Rule μ υ)) :
    traverseChain sat (.ret guard :: rs) = if guard.all sat then none else traverseChain sat rs := by
  rw [traverseChain, Rule.fire]
  by_cases h : guard.all sat
  · simp only [h, if_true]
  · simp only [h, Bool.false_eq_true, if_false]

/-- A rule in front that sends the packet through another chain first. -/
@[simp] theorem traverse_jump (guard : List μ) (chain rs : List (Rule μ υ)) :
    traverseChain sat (.jump guard chain :: rs) =
      if guard.all sat then (traverseChain sat chain).or (traverseChain sat rs)
      else traverseChain sat rs := by
  rw [traverseChain, Rule.fire]
  by_cases h : guard.all sat
  · simp only [h, if_true]
    cases traverseChain sat chain <;> rfl
  · simp only [h, Bool.false_eq_true, if_false]

/-- Leaving rules in front: the packet gets past them where it meets none. -/
theorem traverse_rets (guards : List (List μ)) (rs : List (Rule μ υ)) :
    traverseChain sat (guards.map .ret ++ rs) =
      if guards.any fun g ↦ g.all sat then none else traverseChain sat rs := by
  induction guards with
  | nil => rfl
  | cons g gs ih =>
    rw [List.map_cons, List.cons_append, traverse_ret, ih, List.any_cons]
    by_cases h : g.all sat
    · simp [h]
    · simp [h]

/-- Rules that send the packet through one chain: it goes through where it meets one of them, and a
second passage decides nothing new. -/
theorem traverse_jumps (guards : List (List μ)) (chain : List (Rule μ υ)) :
    traverseChain sat (guards.map fun g ↦ .jump g chain) =
      if guards.any fun g ↦ g.all sat then traverseChain sat chain else none := by
  induction guards with
  | nil => rfl
  | cons g gs ih =>
    rw [List.map_cons, traverse_jump, ih, List.any_cons]
    by_cases h : g.all sat
    · cases hc : traverseChain sat chain <;> simp [h]
    · simp [h]

/-- Leaving rules may change places. -/
theorem traverse_rets_comm (gs hs : List (List μ)) (rs : List (Rule μ υ)) :
    traverseChain sat (gs.map .ret ++ (hs.map .ret ++ rs)) =
      traverseChain sat (hs.map .ret ++ (gs.map .ret ++ rs)) := by
  simp only [traverse_rets]
  split_ifs <;> rfl

end Traverse

end OpenWrtCompile.Base
