import Mathlib.Data.Finset.Card
import Mathlib.Logic.Relation

/-!
# Following references

A partial function gives the next place of each place that has one. Following it from a place ends if it
comes back to no place; where only finitely many places are next to others, it ends only and always then,
and after no more steps than there are such places.
-/

namespace OpenWrtCompile.Base

universe u

variable {α : Type u}

/-- The place at which following ends, if it ends within `n` looks. -/
def follow (next : α → Option α) : Nat → α → Option α
  | 0, _ => none
  | n + 1, a =>
    match next a with
    | none => some a
    | some b => follow next n b

/-- A place and the next one. -/
def Next (next : α → Option α) (a b : α) : Prop := next a = some b

/-- A place is followed by another, in some number of steps. -/
def Leads (next : α → Option α) : α → α → Prop := Relation.ReflTransGen (Next next)

/-- Following the references from a place comes back to no place. -/
def NoReturn (next : α → Option α) (a : α) : Prop :=
  ∀ b, Leads next a b → ¬ Relation.TransGen (Next next) b b

section Follow

variable {next : α → Option α} {a b c : α}

/-- The last look. -/
theorem follow_last (h : next a = none) (n : Nat) : follow next (n + 1) a = some a := by
  rw [follow, h]

/-- A step. -/
theorem follow_step (h : next a = some b) (n : Nat) :
    follow next (n + 1) a = follow next n b := by
  rw [follow, h]

/-- What is found is at the end of the references. -/
theorem follow_spec {n : Nat} (h : follow next n a = some c) : Leads next a c ∧ next c = none := by
  induction n generalizing a with
  | zero => cases h
  | succ n ih =>
    cases hnext : next a with
    | none =>
      rw [follow_last hnext] at h
      obtain rfl := Option.some.inj h
      exact ⟨.refl, hnext⟩
    | some b =>
      rw [follow_step hnext] at h
      obtain ⟨hleads, hlast⟩ := ih h
      exact ⟨.head hnext hleads, hlast⟩

/-- There is one end at most. -/
theorem Leads.unique (hb : Leads next a b) (hbend : next b = none) (hc : Leads next a c)
    (hcend : next c = none) : b = c := by
  induction hb using Relation.ReflTransGen.head_induction_on with
  | refl =>
    obtain rfl | ⟨d, hd, -⟩ := Relation.ReflTransGen.cases_head hc
    · rfl
    · rw [Next, hbend] at hd
      cases hd
  | @head x y hxy _ ih =>
    obtain rfl | ⟨d, hd, hdc⟩ := Relation.ReflTransGen.cases_head hc
    · rw [Next, hcend] at hxy
      cases hxy
    · have heq : y = d := Option.some.inj (hxy.symm.trans hd)
      exact ih (heq ▸ hdc)

/-- What comes back goes on to the next place, and comes back to it. -/
theorem trans_next (h : next a = some b) (ha : Relation.TransGen (Next next) a a) :
    Leads next b a := by
  obtain ⟨d, hd, hda⟩ := Relation.TransGen.head'_iff.mp ha
  have heq : b = d := Option.some.inj (h.symm.trans hd)
  exact heq ▸ hda

/-- Where following ends it comes back to no place. -/
theorem noReturn_of_follow {n : Nat} (h : follow next n a = some c) : NoReturn next a := by
  induction n generalizing a with
  | zero => cases h
  | succ n ih =>
    intro b hab hbb
    cases hnext : next a with
    | none =>
      -- only the place itself is reached, and nothing is next to it
      obtain rfl | ⟨d, hd, -⟩ := Relation.ReflTransGen.cases_head hab
      · obtain ⟨d, hd, -⟩ := Relation.TransGen.head'_iff.mp hbb
        rw [Next, hnext] at hd
        cases hd
      · rw [Next, hnext] at hd
        cases hd
    | some a' =>
      rw [follow_step hnext] at h
      obtain rfl | ⟨d, hd, hdb⟩ := Relation.ReflTransGen.cases_head hab
      · exact ih h a (trans_next hnext hbb) hbb
      · have heq : a' = d := Option.some.inj (hnext.symm.trans hd)
        exact ih h b (heq ▸ hdb) hbb

/-- No return from the next place. -/
theorem NoReturn.step (h : NoReturn next a) (hab : next a = some b) : NoReturn next b :=
  fun c hbc ↦ h c (.head hab hbc)

/-- Following ends within one look more than there are places that can be reached. -/
theorem follow_of_noReturn [DecidableEq α] (S : Finset α)
    (hS : ∀ b, Relation.TransGen (Next next) a b → b ∈ S) (h : NoReturn next a) :
    ∃ c, follow next (S.card + 1) a = some c := by
  induction hn : S.card generalizing a S with
  | zero =>
    cases hnext : next a with
    | none => exact ⟨a, follow_last hnext 0⟩
    | some b =>
      have hmem := hS b (.single hnext)
      rw [Finset.card_eq_zero.mp hn] at hmem
      exact absurd hmem (Finset.notMem_empty b)
  | succ n ih =>
    cases hnext : next a with
    | none => exact ⟨a, follow_last hnext _⟩
    | some b =>
      have hb : b ∈ S := hS b (.single hnext)
      -- the next place is not reached again
      have hrest : ∀ c, Relation.TransGen (Next next) b c → c ∈ S.erase b := by
        intro c hbc
        refine Finset.mem_erase.mpr ⟨?_, hS c (.head hnext hbc)⟩
        rintro rfl
        exact h c (.single hnext) hbc
      obtain ⟨c, hc⟩ := ih (S.erase b) hrest (h.step hnext)
        (by rw [Finset.card_erase_of_mem hb, hn, Nat.add_sub_cancel])
      exact ⟨c, by rw [follow_step hnext, hc]⟩

end Follow

end OpenWrtCompile.Base
