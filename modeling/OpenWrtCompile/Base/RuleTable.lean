import Mathlib.Data.List.Basic
import Mathlib.Logic.Function.Basic
import Mathlib.Tactic.Common

/-!
# Tables of rules under an editing script

A table has hook chains, which are always there, and chains that are declared and filled. A script
edits it line by line: a line declares a chain, appends a rule, or inserts a rule at a place of a hook
chain. The places count from 1, and an insertion behind the end by more than one place is refused.
-/

namespace OpenWrtCompile.Base

universe u v w

section Insertion

variable {α : Type u}

/-- The element takes place `n` of the list. -/
def insertAt (n : Nat) (x : α) (l : List α) : Option (List α) :=
  if 1 ≤ n ∧ n ≤ l.length + 1 then some (l.insertIdx (n - 1) x) else none

/-- One insertion after the other. -/
def insertAll (ins : List (Nat × α)) (l : List α) : Option (List α) :=
  ins.foldlM (fun l p ↦ insertAt p.1 p.2 l) l

/-- An insertion in front. -/
@[simp] theorem insertAt_one (x : α) (l : List α) : insertAt 1 x l = some (x :: l) := by
  simp [insertAt]

/-- An insertion behind the first element. -/
@[simp] theorem insertAt_two (x a : α) (l : List α) : insertAt 2 x (a :: l) = some (a :: x :: l) := by
  simp [insertAt]

/-- An insertion behind the first two elements. -/
@[simp] theorem insertAt_three (x a b : α) (l : List α) :
    insertAt 3 x (a :: b :: l) = some (a :: b :: x :: l) := by
  simp [insertAt]

/-- No insertion. -/
@[simp] theorem insertAll_nil (l : List α) : insertAll [] l = some l := rfl

/-- The first insertion. -/
@[simp] theorem insertAll_cons (p : Nat × α) (ins : List (Nat × α)) (l : List α) :
    insertAll (p :: ins) l = (insertAt p.1 p.2 l).bind (insertAll ins) := rfl

/-- Insertions in front turn the order round. -/
theorem insertAll_ones (xs l : List α) :
    insertAll (xs.map fun x ↦ (1, x)) l = some (xs.reverse ++ l) := by
  induction xs generalizing l with
  | nil => rfl
  | cons x xs ih =>
    rw [List.map_cons, insertAll_cons, insertAt_one, Option.bind_some, ih, List.reverse_cons,
      List.append_assoc, List.singleton_append]

/-- Insertions behind the first two elements turn the order round behind these. -/
theorem insertAll_threes (xs : List α) (a b : α) (l : List α) :
    insertAll (xs.map fun x ↦ (3, x)) (a :: b :: l) = some (a :: b :: (xs.reverse ++ l)) := by
  induction xs generalizing l with
  | nil => rfl
  | cons x xs ih =>
    rw [List.map_cons, insertAll_cons, insertAt_three, Option.bind_some, ih, List.reverse_cons,
      List.append_assoc, List.singleton_append]

/-- Insertions in front, or behind the first two elements: one in front leaves in front what has the
property of all that go there. -/
theorem insertAll_front {P : α → Prop} (ins : List (Nat × α))
    (hplace : ∀ p ∈ ins, p.1 = 3 ∨ p.1 = 1 ∧ P p.2) (a b : α) (l : List α)
    (hfront : P a ∨ ∃ p ∈ ins, p.1 = 1) :
    ∃ a' l', insertAll ins (a :: b :: l) = some (a' :: l') ∧ P a' := by
  induction ins generalizing a b l with
  | nil =>
    obtain ha | ⟨p, hp, _⟩ := hfront
    · exact ⟨a, b :: l, rfl, ha⟩
    · exact absurd hp List.not_mem_nil
  | cons p ins ih =>
    obtain ⟨n, x⟩ := p
    have hrest : ∀ q ∈ ins, q.1 = 3 ∨ q.1 = 1 ∧ P q.2 := fun q hq ↦
      hplace q (List.mem_cons_of_mem _ hq)
    obtain hn | ⟨hn, hx⟩ := hplace _ List.mem_cons_self
    · simp only at hn
      subst hn
      rw [insertAll_cons, insertAt_three, Option.bind_some]
      refine ih hrest a b _ ?_
      obtain ha | ⟨q, hq, hone⟩ := hfront
      · exact Or.inl ha
      · obtain rfl | hq := List.mem_cons.mp hq
        · simp at hone
        · exact Or.inr ⟨q, hq, hone⟩
    · simp only at hn
      subst hn
      rw [insertAll_cons, insertAt_one, Option.bind_some]
      exact ih hrest x a _ (Or.inl hx)

end Insertion

/-- The rules of the hook chains `H`, and those of the chains `C` that are there. -/
@[ext]
structure RuleTable (H : Type u) (C : Type v) (R : Type w) where
  hooks : H → List R
  own : C → Option (List R)

/-- A line of a script. -/
inductive ScriptLine (H : Type u) (C : Type v) (R : Type w)
  | declare (c : C)
  | append (c : C) (r : R)
  | appendHook (h : H) (r : R)
  | insert (h : H) (n : Nat) (r : R)
  deriving DecidableEq, Repr

namespace RuleTable

variable {H : Type u} {C : Type v} {R : Type w} [DecidableEq H] [DecidableEq C]

/-- A table without rules and without chains of its own. -/
def empty : RuleTable H C R := ⟨fun _ ↦ [], fun _ ↦ none⟩

/-- The table with other rules in one hook chain. -/
def setHook (t : RuleTable H C R) (h : H) (rs : List R) : RuleTable H C R :=
  ⟨Function.update t.hooks h rs, t.own⟩

/-- The table with one chain that holds given rules. -/
def setOwn (t : RuleTable H C R) (c : C) (rs : List R) : RuleTable H C R :=
  ⟨t.hooks, Function.update t.own c (some rs)⟩

/-- One line. A declaration empties a chain that is there; a rule is not appended to a missing chain. -/
def exec (t : RuleTable H C R) : ScriptLine H C R → Option (RuleTable H C R)
  | .declare c => some (t.setOwn c [])
  | .append c r => (t.own c).map fun rs ↦ t.setOwn c (rs ++ [r])
  | .appendHook h r => some (t.setHook h (t.hooks h ++ [r]))
  | .insert h n r => (insertAt n r (t.hooks h)).map (t.setHook h)

/-- A script that stops at the first line that is refused. -/
def execAll (t : RuleTable H C R) (lines : List (ScriptLine H C R)) : Option (RuleTable H C R) :=
  lines.foldlM exec t

/-- A script that goes on behind a line that is refused. -/
def execEach (t : RuleTable H C R) (lines : List (ScriptLine H C R)) : RuleTable H C R :=
  lines.foldl (fun t line ↦ (t.exec line).getD t) t

/-- The lines that rebuild a table: declarations first, then the rules chain by chain. -/
def save (hs : List H) (cs : List C) (t : RuleTable H C R) : List (ScriptLine H C R) :=
  (cs.filter fun c ↦ (t.own c).isSome).map .declare ++
  hs.flatMap (fun h ↦ (t.hooks h).map (.appendHook h)) ++
  cs.flatMap (fun c ↦ ((t.own c).getD []).map (.append c))

variable (t : RuleTable H C R)

omit [DecidableEq C] in
@[simp] theorem setHook_own (h : H) (rs : List R) : (t.setHook h rs).own = t.own := rfl

omit [DecidableEq H] in
@[simp] theorem setOwn_hooks (c : C) (rs : List R) : (t.setOwn c rs).hooks = t.hooks := rfl

omit [DecidableEq C] in
@[simp] theorem setHook_hooks (h : H) (rs : List R) :
    (t.setHook h rs).hooks = Function.update t.hooks h rs := rfl

omit [DecidableEq H] in
@[simp] theorem setOwn_own (c : C) (rs : List R) :
    (t.setOwn c rs).own = Function.update t.own c (some rs) := rfl

omit [DecidableEq C] in
/-- A hook chain that is set to its rules. -/
@[simp] theorem setHook_self (h : H) : t.setHook h (t.hooks h) = t := by
  simp [setHook]

omit [DecidableEq C] in
/-- The last setting of a hook chain counts. -/
@[simp] theorem setHook_setHook (h : H) (rs rs' : List R) :
    (t.setHook h rs).setHook h rs' = t.setHook h rs' := by
  simp [setHook]

omit [DecidableEq H] in
/-- The last setting of a chain counts. -/
@[simp] theorem setOwn_setOwn (c : C) (rs rs' : List R) :
    (t.setOwn c rs).setOwn c rs' = t.setOwn c rs' := by
  simp [setOwn]

@[simp] theorem execAll_nil : t.execAll [] = some t := rfl

@[simp] theorem execAll_cons (line : ScriptLine H C R) (lines : List (ScriptLine H C R)) :
    t.execAll (line :: lines) = (t.exec line).bind fun t' ↦ t'.execAll lines := rfl

/-- One script behind another. -/
theorem execAll_append (l₁ l₂ : List (ScriptLine H C R)) :
    t.execAll (l₁ ++ l₂) = (t.execAll l₁).bind fun t' ↦ t'.execAll l₂ := by
  unfold execAll
  rw [List.foldlM_append]
  rfl

/-- A script without a refused line does the same either way. -/
theorem execEach_eq {t t' : RuleTable H C R} {lines : List (ScriptLine H C R)}
    (h : t.execAll lines = some t') : t.execEach lines = t' := by
  induction lines generalizing t with
  | nil => exact Option.some.inj h
  | cons line lines ih =>
    rw [execAll_cons] at h
    obtain ⟨t₁, hline, hrest⟩ := Option.bind_eq_some_iff.mp h
    unfold execEach
    rw [List.foldl_cons, hline]
    exact ih hrest

/-- Insertions into one hook chain. -/
theorem execAll_inserts (h : H) (ins : List (Nat × R)) :
    t.execAll (ins.map fun p ↦ .insert h p.1 p.2) = (insertAll ins (t.hooks h)).map (t.setHook h) := by
  induction ins generalizing t with
  | nil => simp
  | cons p ins ih =>
    rw [List.map_cons, execAll_cons, insertAll_cons, exec]
    cases insertAt p.1 p.2 (t.hooks h) with
    | none => rfl
    | some rs =>
      rw [Option.map_some, Option.bind_some, Option.bind_some, ih, setHook_hooks, Function.update_self]
      cases insertAll ins rs <;> simp

/-- Rules inserted in front of one hook chain. -/
theorem execAll_fronts (h : H) (rs : List R) :
    t.execAll (rs.map (.insert h 1)) = some (t.setHook h (rs.reverse ++ t.hooks h)) := by
  have hins := t.execAll_inserts h (rs.map fun r ↦ (1, r))
  rw [insertAll_ones, List.map_map] at hins
  exact hins

/-- Rules appended to one hook chain. -/
theorem execAll_appendHooks (h : H) (rs : List R) :
    t.execAll (rs.map (.appendHook h)) = some (t.setHook h (t.hooks h ++ rs)) := by
  induction rs generalizing t with
  | nil => simp
  | cons r rs ih =>
    rw [List.map_cons, execAll_cons, exec, Option.bind_some, ih]
    simp

/-- Rules appended to one chain. -/
theorem execAll_appends (c : C) (rs rs₀ : List R) (hc : t.own c = some rs₀) :
    t.execAll (rs.map (.append c)) = some (t.setOwn c (rs₀ ++ rs)) := by
  induction rs generalizing t rs₀ with
  | nil => simp [setOwn, ← hc]
  | cons r rs ih =>
    rw [List.map_cons, execAll_cons, exec, hc, Option.map_some, Option.bind_some,
      ih _ (rs₀ ++ [r]) (Function.update_self ..)]
    simp

/-- A chain that is declared and filled. -/
theorem execAll_chain (c : C) (rs : List R) :
    t.execAll (.declare c :: rs.map (.append c)) = some (t.setOwn c rs) := by
  rw [execAll_cons, exec, Option.bind_some, execAll_appends _ c rs [] (Function.update_self ..)]
  simp

/-- Declarations of the chains of another table. -/
theorem execAll_declares (cs : List C) (s : RuleTable H C R) :
    t.execAll ((cs.filter fun c ↦ (s.own c).isSome).map .declare) =
      some ⟨t.hooks, fun c ↦ if c ∈ cs ∧ (s.own c).isSome then some [] else t.own c⟩ := by
  induction cs generalizing t with
  | nil => simp
  | cons c cs ih =>
    by_cases hc : (s.own c).isSome
    · rw [List.filter_cons, if_pos hc, List.map_cons, execAll_cons, exec, Option.bind_some, ih]
      congr 2
      funext d
      by_cases hd : d = c
      · subst hd
        simp [hc]
      · simp [hd]
    · rw [List.filter_cons, if_neg hc, ih]
      congr 2
      funext d
      by_cases hd : d = c
      · subst hd
        simp [hc]
      · simp [hd]

/-- The rules of the chains of another table, where these are declared. -/
theorem execAll_fill {cs : List C} (hcs : cs.Nodup) (s : RuleTable H C R)
    (h : ∀ c ∈ cs, t.own c = (s.own c).map fun _ ↦ []) :
    t.execAll (cs.flatMap fun c ↦ ((s.own c).getD []).map (.append c)) =
      some ⟨t.hooks, fun c ↦ if c ∈ cs then s.own c else t.own c⟩ := by
  induction cs generalizing t with
  | nil => simp
  | cons c cs ih =>
    obtain ⟨hnew, hcs⟩ := List.nodup_cons.mp hcs
    have hc := h c List.mem_cons_self
    rw [List.flatMap_cons, execAll_append]
    cases hs : s.own c with
    | none =>
      rw [hs, Option.map_none] at hc
      rw [Option.getD_none, List.map_nil, execAll_nil, Option.bind_some,
        ih t hcs fun d hd ↦ h d (List.mem_cons_of_mem _ hd)]
      congr 2
      funext d
      by_cases hd : d = c
      · subst hd
        simp [hs, hc]
      · simp [hd]
    | some rs =>
      rw [hs, Option.map_some] at hc
      have hrest : ∀ d ∈ cs, (t.setOwn c rs).own d = (s.own d).map fun _ ↦ [] := by
        intro d hd
        have hne : d ≠ c := fun h ↦ hnew (h ▸ hd)
        rw [setOwn_own, Function.update_of_ne hne]
        exact h d (List.mem_cons_of_mem _ hd)
      rw [Option.getD_some, execAll_appends _ c rs [] hc, List.nil_append, Option.bind_some,
        ih _ hcs hrest]
      congr 2
      funext d
      by_cases hd : d = c
      · subst hd
        simp [hs]
      · simp [hd]

/-- Insertions into several hook chains. -/
theorem execAll_hooks {hs : List H} (hhs : hs.Nodup) (ins : H → List (Nat × R)) (f : H → List R)
    (h : ∀ k ∈ hs, insertAll (ins k) (t.hooks k) = some (f k)) :
    t.execAll (hs.flatMap fun k ↦ (ins k).map fun p ↦ .insert k p.1 p.2) =
      some ⟨fun k ↦ if k ∈ hs then f k else t.hooks k, t.own⟩ := by
  induction hs generalizing t with
  | nil => simp
  | cons k hs ih =>
    obtain ⟨hnew, hhs⟩ := List.nodup_cons.mp hhs
    have hrest : ∀ j ∈ hs, insertAll (ins j) ((t.setHook k (f k)).hooks j) = some (f j) := by
      intro j hj
      have hne : j ≠ k := fun h ↦ hnew (h ▸ hj)
      rw [setHook_hooks, Function.update_of_ne hne]
      exact h j (List.mem_cons_of_mem _ hj)
    rw [List.flatMap_cons, execAll_append, execAll_inserts, h k List.mem_cons_self, Option.map_some,
      Option.bind_some, ih _ hhs hrest]
    congr 2
    funext j
    by_cases hj : j = k
    · subst hj
      simp [hnew]
    · simp [hj]

end RuleTable

end OpenWrtCompile.Base
