import Mathlib.Tactic.Common

/-!
# Computations that return

A computation in `Except` returns when it raises nothing. `Returns` is pushed through the monad's
operations and through loops whose step raises independently of the accumulated value.
-/

namespace OpenWrtCompile.Base

universe u v

variable {ε : Type u} {α β : Type v}

/-- The computation raises nothing. -/
def Returns (x : Except ε α) : Prop := ∃ a, x = .ok a

/-- A value is returned. -/
@[simp] theorem returns_ok (a : α) : Returns (Except.ok a : Except ε α) := ⟨a, rfl⟩

/-- A value is returned. -/
@[simp] theorem returns_pure (a : α) : Returns (pure a : Except ε α) := ⟨a, rfl⟩

/-- An error is not returned. -/
@[simp] theorem not_returns_error (e : ε) : ¬ Returns (Except.error e : Except ε α) := by
  rintro ⟨a, ha⟩
  cases ha

/-- A sequence returns a value through a value of its first part. -/
theorem bind_eq_ok {x : Except ε α} {f : α → Except ε β} {b : β} :
    x >>= f = .ok b ↔ ∃ a, x = .ok a ∧ f a = .ok b := by
  cases x with
  | ok a =>
    constructor
    · intro h
      exact ⟨a, rfl, h⟩
    · rintro ⟨a', ha, h⟩
      cases ha
      exact h
  | error e =>
    constructor
    · intro h
      cases h
    · rintro ⟨a, ha, -⟩
      cases ha

/-- A sequence returns when its first part does, and then its second. -/
theorem returns_bind {x : Except ε α} {f : α → Except ε β} :
    Returns (x >>= f) ↔ ∃ a, x = .ok a ∧ Returns (f a) := by
  constructor
  · rintro ⟨b, hb⟩
    rcases bind_eq_ok.mp hb with ⟨a, ha, hf⟩
    exact ⟨a, ha, b, hf⟩
  · rintro ⟨a, ha, b, hf⟩
    exact ⟨b, bind_eq_ok.mpr ⟨a, ha, hf⟩⟩

/-- A function of a result changes nothing. -/
@[simp] theorem returns_map {x : Except ε α} {f : α → β} : Returns (f <$> x) ↔ Returns x := by
  cases x with
  | ok a => exact iff_of_true ⟨f a, rfl⟩ ⟨a, rfl⟩
  | error e => exact iff_of_false (not_returns_error e) (not_returns_error e)

/-- A mapped result. -/
theorem map_eq_ok {x : Except ε α} {f : α → β} {b : β} :
    f <$> x = .ok b ↔ ∃ a, x = .ok a ∧ f a = b := by
  cases x with
  | ok a =>
    constructor
    · intro h
      exact ⟨a, rfl, Except.ok.inj h⟩
    · rintro ⟨a', ha, h⟩
      cases ha
      exact congrArg Except.ok h
  | error e =>
    constructor
    · intro h
      cases h
    · rintro ⟨a, ha, -⟩
      cases ha

/-- A loop returns if and only if every element passes, where passing does not depend on the
accumulated value. -/
theorem returns_foldlM {f : β → α → Except ε β} {P : α → Prop} (l : List α)
    (h : ∀ b, ∀ a ∈ l, (Returns (f b a) ↔ P a)) (b : β) :
    Returns (l.foldlM f b) ↔ ∀ a ∈ l, P a := by
  induction l generalizing b with
  | nil => exact iff_of_true (returns_pure b) (by simp)
  | cons a l ih =>
    have hl (c : β) := ih (fun b a ha ↦ h b a (List.mem_cons_of_mem _ ha)) c
    rw [List.foldlM_cons, returns_bind, List.forall_mem_cons, ← h b a List.mem_cons_self]
    constructor
    · rintro ⟨c, hc, hrest⟩
      exact ⟨⟨c, hc⟩, (hl c).mp hrest⟩
    · rintro ⟨⟨c, hc⟩, hrest⟩
      exact ⟨c, hc, (hl c).mpr hrest⟩

/-- All steps of a map return, or it does not. -/
theorem returns_mapM {f : α → Except ε β} (l : List α) :
    Returns (l.mapM f) ↔ ∀ a ∈ l, Returns (f a) := by
  induction l with
  | nil => exact iff_of_true (returns_pure []) (by simp)
  | cons a l ih =>
    rw [List.mapM_cons, returns_bind, List.forall_mem_cons, ← ih]
    constructor
    · rintro ⟨b, hb, hl⟩
      rcases returns_bind.mp hl with ⟨bs, hbs, -⟩
      exact ⟨⟨b, hb⟩, ⟨bs, hbs⟩⟩
    · rintro ⟨⟨b, hb⟩, ⟨bs, hbs⟩⟩
      exact ⟨b, hb, returns_bind.mpr ⟨bs, hbs, returns_pure _⟩⟩

/-- A map over two parts. -/
theorem mapM_append_eq_ok {f : α → Except ε β} {l₁ l₂ : List α} {r : List β} :
    (l₁ ++ l₂).mapM f = .ok r ↔
      ∃ r₁ r₂, l₁.mapM f = .ok r₁ ∧ l₂.mapM f = .ok r₂ ∧ r = r₁ ++ r₂ := by
  rw [List.mapM_append, bind_eq_ok]
  constructor
  · rintro ⟨r₁, h₁, h⟩
    rcases bind_eq_ok.mp h with ⟨r₂, h₂, h⟩
    exact ⟨r₁, r₂, h₁, h₂, (Except.ok.inj h).symm⟩
  · rintro ⟨r₁, r₂, h₁, h₂, rfl⟩
    exact ⟨r₁, h₁, bind_eq_ok.mpr ⟨r₂, h₂, rfl⟩⟩

/-- A map over a first element and the rest. -/
theorem mapM_cons_eq_ok {f : α → Except ε β} {a : α} {l : List α} {r : List β} :
    (a :: l).mapM f = .ok r ↔ ∃ b bs, f a = .ok b ∧ l.mapM f = .ok bs ∧ r = b :: bs := by
  rw [List.mapM_cons, bind_eq_ok]
  constructor
  · rintro ⟨b, hb, h⟩
    rcases bind_eq_ok.mp h with ⟨bs, hbs, h⟩
    exact ⟨b, bs, hb, hbs, (Except.ok.inj h).symm⟩
  · rintro ⟨b, bs, hb, hbs, rfl⟩
    exact ⟨b, hb, bind_eq_ok.mpr ⟨bs, hbs, rfl⟩⟩

/-- Every element of a mapped list comes from one. -/
theorem mem_of_mapM {f : α → Except ε β} {l : List α} {r : List β}
    (h : l.mapM f = .ok r) : ∀ b ∈ r, ∃ a ∈ l, f a = .ok b := by
  induction l generalizing r with
  | nil =>
    cases h
    intro b hb
    cases hb
  | cons a l ih =>
    rcases mapM_cons_eq_ok.mp h with ⟨b, bs, hb, hbs, rfl⟩
    intro c hc
    rcases List.mem_cons.mp hc with rfl | hc
    · exact ⟨a, List.mem_cons_self, hb⟩
    · rcases ih hbs c hc with ⟨a', ha', hf⟩
      exact ⟨a', List.mem_cons_of_mem _ ha', hf⟩

/-- Every element of a list is mapped to one. -/
theorem exists_of_mapM {f : α → Except ε β} {l : List α} {r : List β} (h : l.mapM f = .ok r) :
    ∀ a ∈ l, ∃ b ∈ r, f a = .ok b := by
  intro a ha
  obtain ⟨l₁, l₂, rfl⟩ := List.append_of_mem ha
  obtain ⟨r₁, r₂, -, h₂, rfl⟩ := mapM_append_eq_ok.mp h
  obtain ⟨b, bs, hb, -, rfl⟩ := mapM_cons_eq_ok.mp h₂
  exact ⟨b, List.mem_append_right _ List.mem_cons_self, hb⟩

end OpenWrtCompile.Base
