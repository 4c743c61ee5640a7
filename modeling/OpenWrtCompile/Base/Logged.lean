import Mathlib.Tactic.Common

/-!
# Runs that record their memory accesses

A function of a C program that reads through pointers is written as a run that records each access
before it makes use of the value, and that may end on an error path. `All P` says that every access
of the run is permitted, which a bound on a block is an instance of.
-/

namespace OpenWrtCompile.Base

/-- A read of `len` bytes from offset `off` on. -/
structure Read where
  off : Nat
  len : Nat
  deriving DecidableEq, Repr

/-- The read stays below offset `n`. -/
def Read.Below (n : Nat) (r : Read) : Prop := r.off + r.len ≤ n

/-- A run: the accesses it made, in order, and its value or the error it ended with. -/
structure Logged (η ε α : Type) where
  log : List η
  result : Except ε α

namespace Logged
variable {η ε α β : Type}

/-- Go on with the value of a run; a run that failed makes no further access. -/
def bind (x : Logged η ε α) (f : α → Logged η ε β) : Logged η ε β :=
  match x.result with
  | .ok a => ⟨x.log ++ (f a).log, (f a).result⟩
  | .error e => ⟨x.log, .error e⟩

instance : Monad (Logged η ε) where
  pure a := ⟨[], .ok a⟩
  bind := bind

/-- One access, and the value it yields. -/
def access (e : η) (a : α) : Logged η ε α := ⟨[e], .ok a⟩

/-- An error path. -/
def fail (e : ε) : Logged η ε α := ⟨[], .error e⟩

/-- Every access of the run is permitted by `P`. -/
def All (P : η → Prop) (x : Logged η ε α) : Prop := ∀ e ∈ x.log, P e

variable {P : η → Prop}

@[simp] theorem result_pure (a : α) : (pure a : Logged η ε α).result = .ok a := rfl

@[simp] theorem result_access (e : η) (a : α) : (access e a : Logged η ε α).result = .ok a := rfl

@[simp] theorem result_fail (e : ε) : (fail e : Logged η ε α).result = .error e := rfl

/-- The value of a run that goes on. -/
@[simp] theorem result_bind (x : Logged η ε α) (f : α → Logged η ε β) :
    (x >>= f).result = x.result.bind fun a ↦ (f a).result := by
  show (bind x f).result = _
  unfold bind
  cases x.result <;> rfl

@[simp] theorem all_pure (a : α) : (pure a : Logged η ε α).All P := by
  intro e he
  exact absurd he List.not_mem_nil

@[simp] theorem all_fail (e : ε) : (fail e : Logged η ε α).All P := by
  intro e he
  exact absurd he List.not_mem_nil

@[simp] theorem all_access {e : η} {a : α} : (access e a : Logged η ε α).All P ↔ P e := by
  constructor
  · intro h
    exact h e List.mem_cons_self
  · intro h e' he
    rw [List.mem_singleton.mp he]
    exact h

/-- A run that goes on is permitted when both of its parts are, the second for the value of the
first. -/
@[simp] theorem all_bind {x : Logged η ε α} {f : α → Logged η ε β} :
    (x >>= f).All P ↔ x.All P ∧ ∀ a, x.result = .ok a → (f a).All P := by
  show (bind x f).All P ↔ _
  unfold bind All
  cases x.result with
  | ok a => simp only [List.forall_mem_append, Except.ok.injEq, forall_eq']
  | error e => simp only [reduceCtorEq, false_implies, implies_true, and_true]

/-- A run that goes on after one without a value. -/
theorem all_bind_unit {x : Logged η ε Unit} {f : Unit → Logged η ε β} :
    (x >>= f).All P ↔ x.All P ∧ (x.result = .ok () → (f ()).All P) := by
  rw [all_bind]
  constructor
  · exact fun h ↦ ⟨h.1, h.2 ()⟩
  · exact fun h ↦ ⟨h.1, fun _ ↦ h.2⟩

/-- A choice of runs. -/
theorem all_ite {c : Prop} [Decidable c] {x y : Logged η ε α} :
    (if c then x else y).All P ↔ (c → x.All P) ∧ (¬ c → y.All P) := by
  by_cases h : c
  · simp only [h, if_true, true_implies, not_true, false_implies, and_true]
  · simp only [h, if_false, false_implies, not_false_eq_true, true_implies, true_and]

/-! ### What a run does -/

/-- The run makes permitted accesses only; its value satisfies `Q`, the error it ends with `E`. -/
def Meets (P : η → Prop) (Q : α → Prop) (E : ε → Prop) (x : Logged η ε α) : Prop :=
  x.All P ∧ (∀ a, x.result = .ok a → Q a) ∧ ∀ e, x.result = .error e → E e

variable {Q : α → Prop} {R : β → Prop} {E : ε → Prop}

theorem meets_pure {a : α} (h : Q a) : (pure a : Logged η ε α).Meets P Q E :=
  ⟨all_pure a, fun _ hb ↦ Except.ok.inj hb ▸ h, fun _ he ↦ (by cases he)⟩

theorem meets_fail {e : ε} (h : E e) : (fail e : Logged η ε α).Meets P Q E :=
  ⟨all_fail e, fun _ ha ↦ (by cases ha), fun _ he ↦ Except.error.inj he ▸ h⟩

theorem meets_access {r : η} {a : α} (hr : P r) (h : Q a) :
    (access r a : Logged η ε α).Meets P Q E :=
  ⟨all_access.mpr hr, fun _ hb ↦ Except.ok.inj hb ▸ h, fun _ he ↦ (by cases he)⟩

theorem Meets.mono {x : Logged η ε α} {Q' : α → Prop} {E' : ε → Prop} (h : x.Meets P Q E)
    (hq : ∀ a, Q a → Q' a) (he : ∀ e, E e → E' e) : x.Meets P Q' E' :=
  ⟨h.1, fun a ha ↦ hq a (h.2.1 a ha), fun e hx ↦ he e (h.2.2 e hx)⟩

/-- A run in two parts, with what the first tells of its value. -/
theorem meets_bind {x : Logged η ε α} {f : α → Logged η ε β} (hx : x.Meets P Q E)
    (hf : ∀ a, Q a → (f a).Meets P R E) : (x >>= f).Meets P R E := by
  refine ⟨all_bind.mpr ⟨hx.1, fun a ha ↦ (hf a (hx.2.1 a ha)).1⟩, fun b hb ↦ ?_, fun e he ↦ ?_⟩
  · rw [result_bind] at hb
    cases ha : x.result with
    | ok a =>
      rw [ha] at hb
      exact (hf a (hx.2.1 a ha)).2.1 b hb
    | error e =>
      rw [ha] at hb
      cases hb
  · rw [result_bind] at he
    cases ha : x.result with
    | ok a =>
      rw [ha] at he
      exact (hf a (hx.2.1 a ha)).2.2 e he
    | error e' =>
      rw [ha] at he
      exact Except.error.inj he ▸ hx.2.2 e' ha

theorem meets_ite {c : Prop} [Decidable c] {x y : Logged η ε α} (hx : c → x.Meets P Q E)
    (hy : ¬ c → y.Meets P Q E) : (if c then x else y).Meets P Q E := by
  by_cases h : c
  · rw [if_pos h]
    exact hx h
  · rw [if_neg h]
    exact hy h

/-! ### Loops -/

section loops
variable {σ : Type}

/-- A loop whose passes go on with a new state or end the run, cut off with `out` after so many. -/
def loop (pass : σ → Logged η ε σ) (out : ε) : Nat → σ → Logged η ε α
  | 0, _ => fail out
  | n + 1, s => pass s >>= loop pass out n

variable {pass : σ → Logged η ε σ} {out : ε}

/-- A loop whose passes keep `inv` and lower a measure is never cut off: it ends with what one of
its passes ends with. -/
theorem meets_loop (inv : σ → Prop) (m : σ → Nat)
    (hpass : ∀ s, inv s → (pass s).Meets P (fun t ↦ inv t ∧ m t < m s) E) {s : σ} (hs : inv s)
    {n : Nat} (hn : m s < n) : (loop pass out n s : Logged η ε α).Meets P (fun _ ↦ False) E := by
  induction n generalizing s with
  | zero => omega
  | succ n ih => exact meets_bind (hpass s hs) fun t ht ↦ ih ht.1 (by omega)

/-- A pass that goes on. -/
theorem result_loop_of_ok {s t : σ} (h : (pass s).result = .ok t) (n : Nat) :
    (loop pass out (n + 1) s : Logged η ε α).result =
      (loop pass out n t : Logged η ε α).result := by
  rw [loop, result_bind, h]
  rfl

/-- A pass that ends the loop. -/
theorem result_loop_of_error {s : σ} {e : ε} (h : (pass s).result = .error e) (n : Nat) :
    (loop pass out (n + 1) s : Logged η ε α).result = .error e := by
  rw [loop, result_bind, h]
  rfl

end loops

end Logged

/-! ## Chains of tests -/

/-- A test of the bytes below offset `stop`. -/
structure Check where
  stop : Nat
  holds : Bool
  deriving DecidableEq, Repr

/-- Of `n` bytes each test reads what is there, as long as those before it hold; `last` is what comes
behind the tests. -/
def Chain (n : Nat) (last : Prop) : List Check → Prop
  | [] => last
  | c :: cs => c.stop ≤ n ∧ (c.holds = true → Chain n last cs)

/-- The tests of bytes that are all there hold. -/
def HoldsUpTo (n : Nat) (cs : List Check) : Prop := ∀ c ∈ cs, c.stop ≤ n → c.holds = true

instance (n : Nat) (cs : List Check) : Decidable (HoldsUpTo n cs) :=
  inferInstanceAs (Decidable (∀ c ∈ cs, c.stop ≤ n → c.holds = true))

/-- A chain of tests that go forward reads behind the `n` bytes exactly when all tests of what is
there hold, and a test or what comes behind them goes further. -/
theorem chain_iff {n : Nat} {last : Prop} {cs : List Check}
    (hforward : cs.Pairwise fun a b ↦ a.stop ≤ b.stop) :
    Chain n last cs ↔ ¬ (HoldsUpTo n cs ∧ ((∃ c ∈ cs, n < c.stop) ∨ ¬ last)) := by
  induction cs with
  | nil =>
    simp only [Chain, HoldsUpTo, List.not_mem_nil, false_implies, implies_true, true_and,
      false_and, exists_false, false_or, not_not]
  | cons c cs ih =>
    rw [List.pairwise_cons] at hforward
    rw [Chain, ih hforward.2]
    unfold HoldsUpTo
    simp only [List.mem_cons, forall_eq_or_imp, exists_eq_or_imp]
    by_cases hstop : c.stop ≤ n
    · have hnot : ¬ n < c.stop := by omega
      simp only [hstop, hnot, true_and, true_implies, false_or]
      rw [and_assoc]
      exact not_and.symm
    · -- what follows a test that goes too far goes too far as well
      have hrest : ∀ d ∈ cs, d.stop ≤ n → d.holds = true := by
        intro d hd hle
        have := hforward.1 d hd
        omega
      simp only [hstop, false_and, false_implies, true_and, false_iff, not_not]
      exact ⟨hrest, .inl (.inl (by omega))⟩

end OpenWrtCompile.Base
