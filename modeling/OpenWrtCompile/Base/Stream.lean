import Mathlib.Data.List.Basic
import Mathlib.Tactic.Common

/-!
# Streams in pieces

`outputs` runs a machine over its inputs and joins what it puts out; `runAll` keeps the last state
as well. `cut` takes a stream apart into pieces that are not empty, each with a label: the segments in
which a stream may arrive.
-/

namespace OpenWrtCompile.Base.Stream

universe u v w

variable {σ : Type u} {ι : Type v} {α : Type w}

/-- The joined outputs of a machine over its inputs; `none` where a step has no result. -/
def outputs (step : σ → ι → Option (σ × List α)) : σ → List ι → Option (List α)
  | _, [] => some []
  | s, i :: is =>
    match step s i with
    | none => none
    | some (s', out) => (outputs step s' is).map (out ++ ·)

/-- One step and the rest of the run. -/
theorem outputs_cons {step : σ → ι → Option (σ × List α)} {s s' : σ} {i : ι} {out : List α}
    (h : step s i = some (s', out)) (is : List ι) :
    outputs step s (i :: is) = (outputs step s' is).map (out ++ ·) := by
  rw [outputs, h]

/-- A machine that stays in a state and hands on its inputs. -/
theorem outputs_of_steady {step : σ → ι → Option (σ × List α)} {s : σ} {f : ι → List α}
    (h : ∀ i, step s i = some (s, f i)) (is : List ι) :
    outputs step s is = some (is.map f).flatten := by
  induction is with
  | nil => rfl
  | cons i is ih =>
    rw [outputs_cons (h i), ih]
    rfl

/-- A machine that changes its first input alone. -/
theorem outputs_of_first {step : σ → List α → Option (σ × List α)} {s s' : σ} {i out : List α}
    (hfirst : step s i = some (s', out)) (hrest : ∀ j, step s' j = some (s', j))
    (is : List (List α)) : outputs step s (i :: is) = some (out ++ is.flatten) := by
  rw [outputs_cons hfirst, outputs_of_steady hrest, List.map_id', Option.map_some]

/-- A machine that follows another one gives the same outputs. -/
theorem outputs_of_follows {τ κ : Type*} {step : σ → ι → Option (σ × List α)}
    {step' : τ → κ → Option (τ × List α)} {keep : σ → τ} {input : κ → ι}
    (h : ∀ s i s' out, step s (input i) = some (s', out) → step' (keep s) i = some (keep s', out))
    {s : σ} {is : List κ} {out : List α} (hrun : outputs step s (is.map input) = some out) :
    outputs step' (keep s) is = some out := by
  induction is generalizing s out with
  | nil => exact hrun
  | cons i is ih =>
    rw [List.map_cons, outputs] at hrun
    cases hstep : step s (input i) with
    | none =>
      rw [hstep] at hrun
      cases hrun
    | some r =>
      obtain ⟨s', first⟩ := r
      rw [hstep] at hrun
      obtain ⟨rest, hrest, hout⟩ := Option.map_eq_some_iff.mp hrun
      rw [outputs_cons (h s i s' first hstep), ih hrest, ← hout]
      rfl

/-- All steps of a machine: the state behind them and the joined outputs. -/
def runAll (step : σ → ι → Option (σ × List α)) : σ → List ι → Option (σ × List α)
  | s, [] => some (s, [])
  | s, i :: is =>
    (step s i).bind fun r ↦ (runAll step r.1 is).map fun r' ↦ (r'.1, r.2 ++ r'.2)

/-- A run over two lists of inputs goes through the state between them. -/
theorem runAll_append (step : σ → ι → Option (σ × List α)) (s : σ) (is js : List ι) :
    runAll step s (is ++ js) =
      (runAll step s is).bind fun r ↦ (runAll step r.1 js).map fun r' ↦ (r'.1, r.2 ++ r'.2) := by
  induction is generalizing s with
  | nil =>
    rw [List.nil_append, runAll, Option.bind_some]
    cases runAll step s js <;> rfl
  | cons i is ih =>
    rw [List.cons_append, runAll, runAll]
    cases step s i with
    | none => rfl
    | some r =>
      rw [Option.bind_some, Option.bind_some, ih]
      cases runAll step r.1 is with
      | none => rfl
      | some r' =>
        simp only [Option.map_some, Option.bind_some, Option.map_map, Function.comp_def,
          List.append_assoc]

/-- The first part of a run. -/
theorem runAll_append_of_some {step : σ → ι → Option (σ × List α)} {s s' : σ} {is : List ι}
    {out : List α} (h : runAll step s is = some (s', out)) (js : List ι) :
    runAll step s (is ++ js) = (runAll step s' js).map fun r ↦ (r.1, out ++ r.2) := by
  rw [runAll_append, h, Option.bind_some]

/-- A machine that takes its inputs in pieces, each as another one takes its elements, gives the same
outputs however the inputs are cut. -/
theorem runAll_of_pieces {τ κ : Type*} {step : σ → ι → Option (σ × List α)}
    {pieceStep : τ → κ → Option (τ × List α)} {piece : κ → List ι} {good : κ → Prop}
    {R : τ → σ → Prop}
    (h : ∀ t s k s' out, R t s → good k → runAll step s (piece k) = some (s', out) →
      ∃ t', pieceStep t k = some (t', out) ∧ R t' s')
    {t : τ} {s s' : σ} {ks : List κ} {out : List α} (hR : R t s) (hgood : ∀ k ∈ ks, good k)
    (hrun : runAll step s (ks.map piece).flatten = some (s', out)) :
    ∃ t', runAll pieceStep t ks = some (t', out) ∧ R t' s' := by
  induction ks generalizing t s out with
  | nil =>
    cases hrun
    exact ⟨t, rfl, hR⟩
  | cons k ks ih =>
    obtain ⟨hk, hks⟩ := List.forall_mem_cons.mp hgood
    rw [List.map_cons, List.flatten_cons, runAll_append] at hrun
    obtain ⟨⟨s₁, out₁⟩, hfirst, hrest⟩ := Option.bind_eq_some_iff.mp hrun
    obtain ⟨⟨s₂, out₂⟩, hothers, hout⟩ := Option.map_eq_some_iff.mp hrest
    cases hout
    obtain ⟨t₁, hstep, hR₁⟩ := h t s k s₁ out₁ hR hk hfirst
    obtain ⟨t₂, hrun₂, hR₂⟩ := ih hR₁ hks hothers
    refine ⟨t₂, ?_, hR₂⟩
    rw [runAll, hstep, Option.bind_some, hrun₂, Option.map_some]

/-- The pieces of a list, one element longer than the given numbers, with their labels. The last
takes what is left. -/
def cut (last : ι) : List (Nat × ι) → List α → List (List α × ι)
  | _, [] => []
  | [], l => [(l, last)]
  | (n, i) :: cs, l => (l.take (n + 1), i) :: cut last cs (l.drop (n + 1))

/-- A cut of a list that is not empty. -/
theorem cut_cons (last : ι) (n : Nat) (i : ι) (cs : List (Nat × ι)) {l : List α} (h : l ≠ []) :
    cut last ((n, i) :: cs) l = (l.take (n + 1), i) :: cut last cs (l.drop (n + 1)) := by
  cases l with
  | nil => exact absurd rfl h
  | cons a l => rfl

/-- The pieces are the whole. -/
theorem flatten_cut (last : ι) (cs : List (Nat × ι)) (l : List α) :
    ((cut last cs l).map Prod.fst).flatten = l := by
  induction cs generalizing l with
  | nil =>
    cases l with
    | nil => rfl
    | cons a l => simp [cut]
  | cons c cs ih =>
    cases l with
    | nil => rfl
    | cons a l =>
      rw [cut_cons _ _ _ _ (List.cons_ne_nil a l), List.map_cons, List.flatten_cons, ih]
      exact List.take_append_drop _ _

/-- No piece is empty. -/
theorem ne_nil_of_mem_cut (last : ι) {cs : List (Nat × ι)} {l : List α} {p : List α × ι}
    (h : p ∈ cut last cs l) : p.1 ≠ [] := by
  induction cs generalizing l with
  | nil =>
    cases l with
    | nil => cases h
    | cons a l =>
      rw [List.mem_singleton.mp h]
      exact List.cons_ne_nil a l
  | cons c cs ih =>
    cases l with
    | nil => cases h
    | cons a l =>
      rw [cut_cons _ _ _ _ (List.cons_ne_nil a l)] at h
      rcases List.mem_cons.mp h with rfl | h
      · exact List.cons_ne_nil a _
      · exact ih h

/-- A list split at an element, what comes first having a property: at its head, or behind it. -/
theorem exists_split_cons {P : ι → Prop} {Q : ι → List ι → Prop} {a : ι} {l : List ι} :
    (∃ pre b post, a :: l = pre ++ b :: post ∧ (∀ p ∈ pre, P p) ∧ Q b post) ↔
      Q a l ∨ P a ∧ ∃ pre b post, l = pre ++ b :: post ∧ (∀ p ∈ pre, P p) ∧ Q b post := by
  constructor
  · rintro ⟨pre, b, post, hsplit, hpre, hQ⟩
    cases pre with
    | nil =>
      rw [List.nil_append] at hsplit
      cases hsplit
      exact .inl hQ
    | cons p pre =>
      rw [List.cons_append] at hsplit
      cases hsplit
      obtain ⟨hp, hpre⟩ := List.forall_mem_cons.mp hpre
      exact .inr ⟨hp, pre, b, post, rfl, hpre, hQ⟩
  · rintro (hQ | ⟨hP, pre, b, post, rfl, hpre, hQ⟩)
    · exact ⟨[], a, l, rfl, List.forall_mem_nil _, hQ⟩
    · exact ⟨a :: pre, b, post, rfl, List.forall_mem_cons.mpr ⟨hP, hpre⟩, hQ⟩

end OpenWrtCompile.Base.Stream
