import Mathlib.Tactic.Common

/-!
# Runs of a partial step function

A callback-driven program is a function from a state and an event to the next state, or to `none`
where it ends. A property of every run comes from a property of one step by `run_invariant`; where
only some steps keep it, `Along` says that a run takes no other, and `run_invariant_along` is used.
-/

namespace OpenWrtCompile.Base

universe u v

variable {S : Type u} {E : Type v}

/-- Take the events one after the other. -/
def run (step : S → E → Option S) : S → List E → Option S
  | s, [] => some s
  | s, e :: es =>
    match step s e with
    | none => none
    | some t => run step t es

/-- Every step of the run meets `good`. -/
def Along (step : S → E → Option S) (good : S → E → Prop) : S → List E → Prop
  | _, [] => True
  | s, e :: es => good s e ∧ ∀ t, step s e = some t → Along step good t es

/-- An empty run changes nothing. -/
@[simp] theorem run_nil (step : S → E → Option S) (s : S) : run step s [] = some s := rfl

/-- The first step of a run. -/
theorem run_cons_of_some (step : S → E → Option S) {s t : S} {e : E} (es : List E)
    (h : step s e = some t) : run step s (e :: es) = run step t es := by
  simp only [run, h]

/-- A run that gets somewhere makes its first step and gets there from the state behind it. -/
theorem run_cons_eq_some (step : S → E → Option S) {s u : S} {e : E} {es : List E} :
    run step s (e :: es) = some u ↔ ∃ t, step s e = some t ∧ run step t es = some u := by
  simp only [run]
  cases h : step s e with
  | none => simp
  | some t => simp

/-- A good step in front of a run of good steps. -/
theorem along_cons {step : S → E → Option S} {good : S → E → Prop} {s t : S} {e : E} {es : List E}
    (h : step s e = some t) (hgood : good s e) (ha : Along step good t es) :
    Along step good s (e :: es) := by
  refine ⟨hgood, fun u hu ↦ ?_⟩
  rw [h] at hu
  rw [← Option.some.inj hu]
  exact ha

/-- Whether a run takes good steps alone can be tested. -/
instance decidableAlong (step : S → E → Option S) (good : S → E → Prop)
    [∀ s e, Decidable (good s e)] : (s : S) → (es : List E) → Decidable (Along step good s es)
  | _, [] => .isTrue trivial
  | s, e :: es =>
    match h : step s e with
    | none => decidable_of_iff (good s e) (by simp [Along, h])
    | some t =>
      have := decidableAlong step good t es
      decidable_of_iff (good s e ∧ Along step good t es) (by simp [Along, h])

/-- Two runs of good steps, one behind the other. -/
theorem along_append {step : S → E → Option S} {good : S → E → Prop} {s t : S} {es es' : List E}
    (h : run step s es = some t) (ha : Along step good s es) (ha' : Along step good t es') :
    Along step good s (es ++ es') := by
  induction es generalizing s with
  | nil =>
    rw [run_nil] at h
    rw [Option.some.inj h]
    exact ha'
  | cons e es ih =>
    obtain ⟨u, hu, hrest⟩ := (run_cons_eq_some step).mp h
    exact along_cons hu ha.1 (ih hrest (ha.2 u hu))

/-- What every good step keeps, every run of good steps keeps. -/
theorem run_invariant_along (step : S → E → Option S) (good : S → E → Prop) (inv : S → Prop)
    (hstep : ∀ s e t, inv s → good s e → step s e = some t → inv t) {s t : S} {es : List E}
    (hs : inv s) (ha : Along step good s es) (hr : run step s es = some t) : inv t := by
  induction es generalizing s with
  | nil =>
    rw [← Option.some.inj hr]
    exact hs
  | cons e es ih =>
    rcases (run_cons_eq_some step).mp hr with ⟨u, hu, hrest⟩
    exact ih (hstep s e u hs ha.1 hu) (ha.2 u hu) hrest

/-- What every step keeps, every run keeps. -/
theorem run_invariant (step : S → E → Option S) (inv : S → Prop)
    (hstep : ∀ s e t, inv s → step s e = some t → inv t) {s t : S} {es : List E}
    (hs : inv s) (hr : run step s es = some t) : inv t := by
  apply run_invariant_along step (fun _ _ ↦ True) inv (fun s e t hi _ ht ↦ hstep s e t hi ht) hs _ hr
  clear hr hs
  induction es generalizing s with
  | nil => trivial
  | cons e es ih => exact ⟨trivial, fun t _ ↦ ih⟩

/-- Where the good steps are those that keep a property, all states of a run have it exactly when all
its steps are good. -/
theorem forall_prefix_iff_along (step : S → E → Option S) (good : S → E → Prop) (inv P : S → Prop)
    (hstep : ∀ s e, inv s → P s → ∃ t, step s e = some t ∧ inv t ∧ (P t ↔ good s e)) {s : S}
    (hs : inv s) (hP : P s) (es : List E) :
    (∀ pre, pre <+: es → ∃ t, run step s pre = some t ∧ P t) ↔ Along step good s es := by
  induction es generalizing s with
  | nil =>
    refine ⟨fun _ ↦ trivial, fun _ pre hpre ↦ ⟨s, ?_, hP⟩⟩
    rw [List.prefix_nil.mp hpre]
    rfl
  | cons e es ih =>
    obtain ⟨t, ht, hinv, hgood⟩ := hstep s e hs hP
    unfold Along
    constructor
    · intro h
      obtain ⟨u, hu, hPu⟩ := h [e] ⟨es, rfl⟩
      rw [run_cons_of_some step [] ht, run_nil] at hu
      rw [← Option.some.inj hu] at hPu
      refine ⟨hgood.mp hPu, fun v hv ↦ ?_⟩
      rw [ht] at hv
      rw [← Option.some.inj hv]
      apply (ih hinv hPu).mp
      intro pre hpre
      obtain ⟨w, hw, hPw⟩ := h (e :: pre) (List.prefix_cons_inj e |>.mpr hpre)
      rw [run_cons_of_some step pre ht] at hw
      exact ⟨w, hw, hPw⟩
    · rintro ⟨hg, hrest⟩ pre hpre
      cases pre with
      | nil => exact ⟨s, rfl, hP⟩
      | cons d pre =>
        obtain ⟨hd, hpre'⟩ := List.cons_prefix_cons.mp hpre
        rw [hd, run_cons_of_some step pre ht]
        exact (ih hinv (hgood.mpr hg)).mpr (hrest t ht) pre hpre'

/-- Two conditions on steps that agree wherever an invariant holds agree along runs. -/
theorem along_congr (step : S → E → Option S) (inv : S → Prop)
    (hstep : ∀ s e t, inv s → step s e = some t → inv t) {good good' : S → E → Prop}
    (hgood : ∀ s e, inv s → (good s e ↔ good' s e)) {s : S} (hs : inv s) (es : List E) :
    Along step good s es ↔ Along step good' s es := by
  induction es generalizing s with
  | nil => exact Iff.rfl
  | cons e es ih =>
    unfold Along
    rw [hgood s e hs]
    constructor
    · intro h
      exact ⟨h.1, fun t ht ↦ (ih (hstep s e t hs ht)).mp (h.2 t ht)⟩
    · intro h
      exact ⟨h.1, fun t ht ↦ (ih (hstep s e t hs ht)).mpr (h.2 t ht)⟩

end OpenWrtCompile.Base
