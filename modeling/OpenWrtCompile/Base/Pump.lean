import OpenWrtCompile.Base.Run
import Mathlib.Data.List.Basic

/-!
# Pumps

A pump moves a stream from a source to a sink that takes as much as it likes. It holds one chunk at a
time: a chunk is put in when the one before it has gone out, part of it may go out at once, and what
is left is pushed out later. Nothing is lost, repeated or reordered, whatever the sink takes.
-/

namespace OpenWrtCompile.Base

universe u v w

variable {α : Type u} {S : Type v} {E : Type w}

/-- What has gone out, and the rest of the chunk that was put in. -/
structure Pump (α : Type u) where
  sent : List α
  unsent : List α

namespace Pump

/-- A chunk of which the sink takes the first elements at once, or some more of the pending chunk. -/
inductive Move (α : Type u) where
  | put (chunk : List α) (taken : Nat)
  | push (taken : Nat)

/-- What a move puts in. -/
def Move.chunk : Move α → List α
  | .put chunk _ => chunk
  | .push _ => []

/-- One move. There is no room for a chunk while another one is pending. -/
def step (p : Pump α) : Move α → Option (Pump α)
  | .put chunk taken =>
    match p.unsent with
    | [] => some ⟨p.sent ++ chunk.take taken, chunk.drop taken⟩
    | _ :: _ => none
  | .push taken => some ⟨p.sent ++ p.unsent.take taken, p.unsent.drop taken⟩

/-- All that was put in. -/
def stream (p : Pump α) : List α := p.sent ++ p.unsent

/-- A chunk is put into an empty pump. -/
theorem step_put {p : Pump α} (h : p.unsent = []) (chunk : List α) (taken : Nat) :
    p.step (.put chunk taken) = some ⟨p.sent ++ chunk.take taken, chunk.drop taken⟩ := by
  rw [step, h]

/-- Nothing happens to the stream. -/
theorem step_push_zero (p : Pump α) : p.step (.push 0) = some p := by
  rw [step, List.take_zero, List.append_nil, List.drop_zero]

/-- A move adds its chunk to the stream. -/
theorem stream_step {p q : Pump α} {m : Move α} (h : p.step m = some q) :
    q.stream = p.stream ++ m.chunk := by
  cases m with
  | put chunk taken =>
    rw [step] at h
    split at h
    · next hempty =>
      rw [← Option.some.inj h, stream, stream, hempty, List.append_nil, List.append_assoc,
        List.take_append_drop, Move.chunk]
    · cases h
  | push taken =>
    rw [step] at h
    rw [← Option.some.inj h, stream, stream, Move.chunk, List.append_nil, List.append_assoc,
      List.take_append_drop]

/-- What has gone out stays out. -/
theorem sent_step {p q : Pump α} {m : Move α} (h : p.step m = some q) : p.sent <+: q.sent := by
  cases m with
  | put chunk taken =>
    rw [step] at h
    split at h
    · rw [← Option.some.inj h]
      exact List.prefix_append _ _
    · cases h
  | push taken =>
    rw [step] at h
    rw [← Option.some.inj h]
    exact List.prefix_append _ _

end Pump

/-- What the steps of a run give, one after the other. -/
def collect (step : S → E → Option S) (give : S → E → List α) : S → List E → List α
  | _, [] => []
  | s, e :: es =>
    give s e ++
      match step s e with
      | none => []
      | some t => collect step give t es

/-- The first step of a run and the others. -/
theorem collect_cons {step : S → E → Option S} {s t : S} {e : E} (h : step s e = some t)
    (give : S → E → List α) (es : List E) :
    collect step give s (e :: es) = give s e ++ collect step give t es := by
  rw [collect, h]

/-- A machine that moves a pump with every step: the stream grows by what the steps put in. -/
theorem stream_of_moves {step : S → E → Option S} {good : S → E → Prop} (inv : S → Prop)
    (view : S → Pump α) {give : S → E → List α}
    (h : ∀ s e t, inv s → good s e → step s e = some t →
      inv t ∧ ∃ m, (view s).step m = some (view t) ∧ m.chunk = give s e)
    {s t : S} {es : List E} (hs : inv s) (ha : Along step good s es) (hrun : run step s es = some t) :
    inv t ∧ (view t).stream = (view s).stream ++ collect step give s es ∧
      (view s).sent <+: (view t).sent := by
  induction es generalizing s with
  | nil =>
    cases Option.some.inj hrun
    exact ⟨hs, (List.append_nil _).symm, List.prefix_refl _⟩
  | cons e es ih =>
    obtain ⟨u, hu, hrest⟩ := (run_cons_eq_some step).mp hrun
    obtain ⟨hinv, m, hm, hchunk⟩ := h s e u hs ha.1 hu
    obtain ⟨ht, hstream, hsent⟩ := ih hinv (ha.2 u hu) hrest
    refine ⟨ht, ?_, (Pump.sent_step hm).trans hsent⟩
    rw [hstream, Pump.stream_step hm, hchunk, collect_cons hu, List.append_assoc]

end OpenWrtCompile.Base
