import OpenWrtCompile.Base.Bytes
import OpenWrtCompile.Base.Stream

/-!
# Keystreams

A stream cipher XORs a message with a keystream, a function of the position. `xorByte` is the cipher
as a machine that takes one byte after the other, below a limit on the position.
-/

namespace OpenWrtCompile.Base

/-- A message XORed with a keystream from a position on. -/
def xorAt (ks : Nat → UInt8) : Nat → Bytes → Bytes
  | _, [] => []
  | pos, b :: bs => (b ^^^ ks pos) :: xorAt ks (pos + 1) bs

/-- One byte of the stream, below the limit. -/
def xorByte (ks : Nat → UInt8) (limit pos : Nat) (b : UInt8) : Option (Nat × Bytes) :=
  if pos + 1 < limit then some (pos + 1, [b ^^^ ks pos]) else none

variable {ks : Nat → UInt8} {limit : Nat}

@[simp] theorem length_xorAt (ks : Nat → UInt8) (pos : Nat) (m : Bytes) :
    (xorAt ks pos m).length = m.length := by
  induction m generalizing pos with
  | nil => rfl
  | cons b m ih => rw [xorAt, List.length_cons, ih, List.length_cons]

/-- The second part of a message starts where the first one ends. -/
theorem xorAt_append (ks : Nat → UInt8) (pos : Nat) (m m' : Bytes) :
    xorAt ks pos (m ++ m') = xorAt ks pos m ++ xorAt ks (pos + m.length) m' := by
  induction m generalizing pos with
  | nil => rfl
  | cons b m ih =>
    have hpos : pos + 1 + m.length = pos + (m.length + 1) := by omega
    rw [List.cons_append, xorAt, ih, hpos]
    rfl

/-- A message XORed twice is itself. -/
theorem xorAt_xorAt (ks : Nat → UInt8) (pos : Nat) (m : Bytes) :
    xorAt ks pos (xorAt ks pos m) = m := by
  induction m generalizing pos with
  | nil => rfl
  | cons b m ih =>
    rw [xorAt, xorAt, ih, UInt8.xor_assoc, UInt8.xor_self, UInt8.xor_zero]

/-- The bytes of a message, one after the other. -/
theorem runAll_xorByte (ks : Nat → UInt8) {pos : Nat} {m : Bytes} (h : pos + m.length < limit) :
    Stream.runAll (xorByte ks limit) pos m = some (pos + m.length, xorAt ks pos m) := by
  induction m generalizing pos with
  | nil => rfl
  | cons b m ih =>
    rw [List.length_cons] at h
    have hpos : pos + 1 + m.length = pos + (m.length + 1) := by omega
    have hstep : xorByte ks limit pos b = some (pos + 1, [b ^^^ ks pos]) := if_pos (by omega)
    rw [Stream.runAll, hstep, Option.bind_some, ih (by omega), Option.map_some, hpos]
    rfl

/-- A message that was taken lies below the limit. -/
theorem of_runAll_xorByte {pos pos' : Nat} {m out : Bytes} (hpos : pos < limit)
    (h : Stream.runAll (xorByte ks limit) pos m = some (pos', out)) :
    pos + m.length < limit ∧ pos' = pos + m.length ∧ out = xorAt ks pos m := by
  induction m generalizing pos pos' out with
  | nil =>
    cases h
    exact ⟨hpos, rfl, rfl⟩
  | cons b m ih =>
    rw [Stream.runAll] at h
    obtain ⟨r, hstep, hrest⟩ := Option.bind_eq_some_iff.mp h
    obtain ⟨hbound, hr⟩ := Option.ite_none_right_eq_some.mp hstep
    obtain ⟨⟨pos₁, out₁⟩, hrun, hout⟩ := Option.map_eq_some_iff.mp hrest
    cases hr
    cases hout
    obtain ⟨hlen, hpos₁, hout₁⟩ := ih hbound hrun
    refine ⟨?_, ?_, ?_⟩
    · rw [List.length_cons]
      omega
    · rw [hpos₁, List.length_cons]
      omega
    · rw [hout₁]
      rfl

end OpenWrtCompile.Base
