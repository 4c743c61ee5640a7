import OpenWrtCompile.Base.Framing

/-!
# Numbered frames

A receiver that counts its frames and sees each with its number: `parse` also takes the number, and a
frame leads to the `next` one. `Reads` and `Rejects` say what becomes of a stream, with no segments;
the bounded receiver does the same with any segments that fit. A parser for which this holds never
takes back what it has seen (`Monotone`).
-/

namespace OpenWrtCompile.Base.Numbered
open OpenWrtCompile.Base.Framing

universe u v w

variable {κ : Type u} {α : Type v} {β : Type w}

/-- What the loop ends with: the number, the bytes kept and the output, or the number of a frame with
an error, or undefined behaviour. -/
inductive Outcome (κ : Type u) (α : Type v) (β : Type w) where
  | kept (number : κ) (pending : List α) (out : List β)
  | rejected (number : κ)
  | undefined

/-- The loop over the pending bytes. Each frame takes one byte at least, so `fuel` above the number
of bytes is enough. -/
def decode (next : κ → κ) (parse : κ → List α → Parsed β) :
    Nat → κ → List α → List β → Outcome κ α β
  | 0, n, pending, out => .kept n pending out
  | fuel + 1, n, pending, out =>
    match parse n pending with
    | .more => .kept n pending out
    | .bad => .rejected n
    | .undefined => .undefined
    | .frame payload length => decode next parse fuel (next n) (pending.drop length) (out ++ payload)

/-- The number of the next frame, and the bytes that are pending. -/
structure Receiver (κ : Type u) (α : Type v) where
  number : κ
  pending : List α
  deriving DecidableEq

/-- A receiver whose memory holds `limit` bytes: what it keeps, and its output or an error. An error
in a frame empties the memory. The result is `none` where the behaviour is undefined. -/
def receive (limit : Nat) (next : κ → κ) (parse : κ → List α → Parsed β) (r : Receiver κ α)
    (segment : List α) : Option (Receiver κ α × Option (List β)) :=
  if limit < r.pending.length + segment.length then some (r, none)
  else
    match decode next parse ((r.pending ++ segment).length + 1) r.number (r.pending ++ segment) [] with
    | .kept n pending out => some (⟨n, pending⟩, some out)
    | .rejected n => some (⟨n, []⟩, none)
    | .undefined => none

/-- A call with an output. -/
def accept (r : Option (Receiver κ α × Option (List β))) : Option (Receiver κ α × List β) :=
  r.bind fun r ↦ r.2.map (Prod.mk r.1)

/-- Each segment and what is pending before it have at most `limit` bytes. -/
def Fits (limit : Nat) (next : κ → κ) (parse : κ → List α → Parsed β) :
    Receiver κ α → List (List α) → Prop
  | _, [] => True
  | r, segment :: segments =>
    r.pending.length + segment.length ≤ limit ∧
      ∀ r' out, accept (receive limit next parse r segment) = some (r', out) →
        Fits limit next parse r' segments

/-- What is seen stays as it is when more bytes come, and a frame takes bytes that are there. -/
structure Monotone (parse : κ → List α → Parsed β) : Prop where
  frame : ∀ {n b payload length}, parse n b = .frame payload length →
    0 < length ∧ length ≤ b.length ∧ ∀ s, parse n (b ++ s) = .frame payload length
  bad : ∀ {n b}, parse n b = .bad → ∀ s, parse n (b ++ s) = .bad
  undefined : ∀ {n b}, parse n b = .undefined → ∀ s, parse n (b ++ s) = .undefined

variable {next : κ → κ} {parse : κ → List α → Parsed β}

/-- A call that has too much. -/
theorem receive_of_lt {limit : Nat} {r : Receiver κ α} {segment : List α}
    (h : limit < r.pending.length + segment.length) :
    receive limit next parse r segment = some (r, none) :=
  if_pos h

/-- From a number on, whole frames are read off the bytes, and the rest waits. -/
inductive Reads (next : κ → κ) (parse : κ → List α → Parsed β) :
    κ → List α → κ → List α → List β → Prop
  | more {n b} (wait : parse n b = .more) : Reads next parse n b n b []
  | frame {n b payload length m p out} (first : parse n b = .frame payload length)
    (rest : Reads next parse (next n) (b.drop length) m p out) :
    Reads next parse n b m p (payload ++ out)

/-- From a number on, whole frames are read off the bytes up to one with an error. -/
inductive Rejects (next : κ → κ) (parse : κ → List α → Parsed β) : κ → List α → κ → Prop
  | bad {n b} (error : parse n b = .bad) : Rejects next parse n b n
  | frame {n b payload length m} (first : parse n b = .frame payload length)
    (rest : Rejects next parse (next n) (b.drop length) m) : Rejects next parse n b m

/-- What is left waits. -/
theorem Reads.wait {n m : κ} {b p : List α} {out : List β} (h : Reads next parse n b m p out) :
    parse m p = .more := by
  induction h with
  | more wait => exact wait
  | frame _ _ ih => exact ih

/-- Bytes that wait are left as they are. -/
theorem Reads.of_more {n m : κ} {b p : List α} {out : List β} (h : Reads next parse n b m p out)
    (hwait : parse n b = .more) : m = n ∧ p = b ∧ out = [] := by
  cases h with
  | more => exact ⟨rfl, rfl, rfl⟩
  | frame first =>
    rw [hwait] at first
    cases first

section Monotone

variable (hmono : Monotone parse)

include hmono

/-- The loop reads the frames. -/
theorem decode_of_reads {n m : κ} {b p : List α} {out : List β} (h : Reads next parse n b m p out)
    {fuel : Nat} (hfuel : b.length < fuel) (before : List β) :
    decode next parse fuel n b before = .kept m p (before ++ out) := by
  induction h generalizing fuel before with
  | more wait =>
    obtain ⟨fuel, rfl⟩ : ∃ k, fuel = k + 1 := ⟨fuel - 1, by omega⟩
    rw [decode, wait, List.append_nil]
  | frame first _ ih =>
    obtain ⟨fuel, rfl⟩ : ∃ k, fuel = k + 1 := ⟨fuel - 1, by omega⟩
    obtain ⟨hpos, hle, -⟩ := hmono.frame first
    rw [decode, first, ← List.append_assoc]
    exact ih (by rw [List.length_drop]; omega) _

/-- The loop stops at the error. -/
theorem decode_of_rejects {n m : κ} {b : List α} (h : Rejects next parse n b m) {fuel : Nat}
    (hfuel : b.length < fuel) (before : List β) :
    decode next parse fuel n b before = .rejected m := by
  induction h generalizing fuel before with
  | bad error =>
    obtain ⟨fuel, rfl⟩ : ∃ k, fuel = k + 1 := ⟨fuel - 1, by omega⟩
    rw [decode, error]
  | frame first _ ih =>
    obtain ⟨fuel, rfl⟩ : ∃ k, fuel = k + 1 := ⟨fuel - 1, by omega⟩
    obtain ⟨hpos, hle, -⟩ := hmono.frame first
    rw [decode, first]
    exact ih (by rw [List.length_drop]; omega) _

/-- A frame is followed by the same rest when more bytes come. -/
theorem drop_frame {n : κ} {b : List α} {payload : List β} {length : Nat}
    (h : parse n b = .frame payload length) (s : List α) :
    (b ++ s).drop length = b.drop length ++ s :=
  List.drop_append_of_le_length (hmono.frame h).2.1

/-- What is read of the first bytes is read of all, and the rest comes from what was left. -/
theorem Reads.split {n m m' : κ} {b p s p' : List α} {out out' : List β}
    (h : Reads next parse n b m p out) (hall : Reads next parse n (b ++ s) m' p' out') :
    ∃ more, Reads next parse m (p ++ s) m' p' more ∧ out' = out ++ more := by
  induction h generalizing out' with
  | more => exact ⟨out', hall, rfl⟩
  | frame first _ ih =>
    have hfirst := (hmono.frame first).2.2 s
    cases hall with
    | more wait =>
      rw [hfirst] at wait
      cases wait
    | frame first' rest' =>
      rw [hfirst] at first'
      cases first'
      rw [drop_frame hmono first] at rest'
      obtain ⟨more, hmore, hout⟩ := ih rest'
      refine ⟨more, hmore, ?_⟩
      rw [hout, List.append_assoc]

/-- An error in all bytes comes from what was left of the first. -/
theorem Reads.split_rejects {n m m' : κ} {b p s : List α} {out : List β}
    (h : Reads next parse n b m p out) (hall : Rejects next parse n (b ++ s) m') :
    Rejects next parse m (p ++ s) m' := by
  induction h with
  | more => exact hall
  | frame first _ ih =>
    have hfirst := (hmono.frame first).2.2 s
    cases hall with
    | bad error =>
      rw [hfirst] at error
      cases error
    | frame first' rest' =>
      rw [hfirst] at first'
      cases first'
      rw [drop_frame hmono first] at rest'
      exact ih rest'

/-- Where all bytes are read, so are the first. -/
theorem Reads.of_append {n m : κ} {b s p : List α} {out : List β}
    (h : Reads next parse n (b ++ s) m p out) : ∃ m' p' out', Reads next parse n b m' p' out' := by
  generalize hb : b ++ s = all at h
  induction h generalizing b with
  | @more n _ wait =>
    cases hparse : parse n b with
    | more => exact ⟨_, _, _, .more hparse⟩
    | bad =>
      rw [← hb, hmono.bad hparse] at wait
      cases wait
    | undefined =>
      rw [← hb, hmono.undefined hparse] at wait
      cases wait
    | frame payload length =>
      rw [← hb, (hmono.frame hparse).2.2] at wait
      cases wait
  | @frame n _ payload length m p out first _ ih =>
    cases hparse : parse n b with
    | more => exact ⟨_, _, _, .more hparse⟩
    | bad =>
      rw [← hb, hmono.bad hparse] at first
      cases first
    | undefined =>
      rw [← hb, hmono.undefined hparse] at first
      cases first
    | frame payload' length' =>
      rw [← hb, (hmono.frame hparse).2.2] at first
      cases first
      obtain ⟨m', p', out', hrest⟩ := ih (by rw [← hb, drop_frame hmono hparse])
      exact ⟨m', p', _, .frame hparse hrest⟩

/-- A call that reads. -/
theorem receive_of_reads {limit : Nat} {r : Receiver κ α} {segment : List α}
    (hlimit : r.pending.length + segment.length ≤ limit) {m : κ} {p : List α} {out : List β}
    (h : Reads next parse r.number (r.pending ++ segment) m p out) :
    accept (receive limit next parse r segment) = some (⟨m, p⟩, out) := by
  unfold receive
  rw [if_neg (by omega), decode_of_reads hmono h (Nat.lt_succ_self _)]
  rfl

/-- A call that finds an error, or has too much. -/
theorem receive_of_rejects {limit : Nat} {r : Receiver κ α} {segment : List α} {m : κ}
    (h : Rejects next parse r.number (r.pending ++ segment) m) :
    ∃ r', receive limit next parse r segment = some (r', none) := by
  by_cases hlimit : limit < r.pending.length + segment.length
  · exact ⟨_, receive_of_lt hlimit⟩
  · unfold receive
    rw [if_neg hlimit, decode_of_rejects hmono h (Nat.lt_succ_self _)]
    exact ⟨_, rfl⟩

/-- However bytes are cut into segments that fit, the receiver reads what is read of them at once. -/
theorem runAll_of_reads {limit : Nat} {r : Receiver κ α} {segments : List (List α)}
    (hwait : parse r.number r.pending = .more) (hfits : Fits limit next parse r segments) {m : κ}
    {p : List α} {out : List β}
    (h : Reads next parse r.number (r.pending ++ segments.flatten) m p out) :
    Stream.runAll (fun r s ↦ accept (receive limit next parse r s)) r segments =
      some (⟨m, p⟩, out) := by
  induction segments generalizing r out with
  | nil =>
    rw [List.flatten_nil, List.append_nil] at h
    obtain ⟨hm, hp, hout⟩ := h.of_more hwait
    rw [hm, hp, hout]
    rfl
  | cons segment segments ih =>
    rw [List.flatten_cons, ← List.append_assoc] at h
    obtain ⟨m', p', out', hfirst⟩ := Reads.of_append hmono h
    obtain ⟨more, hrest, hout⟩ := Reads.split hmono hfirst h
    have hcall := receive_of_reads hmono hfits.1 hfirst
    rw [Stream.runAll, hcall, Option.bind_some,
      ih hfirst.wait (hfits.2 ⟨m', p'⟩ out' hcall) hrest, Option.map_some, hout]

end Monotone

/-! ## Streams of frames -/

/-- A frame with its payload: it is seen whatever follows it, and no shorter part of it is. -/
structure IsFrame (parse : List α → Parsed β) (f : List α × List β) : Prop where
  whole : ∀ rest, parse (f.1 ++ rest) = .frame f.2 f.1.length
  part : ∀ q, q <+: f.1 → q ≠ f.1 → parse q = .more

/-- The number behind frames. -/
def after (next : κ → κ) (n : κ) (fs : List (List α × List β)) : κ := next^[fs.length] n

/-- Frames with the numbers from `n` on. -/
def Frames (next : κ → κ) (parse : κ → List α → Parsed β) : κ → List (List α × List β) → Prop
  | _, [] => True
  | n, f :: fs => IsFrame (parse n) f ∧ Frames next parse (next n) fs

/-- What is left begins the next frame and is not all of it. -/
def Begins (left : List α) : List (List α × List β) → Prop
  | [] => left = []
  | f :: _ => left <+: f.1 ∧ left ≠ f.1

/-- Whole frames are read, and then what follows. -/
theorem reads_stream {n m : κ} {fs : List (List α × List β)} (hfs : Frames next parse n fs)
    {left p : List α} {out : List β} (h : Reads next parse (after next n fs) left m p out) :
    Reads next parse n (stream fs ++ left) m p (payload fs ++ out) := by
  induction fs generalizing n with
  | nil => exact h
  | cons f fs ih =>
    rw [stream_cons, payload_cons, List.append_assoc, List.append_assoc]
    apply Reads.frame (hfs.1.whole _)
    rw [List.drop_left]
    exact ih hfs.2 h

/-- Whole frames are read up to an error behind them. -/
theorem rejects_stream {n m : κ} {fs : List (List α × List β)} (hfs : Frames next parse n fs)
    {left : List α} (h : Rejects next parse (after next n fs) left m) :
    Rejects next parse n (stream fs ++ left) m := by
  induction fs generalizing n with
  | nil => exact h
  | cons f fs ih =>
    rw [stream_cons, List.append_assoc]
    apply Rejects.frame (hfs.1.whole _)
    rw [List.drop_left]
    exact ih hfs.2 h

/-- The start of a stream is read up to the frame that is not there yet. -/
theorem reads_of_prefix (hnil : ∀ n, parse n [] = .more) {n : κ} {fs : List (List α × List β)}
    (hfs : Frames next parse n fs) {b : List α} (hb : b <+: stream fs) :
    ∃ done todo left, fs = done ++ todo ∧ b = stream done ++ left ∧ Begins left todo ∧
      Reads next parse n b (after next n done) left (payload done) := by
  induction fs generalizing n b with
  | nil =>
    rw [List.prefix_nil.mp hb]
    exact ⟨[], [], [], rfl, rfl, rfl, .more (hnil n)⟩
  | cons f fs ih =>
    rcases prefix_cases hb with ⟨hpart, hne⟩ | ⟨more, rfl, hmore⟩
    · exact ⟨[], f :: fs, b, rfl, rfl, ⟨hpart, hne⟩, .more (hfs.1.part b hpart hne)⟩
    · obtain ⟨done, todo, left, rfl, hsplit, hbegins, hreads⟩ := ih hfs.2 hmore
      refine ⟨f :: done, todo, left, rfl, ?_, hbegins, ?_⟩
      · rw [hsplit, stream_cons, List.append_assoc]
      · apply Reads.frame (hfs.1.whole more)
        rw [List.drop_left]
        exact hreads

/-- What is left is no longer than what there was. -/
theorem Reads.length_le {n m : κ} {b p : List α} {out : List β} (h : Reads next parse n b m p out) :
    p.length ≤ b.length := by
  induction h with
  | more => exact Nat.le_refl _
  | frame _ _ ih =>
    rw [List.length_drop] at ih
    omega

/-- Bytes that can be read and have room together fit in any segments. -/
theorem fits_of_length_le (hmono : Monotone parse) {limit : Nat} {r : Receiver κ α}
    {segments : List (List α)} (h : r.pending.length + segments.flatten.length ≤ limit) {m : κ}
    {p : List α} {out : List β}
    (hreads : Reads next parse r.number (r.pending ++ segments.flatten) m p out) :
    Fits limit next parse r segments := by
  induction segments generalizing r out with
  | nil => trivial
  | cons segment segments ih =>
    rw [List.flatten_cons, List.length_append] at h
    rw [List.flatten_cons, ← List.append_assoc] at hreads
    have hlimit : r.pending.length + segment.length ≤ limit := by omega
    refine ⟨hlimit, fun r' out' hcall ↦ ?_⟩
    obtain ⟨m', p', first, hfirst⟩ := Reads.of_append hmono hreads
    obtain ⟨more, hrest, -⟩ := Reads.split hmono hfirst hreads
    rw [receive_of_reads hmono hlimit hfirst] at hcall
    cases hcall
    have hle := hfirst.length_le
    rw [List.length_append] at hle
    have hroom : p'.length + segments.flatten.length ≤ limit := by omega
    exact @ih ⟨m', p'⟩ hroom more hrest

end OpenWrtCompile.Base.Numbered
