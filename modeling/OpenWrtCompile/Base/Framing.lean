import OpenWrtCompile.Base.Stream
import Mathlib.Data.List.Infix

/-!
# Framed streams

A receiver keeps what it has not understood yet, adds each segment to it and takes whole frames off
the front. `parse` looks at what is pending; `IsFrame` says how it sees a frame that arrives piece
by piece. However a stream of frames is cut into segments, the receiver gives the payloads of the
frames that have arrived whole.
-/

namespace OpenWrtCompile.Base.Framing

universe u v

variable {α : Type u} {β : Type v}

/-- What a receiver sees at the front of the pending bytes. -/
inductive Parsed (β : Type v) where
  | more
  | bad
  | undefined
  | frame (payload : List β) (length : Nat)

/-- What its loop ends with: the bytes kept and the output, an error, or undefined behaviour. -/
inductive Outcome (α : Type u) (β : Type v) where
  | kept (pending : List α) (out : List β)
  | rejected
  | undefined

/-- The loop over the pending bytes. Each frame takes one byte at least, so `fuel` above the number
of bytes is enough. -/
def decode (parse : List α → Parsed β) : Nat → List α → List β → Outcome α β
  | 0, pending, out => .kept pending out
  | fuel + 1, pending, out =>
    match parse pending with
    | .more => .kept pending out
    | .bad => .rejected
    | .undefined => .undefined
    | .frame payload length => decode parse fuel (pending.drop length) (out ++ payload)

/-- One segment: it is added to the pending bytes, and whole frames are taken off. -/
def feed (parse : List α → Parsed β) (pending segment : List α) : Option (List α × List β) :=
  match decode parse ((pending ++ segment).length + 1) (pending ++ segment) [] with
  | .kept pending out => some (pending, out)
  | _ => none

/-- A frame with its payload: it is taken once something follows it, and at the end of what has
arrived, unless its payload is empty; no shorter part of it is. -/
structure IsFrame (parse : List α → Parsed β) (f : List α × List β) : Prop where
  ne_nil : f.1 ≠ []
  whole : ∀ rest, rest ≠ [] → parse (f.1 ++ rest) = .frame f.2 f.1.length
  last : parse f.1 = .frame f.2 f.1.length ∨ parse f.1 = .more ∧ f.2 = []
  part : ∀ q, q <+: f.1 → q ≠ f.1 → parse q = .more

/-- A frame behind a header of fixed length that tells its length. -/
theorem isFrame_of_header {parse : List α → Parsed β} {f : List α} {p : List β} {header : Nat}
    (hheader : header < f.length) (hshort : ∀ q : List α, q.length ≤ header → parse q = .more)
    (hpart : ∀ q, q <+: f → header < q.length → q.length < f.length → parse q = .more)
    (hwhole : ∀ rest, parse (f ++ rest) = .frame p f.length) : IsFrame parse (f, p) where
  ne_nil := by
    intro h
    rw [show f = [] from h] at hheader
    exact absurd hheader (Nat.not_lt_zero header)
  whole rest _ := hwhole rest
  last := by
    left
    have h := hwhole []
    rwa [List.append_nil] at h
  part q hq hne := by
    by_cases hlen : q.length ≤ header
    · exact hshort q hlen
    · apply hpart q hq (by omega)
      apply Nat.lt_of_le_of_ne hq.length_le
      intro heq
      exact hne (hq.eq_of_length heq)

/-- The bytes of frames. -/
def stream (fs : List (List α × List β)) : List α := (fs.map Prod.fst).flatten

/-- The payloads of frames. -/
def payload (fs : List (List α × List β)) : List β := (fs.map Prod.snd).flatten

/-- The payloads of the frames that lie within the first `n` bytes. -/
def arrived : List (List α × List β) → Nat → List β
  | [], _ => []
  | f :: fs, n => if f.1.length ≤ n then f.2 ++ arrived fs (n - f.1.length) else []

@[simp] theorem stream_nil : stream ([] : List (List α × List β)) = [] := rfl

@[simp] theorem stream_cons (f : List α × List β) (fs : List (List α × List β)) :
    stream (f :: fs) = f.1 ++ stream fs := rfl

@[simp] theorem stream_append (fs gs : List (List α × List β)) :
    stream (fs ++ gs) = stream fs ++ stream gs := by
  simp [stream]

@[simp] theorem payload_nil : payload ([] : List (List α × List β)) = [] := rfl

@[simp] theorem payload_cons (f : List α × List β) (fs : List (List α × List β)) :
    payload (f :: fs) = f.2 ++ payload fs := rfl

@[simp] theorem payload_append (fs gs : List (List α × List β)) :
    payload (fs ++ gs) = payload fs ++ payload gs := by
  simp [payload]

/-- The bytes of the frames of several messages. -/
theorem stream_flatMap {μ : Type*} (ms : List μ) (frames : μ → List (List α × List β)) :
    (ms.map fun m ↦ stream (frames m)).flatten = stream (ms.flatMap frames) := by
  induction ms with
  | nil => rfl
  | cons m ms ih => rw [List.map_cons, List.flatten_cons, ih, List.flatMap_cons, stream_append]

/-- The payloads of the frames of several messages. -/
theorem payload_flatMap {μ : Type*} (ms : List μ) (frames : μ → List (List α × List β)) :
    payload (ms.flatMap frames) = (ms.map fun m ↦ payload (frames m)).flatten := by
  induction ms with
  | nil => rfl
  | cons m ms ih => rw [List.flatMap_cons, payload_append, ih, List.map_cons, List.flatten_cons]

/-- Frames wholly arrived, and what has arrived behind them. -/
theorem arrived_append (fs gs : List (List α × List β)) (n : Nat) :
    arrived (fs ++ gs) ((stream fs).length + n) = payload fs ++ arrived gs n := by
  induction fs with
  | nil => simp
  | cons f fs ih =>
    have hle : f.1.length ≤ f.1.length + (stream fs).length + n := by omega
    have hsub : f.1.length + (stream fs).length + n - f.1.length = (stream fs).length + n := by omega
    rw [List.cons_append, stream_cons, List.length_append, arrived, if_pos hle, hsub, ih,
      payload_cons, List.append_assoc]

/-- When all frames have arrived, so have all payloads. -/
theorem arrived_all (fs : List (List α × List β)) : arrived fs (stream fs).length = payload fs := by
  have h := arrived_append fs [] 0
  rw [List.append_nil] at h
  rw [← Nat.add_zero (stream fs).length, h, arrived, List.append_nil]

/-- Before the first byte no frame has arrived. -/
theorem arrived_zero {fs : List (List α × List β)} (h : ∀ f ∈ fs, f.1 ≠ []) : arrived fs 0 = [] := by
  cases fs with
  | nil => rfl
  | cons f fs =>
    have hpos := List.length_pos_iff.mpr (h f List.mem_cons_self)
    rw [arrived, if_neg (by omega)]

/-- What is pending is the start of the frames to come, and the receiver waits for more. -/
structure Open (parse : List α → Parsed β) (fs : List (List α × List β)) (pending : List α) :
    Prop where
  isPrefix : pending <+: stream fs
  nothing : arrived fs pending.length = []

/-- The start of one frame is shorter than the frame, or goes beyond it. -/
theorem prefix_cases {f rest pending : List α} (h : pending <+: f ++ rest) :
    (pending <+: f ∧ pending ≠ f) ∨ ∃ more, pending = f ++ more ∧ more <+: rest := by
  by_cases hlen : pending.length < f.length
  · left
    refine ⟨List.prefix_of_prefix_length_le h (List.prefix_append f rest) (by omega), ?_⟩
    intro heq
    rw [heq] at hlen
    omega
  · right
    obtain ⟨more, hmore⟩ :=
      List.prefix_of_prefix_length_le (List.prefix_append f rest) h (by omega)
    refine ⟨more, hmore.symm, ?_⟩
    rw [← hmore] at h
    exact (List.prefix_append_right_inj f).mp h

/-- The loop takes off the whole frames and keeps the start of the next one. -/
theorem decode_frames {parse : List α → Parsed β} (hnil : parse [] = .more)
    {fs : List (List α × List β)} (hfs : ∀ f ∈ fs, IsFrame parse f) {pending : List α}
    (hpending : pending <+: stream fs) {fuel : Nat} (hfuel : pending.length < fuel)
    (out : List β) :
    ∃ done todo left, fs = done ++ todo ∧ pending = stream done ++ left ∧
      decode parse fuel pending out = .kept left (out ++ payload done) ∧ Open parse todo left := by
  induction fs generalizing pending fuel out with
  | nil =>
    obtain ⟨fuel, rfl⟩ : ∃ k, fuel = k + 1 := ⟨fuel - 1, by omega⟩
    have hp : pending = [] := List.prefix_nil.mp hpending
    subst hp
    refine ⟨[], [], [], rfl, rfl, ?_, List.prefix_refl [], rfl⟩
    simp [decode, hnil]
  | cons f fs ih =>
    obtain ⟨fuel, rfl⟩ : ∃ k, fuel = k + 1 := ⟨fuel - 1, by omega⟩
    have hf := hfs f List.mem_cons_self
    have hne : ∀ g ∈ f :: fs, g.1 ≠ [] := fun g hg ↦ (hfs g hg).ne_nil
    rcases prefix_cases hpending with ⟨hpart, hproper⟩ | ⟨more, rfl, hmore⟩
    · have hlt : pending.length < f.1.length := by
        rcases Nat.lt_or_ge pending.length f.1.length with hlt | hge
        · exact hlt
        · exact absurd (hpart.eq_of_length_le hge) hproper
      refine ⟨[], f :: fs, pending, rfl, rfl, ?_, hpending, ?_⟩
      · simp [decode, hf.part pending hpart hproper]
      · rw [arrived, if_neg (by omega)]
    · have hstep : parse (f.1 ++ more) = .frame f.2 f.1.length ∨
          (parse (f.1 ++ more) = .more ∧ f.2 = [] ∧ more = []) := by
        by_cases hm : more = []
        · subst hm
          rw [List.append_nil]
          rcases hf.last with h | h
          · exact .inl h
          · exact .inr ⟨h.1, h.2, rfl⟩
        · exact .inl (hf.whole more hm)
      rcases hstep with hframe | ⟨hwait, hempty, rfl⟩
      · have hpos := List.length_pos_iff.mpr hf.ne_nil
        rw [List.length_append] at hfuel
        have hfuel' : more.length < fuel := by omega
        obtain ⟨done, todo, left, rfl, rfl, hdecode, hopen⟩ :=
          ih (fun g hg ↦ hfs g (List.mem_cons_of_mem f hg)) hmore hfuel' (out ++ f.2)
        refine ⟨f :: done, todo, left, rfl, by simp, ?_, hopen⟩
        rw [decode, hframe]
        simp only [List.drop_left, hdecode, payload_cons, List.append_assoc]
      · rw [List.append_nil] at hwait hpending ⊢
        refine ⟨[], f :: fs, f.1, rfl, rfl, ?_, hpending, ?_⟩
        · simp [decode, hwait]
        · rw [arrived, if_pos (Nat.le_refl _), hempty, Nat.sub_self, List.nil_append]
          exact arrived_zero fun g hg ↦ hne g (List.mem_cons_of_mem f hg)

/-- One segment of a stream of frames. -/
theorem feed_frames {parse : List α → Parsed β} (hnil : parse [] = .more)
    {fs : List (List α × List β)} (hfs : ∀ f ∈ fs, IsFrame parse f) {pending segment : List α}
    (hpending : pending ++ segment <+: stream fs) :
    ∃ done todo left, fs = done ++ todo ∧ pending ++ segment = stream done ++ left ∧
      feed parse pending segment = some (left, payload done) ∧ Open parse todo left := by
  obtain ⟨done, todo, left, hsplit, hleft, hdecode, hopen⟩ :=
    decode_frames hnil hfs hpending (Nat.lt_succ_self _) []
  refine ⟨done, todo, left, hsplit, hleft, ?_, hopen⟩
  rw [feed, hdecode, List.nil_append]

/-- However a stream of frames is cut into segments, the receiver gives the payloads of the frames
that have arrived. -/
theorem outputs_feed {parse : List α → Parsed β} (hnil : parse [] = .more)
    {fs : List (List α × List β)} (hfs : ∀ f ∈ fs, IsFrame parse f) {pending : List α}
    (hopen : Open parse fs pending) {segments : List (List α)}
    (hsegments : pending ++ segments.flatten <+: stream fs) :
    Stream.outputs (feed parse) pending segments =
      some (arrived fs (pending ++ segments.flatten).length) := by
  induction segments generalizing fs pending with
  | nil =>
    rw [List.flatten_nil, List.append_nil, hopen.nothing]
    rfl
  | cons segment segments ih =>
    rw [List.flatten_cons, ← List.append_assoc] at hsegments ⊢
    obtain ⟨done, todo, left, rfl, hleft, hfeed, hopen'⟩ :=
      feed_frames hnil hfs ((List.prefix_append _ _).trans hsegments)
    rw [hleft, List.append_assoc, stream_append] at hsegments
    have hrest := ih (fun f hf ↦ hfs f (List.mem_append_right done hf)) hopen'
      ((List.prefix_append_right_inj (stream done)).mp hsegments)
    rw [Stream.outputs_cons hfeed, hrest, hleft, List.append_assoc,
      @List.length_append _ (stream done), arrived_append]
    rfl

/-- At the start a receiver waits for its first frame. -/
theorem open_nil {parse : List α → Parsed β} {fs : List (List α × List β)}
    (hfs : ∀ f ∈ fs, IsFrame parse f) : Open parse fs [] :=
  ⟨List.nil_prefix, arrived_zero fun f hf ↦ (hfs f hf).ne_nil⟩

/-- Each segment and what is pending before it have at most `limit` bytes. -/
def Fits (limit : Nat) (parse : List α → Parsed β) : List α → List (List α) → Prop
  | _, [] => True
  | pending, segment :: segments =>
    pending.length + segment.length ≤ limit ∧
      ∀ left out, feed parse pending segment = some (left, out) → Fits limit parse left segments

/-- A receiver whose memory holds `limit` bytes: what it keeps, and its output or an error. An error
in a frame empties the memory. The result is `none` where the behaviour is undefined. -/
def receive (limit : Nat) (parse : List α → Parsed β) (pending segment : List α) :
    Option (List α × Option (List β)) :=
  if limit < pending.length + segment.length then some (pending, none)
  else
    match decode parse ((pending ++ segment).length + 1) (pending ++ segment) [] with
    | .kept pending out => some (pending, some out)
    | .rejected => some ([], none)
    | .undefined => none

/-- A call with an output. -/
def accept (r : Option (List α × Option (List β))) : Option (List α × List β) :=
  r.bind fun r ↦ r.2.map (Prod.mk r.1)

/-- The bounded receiver does what `feed` does as long as the bytes fit. -/
theorem outputs_receive_eq {limit : Nat} {parse : List α → Parsed β} {pending : List α}
    {segments : List (List α)} (hfits : Fits limit parse pending segments) :
    Stream.outputs (fun p s ↦ accept (receive limit parse p s)) pending segments =
      Stream.outputs (feed parse) pending segments := by
  induction segments generalizing pending with
  | nil => rfl
  | cons segment segments ih =>
    obtain ⟨hlimit, hrest⟩ := hfits
    have hstep : accept (receive limit parse pending segment) = feed parse pending segment := by
      rw [receive, if_neg (by omega), feed]
      cases decode parse ((pending ++ segment).length + 1) (pending ++ segment) [] <;> rfl
    rw [Stream.outputs, Stream.outputs, hstep]
    cases hfeed : feed parse pending segment with
    | none => rfl
    | some r =>
      obtain ⟨left, out⟩ := r
      simp only
      rw [ih (hrest left out hfeed)]

/-- However a stream of frames is cut into segments that fit, the bounded receiver gives the payloads
of the frames that have arrived. -/
theorem outputs_receive {limit : Nat} {parse : List α → Parsed β} (hnil : parse [] = .more)
    {fs : List (List α × List β)} (hfs : ∀ f ∈ fs, IsFrame parse f) {segments : List (List α)}
    (hsegments : segments.flatten <+: stream fs) (hfits : Fits limit parse [] segments) :
    Stream.outputs (fun p s ↦ accept (receive limit parse p s)) [] segments =
      some (arrived fs segments.flatten.length) := by
  rw [outputs_receive_eq hfits, outputs_feed hnil hfs (open_nil hfs) hsegments, List.nil_append]

end OpenWrtCompile.Base.Framing
