import OpenWrtCompile.Base.Framing

/-!
# Decoders in a row

A decoder takes a code piece by piece and gives the data that has arrived. `Decodes` says that it
refuses no piece of a code that stands for something, and gives the data in order, however the code is
cut. What one decoder gives, another one may take, as long as its pieces are short enough for it.
-/

namespace OpenWrtCompile.Base

universe u v w x y

/-- A decoder: what a piece of the code gives in a state. It is `none` where the piece is refused. -/
abbrev Decoder (σ : Type u) (α : Type v) (β : Type w) := σ → List α → Option (σ × List β)

namespace Decoder

variable {σ : Type u} {τ : Type v} {α : Type w} {β : Type x} {γ : Type y}

/-- `reads s code data`: behind what the decoder has taken up to the state `s`, `code` stands for
`data`. Of a piece of `n` elements at most the decoder gives `m` elements at most. -/
structure Decodes (d : Decoder σ α β) (reads : σ → List α → List β → Prop) (n m : Nat) : Prop where
  piece : ∀ s l rest data, reads s (l ++ rest) data → l.length ≤ n →
    ∃ s' out more, d s l = some (s', out) ∧ data = out ++ more ∧ out.length ≤ m ∧ reads s' rest more
  empty : ∀ s data, reads s [] data → data = []

/-- The decoder that gives what it takes. -/
def pass (σ : Type u) (α : Type w) : Decoder σ α α := fun s l ↦ some (s, l)

/-- It reads a code as itself. -/
theorem decodes_pass (σ : Type u) (α : Type w) {n m : Nat} (hm : n ≤ m) :
    Decodes (pass σ α) (fun _ code data ↦ code = data) n m where
  piece s l rest _ h hl := ⟨s, l, rest, rfl, h.symm, hl.trans hm, rfl⟩
  empty _ _ h := h.symm

/-- One decoder behind another. -/
def andThen (d : Decoder σ α β) (e : Decoder τ β γ) : Decoder (σ × τ) α γ := fun s l ↦
  (d s.1 l).bind fun r ↦ (e s.2 r.2).map fun q ↦ ((r.1, q.1), q.2)

/-- A code that stands for the code of the data. -/
def Through (reads : σ → List α → List β → Prop) (reads' : τ → List β → List γ → Prop) (s : σ × τ)
    (code : List α) (data : List γ) : Prop := ∃ mid, reads s.1 code mid ∧ reads' s.2 mid data

/-- Two decoders decode a code of a code. -/
theorem Decodes.andThen {d : Decoder σ α β} {e : Decoder τ β γ} {reads : σ → List α → List β → Prop}
    {reads' : τ → List β → List γ → Prop} {n m m' k : Nat} (hd : Decodes d reads n m)
    (he : Decodes e reads' m' k) (hm : m ≤ m') :
    Decodes (d.andThen e) (Through reads reads') n k where
  piece s l rest data h hl := by
    obtain ⟨mid, hmid, hdata⟩ := h
    obtain ⟨s', out, more, hstep, rfl, hout, hrest⟩ := hd.piece s.1 l rest mid hmid hl
    obtain ⟨t', out', more', hstep', rfl, hout', hrest'⟩ :=
      he.piece s.2 out more data hdata (hout.trans hm)
    refine ⟨(s', t'), out', more', ?_, rfl, hout', more, hrest, hrest'⟩
    rw [Decoder.andThen, hstep, Option.bind_some, hstep', Option.map_some]
  empty s data h := by
    obtain ⟨mid, hmid, hdata⟩ := h
    rw [hd.empty s.1 mid hmid] at hdata
    exact he.empty s.2 data hdata

/-- A decoder that does what another one does, on a state that stands for its state. -/
theorem Decodes.follow {d : Decoder σ α β} {e : Decoder τ α β} {reads : σ → List α → List β → Prop}
    {n m : Nat} (h : Decodes d reads n m) (view : τ → σ → Prop)
    (hstep : ∀ t s l s' out, view t s → d s l = some (s', out) →
      ∃ t', e t l = some (t', out) ∧ view t' s') :
    Decodes e (fun t code data ↦ ∃ s, view t s ∧ reads s code data) n m where
  piece t l rest data hreads hl := by
    obtain ⟨s, hview, hs⟩ := hreads
    obtain ⟨s', out, more, hd, hdata, hout, hrest⟩ := h.piece s l rest data hs hl
    obtain ⟨t', he, hview'⟩ := hstep t s l s' out hview hd
    exact ⟨t', out, more, he, hdata, hout, s', hview', hrest⟩
  empty t data hreads := by
    obtain ⟨s, -, hs⟩ := hreads
    exact h.empty s data hs

/-- However a code is cut, the pieces give the first part of the data, and what is left stands for the
rest. -/
theorem Decodes.runAll {d : Decoder σ α β} {reads : σ → List α → List β → Prop} {n m : Nat}
    (h : Decodes d reads n m) {s : σ} {pieces : List (List α)} {rest : List α} {data : List β}
    (hs : reads s (pieces.flatten ++ rest) data) (hn : ∀ l ∈ pieces, l.length ≤ n) :
    ∃ s' out more, Stream.runAll d s pieces = some (s', out) ∧ data = out ++ more ∧
      reads s' rest more := by
  induction pieces generalizing s data with
  | nil => exact ⟨s, [], data, rfl, rfl, hs⟩
  | cons l pieces ih =>
    obtain ⟨hl, hn⟩ := List.forall_mem_cons.mp hn
    rw [List.flatten_cons, List.append_assoc] at hs
    obtain ⟨s₁, out, more, hstep, rfl, -, hrest⟩ := h.piece s l _ data hs hl
    obtain ⟨s', out', more', hrun, rfl, hdone⟩ := ih hrest hn
    refine ⟨s', out ++ out', more', ?_, (List.append_assoc _ _ _).symm, hdone⟩
    rw [Stream.runAll, hstep, Option.bind_some, hrun, Option.map_some]

end Decoder

/-! ## Frames -/

namespace Framing

variable {α : Type w} {β : Type x}

/-- The loop stops where it waits for more. -/
theorem parse_of_decode {parse : List α → Parsed β} {fuel : Nat} {pending left : List α}
    {out out' : List β} (hpos : ∀ payload length, parse [] ≠ .frame payload length)
    (hlen : ∀ b payload length, parse b = .frame payload length → 0 < length)
    (hfuel : pending.length < fuel) (h : decode parse fuel pending out = .kept left out') :
    parse left = .more := by
  induction fuel generalizing pending out with
  | zero => omega
  | succ fuel ih =>
    rw [decode] at h
    split at h
    · next hmore =>
      cases h
      exact hmore
    · cases h
    · cases h
    · next payload length hframe =>
      refine ih ?_ h
      have hne : pending ≠ [] := by
        rintro rfl
        exact hpos _ _ hframe
      have := hlen _ _ _ hframe
      have := List.length_pos_iff.mpr hne
      rw [List.length_drop]
      omega

/-- Frames of `limit` elements at most, whose payload is no longer. -/
def Bounded (parse : List α → Parsed β) (limit : Nat) (fs : List (List α × List β)) : Prop :=
  ∀ f ∈ fs, IsFrame parse f ∧ f.2.length ≤ f.1.length ∧ f.1.length ≤ limit

/-- What is pending and what comes are frames that carry the data. The receiver waits for more. -/
def Reads (parse : List α → Parsed β) (limit : Nat) (pending code : List α) (data : List β) : Prop :=
  parse pending = .more ∧ ∃ fs, Bounded parse limit fs ∧ pending ++ code = stream fs ∧
    data = payload fs

/-- A receiver that waits has one frame at most. -/
theorem length_le_of_more {parse : List α → Parsed β} {limit : Nat} {fs : List (List α × List β)}
    {pending : List α} (hfs : Bounded parse limit fs) (hpending : pending <+: stream fs)
    (hmore : parse pending = .more) : pending.length ≤ limit := by
  cases fs with
  | nil =>
    rw [List.prefix_nil.mp hpending]
    exact Nat.zero_le _
  | cons f fs =>
    obtain ⟨hf, -, hlimit⟩ := hfs f List.mem_cons_self
    rcases prefix_cases hpending with ⟨hpart, -⟩ | ⟨more, rfl, -⟩
    · exact hpart.length_le.trans hlimit
    · by_cases hm : more = []
      · rwa [hm, List.append_nil]
      · rw [hf.whole more hm] at hmore
        cases hmore

/-- The payload of frames is no longer than they are. -/
theorem length_payload_le {parse : List α → Parsed β} {limit : Nat} {fs : List (List α × List β)}
    (hfs : Bounded parse limit fs) : (payload fs).length ≤ (stream fs).length := by
  induction fs with
  | nil => exact Nat.le_refl _
  | cons f fs ih =>
    obtain ⟨hf, hfs⟩ := List.forall_mem_cons.mp hfs
    rw [payload_cons, stream_cons, List.length_append, List.length_append]
    exact Nat.add_le_add hf.2.1 (ih hfs)

/-- A receiver of frames is a decoder. -/
theorem decodes_feed {parse : List α → Parsed β} (hnil : parse [] = .more)
    (hlen : ∀ b payload length, parse b = .frame payload length → 0 < length) (limit n : Nat) :
    Decoder.Decodes (feed parse) (Reads parse limit) n (limit + n) where
  piece pending l rest data h hl := by
    obtain ⟨hmore, fs, hfs, hcode, rfl⟩ := h
    rw [← List.append_assoc] at hcode
    have hpending : pending ++ l <+: stream fs := ⟨rest, hcode⟩
    have hlimit := length_le_of_more hfs ((List.prefix_append _ l).trans hpending) hmore
    obtain ⟨done, todo, left, rfl, hsplit, hfeed, hopen⟩ :=
      feed_frames hnil (fun f hf ↦ (hfs f hf).1) hpending
    refine ⟨left, payload done, payload todo, hfeed, payload_append done todo, ?_, ?_, todo,
      fun f hf ↦ hfs f (List.mem_append_right done hf), ?_, rfl⟩
    · have hle := length_payload_le (fun f hf ↦ hfs f (List.mem_append_left todo hf))
      have hlength := congrArg List.length hsplit
      rw [List.length_append, List.length_append] at hlength
      omega
    · unfold feed at hfeed
      split at hfeed
      · next hkept =>
        cases hfeed
        refine parse_of_decode (fun payload length hframe ↦ ?_) hlen (Nat.lt_succ_self _) hkept
        rw [hnil] at hframe
        cases hframe
      · cases hfeed
    · rw [hsplit, stream_append, List.append_assoc] at hcode
      exact List.append_cancel_left hcode
  empty pending data h := by
    obtain ⟨hmore, fs, hfs, hcode, rfl⟩ := h
    rw [List.append_nil] at hcode
    cases fs with
    | nil => rfl
    | cons f fs =>
      obtain ⟨⟨hf, -⟩, hothers⟩ := List.forall_mem_cons.mp hfs
      rw [hcode, stream_cons] at hmore
      by_cases hrest : stream fs = []
      · rw [hrest, List.append_nil] at hmore
        rcases hf.last with hframe | ⟨-, hempty⟩
        · rw [hframe] at hmore
          cases hmore
        · have hle := length_payload_le hothers
          rw [hrest, List.length_nil, Nat.le_zero, List.length_eq_zero_iff] at hle
          rw [payload_cons, hempty, hle, List.append_nil]
      · rw [hf.whole _ hrest] at hmore
        cases hmore

/-- The bounded receiver does what `feed` does with a segment that fits. -/
theorem accept_receive {parse : List α → Parsed β} {room : Nat} {pending l : List α}
    (hfits : pending.length + l.length ≤ room) :
    accept (receive room parse pending l) = feed parse pending l := by
  rw [receive, if_neg (Nat.not_lt.mpr hfits), feed]
  cases decode parse ((pending ++ l).length + 1) (pending ++ l) [] <;> rfl

/-- So is a bounded receiver with room for a frame and a segment. -/
theorem decodes_receive {parse : List α → Parsed β} (hnil : parse [] = .more)
    (hlen : ∀ b payload length, parse b = .frame payload length → 0 < length) {limit n room : Nat}
    (hroom : limit + n ≤ room) :
    Decoder.Decodes (fun p l ↦ accept (receive room parse p l)) (Reads parse limit) n
      (limit + n) where
  piece pending l rest data h hl := by
    obtain ⟨hmore, fs, hfs, hcode, -⟩ := id h
    have hlimit := length_le_of_more hfs ⟨l ++ rest, hcode⟩ hmore
    rw [accept_receive (by omega)]
    exact (decodes_feed hnil hlen limit n).piece pending l rest data h hl
  empty pending data h := (decodes_feed hnil hlen limit n).empty pending data h

end Framing

end OpenWrtCompile.Base
