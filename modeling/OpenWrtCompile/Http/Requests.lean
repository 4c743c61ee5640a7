import OpenWrtCompile.Base.Stream
import OpenWrtCompile.Http.Simple

/-!
# A request stream in segments

The bytes that a client sends arrive in segments, each with the memory that `server_decode` finds
then. The first segments may wait for the end of the header; the segment that completes it is
delivered with `datalength` counted from its own start, not from that of what was received.
-/

namespace OpenWrtCompile.Http
open OpenWrtCompile.Base Stream

/-- A segment and the memory it is decoded in. -/
abbrev Segment := Bytes × Memory

/-- The bytes of segments. -/
def bytes (segs : List Segment) : Bytes := (segs.map Prod.fst).flatten

/-- `server_decode` as the server calls it: the return value -1 ends the connection. -/
def serverStep (o : HttpObfs) (s : Segment) : Option (HttpObfs × Bytes) :=
  match httpSimpleServerDecode s.2 o s.1 with
  | some (o, some out) => some (o, out)
  | _ => none

/-- A server that has `recv` of a request and waits for more. -/
def waiting (server : ServerInfo) (recv : Bytes) : HttpObfs := ⟨server, ⟨false, false, false, recv⟩⟩

/-- `server_decode` waits when it has received `recv`. -/
def Waits (recv : Bytes) (mem : Memory) : Prop :=
  10 < recv.length ∧ recv.length ≤ 65536 ∧ strstr (recv ++ mem.behind) blankLine = none

/-- `server_decode` waits after each segment, when it had received `recv` before. -/
def AllWait : Bytes → List Segment → Prop
  | _, [] => True
  | recv, s :: segs => Waits (recv ++ s.1) s.2 ∧ AllWait (recv ++ s.1) segs

/-- The host of the request in `recv` passes the check. -/
def HostAccepted (server : ServerInfo) (mem : Memory) (recv : Bytes) : Prop :=
  (checkHost mem (waiting server recv)).map Prod.snd = some true

/-- `server_decode` finds the header whole with segment `s` and puts `out` out. -/
def Completes (server : ServerInfo) (recv : Bytes) (s : Segment) (out : Bytes) : Prop :=
  10 < (recv ++ s.1).length ∧ (recv ++ s.1).length ≤ 65536 ∧ HostAccepted server s.2 (recv ++ s.1) ∧
    ∃ i, strstr (recv ++ s.1 ++ s.2.behind) blankLine = some i ∧ i + 4 ≤ s.1.length ∧
      getDataFromHttpHeader s.2.behindHex (recv ++ s.1 ++ s.2.behind) ≠ [] ∧
        out = getDataFromHttpHeader s.2.behindHex (recv ++ s.1 ++ s.2.behind) ++
          window (recv ++ s.1) (i + 4) (s.1.length - (i + 4))

/-- A request that is neither too short nor too long is searched for the end of its header. -/
theorem serverDecode_search {plugin : Plugin} (server : ServerInfo) {recv : Bytes} {s : Segment}
    (hs : s.1 ≠ []) (hbegin : plugin.method ++ ascii " /" <+: recv ++ s.1)
    (hlong : 10 < (recv ++ s.1).length) (hsize : (recv ++ s.1).length ≤ 65536) :
    httpSimpleServerDecode s.2 (waiting server recv) s.1 =
      match strstr (recv ++ s.1 ++ s.2.behind) blankLine with
      | none => some (waiting server (recv ++ s.1), some [])
      | some i => completeHeader s.2 (waiting server (recv ++ s.1)) (recv ++ s.1 ++ s.2.behind)
          s.1.length (i + 4) := by
  have hmethod := strstr_method plugin (recv ++ s.1) hbegin
  have hshort : ¬ (recv ++ s.1).length ≤ 10 := Nat.not_le.mpr hlong
  have hover : ¬ 65536 < (recv ++ s.1).length := Nat.not_lt.mpr hsize
  have hother : ¬ (strstr (recv ++ s.1) (ascii "GET /") ≠ some 0 ∧
      strstr (recv ++ s.1) (ascii "POST /") ≠ some 0) := by
    rintro ⟨hget, hpost⟩
    exact hmethod.elim hget hpost
  unfold httpSimpleServerDecode waiting
  cases hfind : strstr (recv ++ s.1 ++ s.2.behind) blankLine <;>
    simp only [Bool.false_eq_true, if_false, hshort, hover, hother, hs, ne_eq, not_false_eq_true,
      if_true, hfind]

/-- No byte is put out while the server waits. -/
theorem serverStep_of_waits {plugin : Plugin} (server : ServerInfo) {recv : Bytes} {s : Segment}
    (hs : s.1 ≠ []) (hbegin : plugin.method ++ ascii " /" <+: recv ++ s.1)
    (h : Waits (recv ++ s.1) s.2) :
    serverStep (waiting server recv) s = some (waiting server (recv ++ s.1), []) := by
  obtain ⟨hlong, hsize, hnone⟩ := h
  unfold serverStep
  rw [serverDecode_search server hs hbegin hlong hsize, hnone]

/-- A step that does not wait completes the header. -/
theorem serverStep_eq_some {server : ServerInfo} {recv : Bytes} {s : Segment} {o : HttpObfs}
    {out : Bytes} (hs : s.1 ≠ []) (h : serverStep (waiting server recv) s = some (o, out)) :
    Waits (recv ++ s.1) s.2 ∨ o.localData.hasRecvHeader = true ∧ Completes server recv s out := by
  unfold serverStep httpSimpleServerDecode waiting at h
  simp only [Bool.false_eq_true, if_false, ne_eq, hs, not_false_eq_true, if_true] at h
  by_cases hshort : (recv ++ s.1).length ≤ 10
  · simp only [hshort, if_true] at h
    cases h
  simp only [hshort, if_false] at h
  split at h
  · next o' out' hdecode =>
    cases h
    split at hdecode
    · cases hdecode
    split at hdecode
    · cases hdecode
    next hsize =>
    cases hfind : strstr (recv ++ s.1 ++ s.2.behind) blankLine with
    | none =>
      left
      exact ⟨Nat.lt_of_not_le hshort, Nat.le_of_not_lt hsize, hfind⟩
    | some i =>
      right
      rw [hfind] at hdecode
      simp only at hdecode
      unfold completeHeader at hdecode
      simp only at hdecode
      split at hdecode
      · cases hdecode
      · cases hdecode
      · next o₁ hcheck =>
        split at hdecode
        · cases hdecode
        next hret =>
        split at hdecode
        · cases hdecode
        next hlen =>
        cases hdecode
        have hle : i + 4 ≤ s.1.length := Nat.le_of_not_lt hlen
        refine ⟨rfl, Nat.lt_of_not_le hshort, Nat.le_of_not_lt hsize, ?_, i, hfind, hle, hret, ?_⟩
        · exact congrArg (Option.map Prod.snd) hcheck
        · rw [window_append]
          rw [List.length_append]
          omega
  · cases h

/-- A segment that completes the header is delivered. -/
theorem serverStep_of_completes {plugin : Plugin} {server : ServerInfo} {recv : Bytes}
    {s : Segment} {out : Bytes} (hs : s.1 ≠ [])
    (hbegin : plugin.method ++ ascii " /" <+: recv ++ s.1) (h : Completes server recv s out) :
    ∃ o, serverStep (waiting server recv) s = some (o, out) ∧
      o.localData.hasRecvHeader = true := by
  obtain ⟨hlong, hsize, hhost, i, hfind, hle, hret, rfl⟩ := h
  obtain ⟨⟨o, ok⟩, hcheck, hok⟩ := Option.map_eq_some_iff.mp hhost
  cases hok
  have hnot : ¬ s.1.length < i + 4 := Nat.not_lt.mpr hle
  have hwindow := @window_append (recv ++ s.1) s.2.behind (i + 4)
    (s.1.length - (i + 4)) (by rw [List.length_append]; omega)
  refine ⟨⟨o.server, { o.localData with hasRecvHeader := true }⟩, ?_, rfl⟩
  unfold serverStep
  rw [serverDecode_search server hs hbegin hlong hsize, hfind]
  simp only [completeHeader, hcheck, hret, hnot, if_false, hwindow]

/-- Behind the header every segment is handed on. -/
theorem outputs_serverStep_of_done {o : HttpObfs} (h : o.localData.hasRecvHeader = true)
    (segs : List Segment) : outputs serverStep o segs = some (bytes segs) := by
  apply outputs_of_steady
  intro s
  unfold serverStep httpSimpleServerDecode
  simp only [h, if_true]

/-- The bytes of the first segment and of the rest. -/
theorem bytes_cons (s : Segment) (segs : List Segment) : bytes (s :: segs) = s.1 ++ bytes segs := rfl

/-- The bytes of two lists of segments. -/
theorem bytes_append (segs more : List Segment) :
    bytes (segs ++ more) = bytes segs ++ bytes more := by
  unfold bytes
  rw [List.map_append, List.flatten_append]

/-- Segments that all wait are some that wait and a last one that does. -/
theorem allWait_append {recv : Bytes} {pre : List Segment} {s : Segment} :
    AllWait recv (pre ++ [s]) ↔ AllWait recv pre ∧ Waits (recv ++ bytes pre ++ s.1) s.2 := by
  induction pre generalizing recv with
  | nil =>
    have hnil : bytes [] = [] := rfl
    simp only [List.nil_append, AllWait, hnil, List.append_nil, and_true, true_and]
  | cons p pre ih =>
    rw [List.cons_append, AllWait, ih, AllWait, bytes_cons, and_assoc, List.append_assoc recv p.1]

/-- What a run over the segments of a request puts out: nothing while all wait, else the output of
the segment that completes the header and all that follows. -/
theorem outputs_serverStep_iff {plugin : Plugin} {server : ServerInfo} {segs : List Segment}
    (hne : ∀ s ∈ segs, s.1 ≠ []) {recv wire out : Bytes} (hwire : recv ++ bytes segs = wire)
    (hbegin : plugin.method ++ ascii " /" <+: wire) :
    outputs serverStep (waiting server recv) segs = some out ↔
      (AllWait recv segs ∧ out = []) ∨
        ∃ pre s post chunk, segs = pre ++ s :: post ∧ AllWait recv pre ∧
          Completes server (recv ++ bytes pre) s chunk ∧ out = chunk ++ bytes post := by
  induction segs generalizing recv out with
  | nil =>
    simp [outputs, AllWait, eq_comm]
  | cons s segs ih =>
    have hs := hne s List.mem_cons_self
    have hsegs : ∀ t ∈ segs, t.1 ≠ [] := fun t ht ↦ hne t (List.mem_cons_of_mem s ht)
    rw [bytes_cons, ← List.append_assoc] at hwire
    have hmethod (h : 10 < (recv ++ s.1).length) :
        plugin.method ++ ascii " /" <+: recv ++ s.1 := by
      apply List.prefix_of_prefix_length_le hbegin ⟨_, hwire⟩
      cases plugin with
      | httpSimple => exact Nat.le_trans (by decide) (Nat.le_of_lt h)
      | httpPost => exact Nat.le_trans (by decide) (Nat.le_of_lt h)
    have hnil : bytes [] = [] := rfl
    constructor
    · intro h
      cases hstep : serverStep (waiting server recv) s with
      | none =>
        rw [outputs, hstep] at h
        cases h
      | some r =>
        obtain ⟨o, chunk⟩ := r
        rw [outputs_cons hstep] at h
        obtain ⟨rest, hrest, rfl⟩ := Option.map_eq_some_iff.mp h
        rcases serverStep_eq_some hs hstep with hw | ⟨hdone, hcomp⟩
        · rw [serverStep_of_waits server hs (hmethod hw.1) hw] at hstep
          cases hstep
          rcases (ih hsegs hwire).mp hrest with ⟨hall, rfl⟩ | ⟨pre, t, post, c, rfl, hall, hc, rfl⟩
          · exact .inl ⟨⟨hw, hall⟩, rfl⟩
          · rw [List.append_assoc] at hc
            exact .inr ⟨s :: pre, t, post, c, rfl, ⟨hw, hall⟩, hc, rfl⟩
        · rw [outputs_serverStep_of_done hdone] at hrest
          cases hrest
          refine .inr ⟨[], s, segs, chunk, rfl, trivial, ?_, rfl⟩
          rw [hnil, List.append_nil]
          exact hcomp
    · rintro (⟨⟨hw, hall⟩, rfl⟩ | ⟨pre, t, post, chunk, hsplit, hall, hcomp, rfl⟩)
      · have hstep := serverStep_of_waits server hs (hmethod hw.1) hw
        rw [outputs_cons hstep, (ih hsegs hwire).mpr (.inl ⟨hall, rfl⟩)]
        rfl
      · cases pre with
        | nil =>
          rw [List.nil_append] at hsplit
          cases hsplit
          rw [hnil, List.append_nil] at hcomp
          obtain ⟨o, hstep, hdone⟩ := serverStep_of_completes hs (hmethod hcomp.1) hcomp
          rw [outputs_cons hstep, outputs_serverStep_of_done hdone]
          rfl
        | cons p pre =>
          rw [List.cons_append] at hsplit
          cases hsplit
          obtain ⟨hw, hall⟩ := hall
          have hstep := serverStep_of_waits server hs (hmethod hw.1) hw
          rw [bytes_cons, ← List.append_assoc] at hcomp
          rw [outputs_cons hstep,
            (ih hsegs hwire).mpr (.inr ⟨pre, t, post, chunk, rfl, hall, hcomp, rfl⟩)]
          rfl

end OpenWrtCompile.Http
