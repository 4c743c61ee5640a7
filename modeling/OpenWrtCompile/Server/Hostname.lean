import OpenWrtCompile.Base.Search
import OpenWrtCompile.Server.Request
import Mathlib.Data.List.TakeWhile

/-!
# Host names on the wire

`netutils.c:57–58,262–297` of `shadowsocksr-libev/src/server`: `valid_label_bytes` and the loop of
`validate_hostname`, pass by pass, against the grammar of host names. The loop of `Request.lean`
has the same passes.
-/

namespace OpenWrtCompile.Server
open OpenWrtCompile.Base OpenWrtCompile.Base.Search

/-- `valid_label_bytes`. -/
def validLabelBytes : Bytes :=
  ascii "-0123456789ABCDEFGHIJKLMNOPQRSTUVWXYZ_abcdefghijklmnopqrstuvwxyz"

/-- One pass of the loop of `validate_hostname`: its result, or the offset of the next label. -/
def labelPass (host : Bytes) (n label : Nat) : Except Bool Nat :=
  if label < n then
    let labelLen := match (cString host label).idxOf? 0x2E with
      | some d => d
      | none => n - label
    if n < label + labelLen then .error false
    else if 63 < labelLen || labelLen < 1 then .error false
    else if host[label]?.getD 0 = 0x2D || host[label + labelLen - 1]?.getD 0 = 0x2D then
      .error false
    else if ((cString host label).takeWhile validLabelByte).length < labelLen then .error false
    else .ok (label + labelLen + 1)
  else .error true

/-- The loop, `none` when it has not left after `fuel` passes. -/
def scanLabels (host : Bytes) (n : Nat) : Nat → Nat → Option Bool
  | 0, _ => none
  | fuel + 1, label =>
    match labelPass host n label with
    | .error result => some result
    | .ok next => scanLabels host n fuel next

/-- Letters, digits, `-` and `_`. -/
def IsLabelByte (c : UInt8) : Prop :=
  (0x41 ≤ c ∧ c ≤ 0x5A) ∨ (0x61 ≤ c ∧ c ≤ 0x7A) ∨ (0x30 ≤ c ∧ c ≤ 0x39) ∨ c = 0x2D ∨ c = 0x5F

/-- One label of a host name. -/
structure IsLabel (l : Bytes) : Prop where
  pos : 1 ≤ l.length
  short : l.length ≤ 63
  bytes : ∀ c ∈ l, IsLabelByte c
  first : l.head? ≠ some 0x2D
  last : l.getLast? ≠ some 0x2D

/-- Labels joined by dots, with an optional final dot. -/
def IsHostname (s : Bytes) : Prop :=
  ∃ labels : List Bytes, labels ≠ [] ∧ (∀ l ∈ labels, IsLabel l) ∧
    (s = [0x2E].intercalate labels ∨ s = [0x2E].intercalate labels ++ [0x2E])

/-- What the loop can still accept at the start of a label: nothing, a last label, or a label with
its dot and what follows. -/
inductive Labels : Bytes → Prop where
  | done : Labels []
  | last {l : Bytes} (label : IsLabel l) : Labels l
  | more {l t : Bytes} (label : IsLabel l) (rest : Labels t) : Labels (l ++ 0x2E :: t)

/-! ### Label bytes -/

/-- The bytes that the model takes for letters of a label are those of the table. -/
theorem validLabelByte_eq (c : UInt8) : validLabelByte c = decide (c ∈ validLabelBytes) := by
  have h : ∀ n < 256, validLabelByte (.ofNat n) = decide (UInt8.ofNat n ∈ validLabelBytes) := by
    decide +kernel
  have hc := h c.toNat c.toNat_lt
  rwa [UInt8.ofNat_toNat] at hc

theorem validLabelByte_iff {c : UInt8} : validLabelByte c = true ↔ IsLabelByte c := by
  unfold validLabelByte IsLabelByte
  simp only [Bool.or_eq_true, Bool.and_eq_true, decide_eq_true_eq]
  tauto

theorem IsLabelByte.ne_zero {c : UInt8} (h : IsLabelByte c) : c ≠ 0 := by
  rintro rfl
  revert h
  unfold IsLabelByte
  decide

theorem IsLabelByte.ne_dot {c : UInt8} (h : IsLabelByte c) : c ≠ 0x2E := by
  rintro rfl
  revert h
  unfold IsLabelByte
  decide

theorem IsLabel.dot_not_mem {l : Bytes} (h : IsLabel l) : 0x2E ∉ l :=
  fun hm ↦ (h.bytes _ hm).ne_dot rfl

/-- `strspn` stops within a label exactly at a byte that is none of its letters. -/
theorem strspn_lt_iff (l r : Bytes) :
    ((l ++ r).takeWhile validLabelByte).length < l.length ↔ ∃ c ∈ l, ¬ IsLabelByte c := by
  induction l with
  | nil => simp
  | cons c l ih =>
    by_cases hc : validLabelByte c = true
    · rw [List.cons_append, List.takeWhile_cons_of_pos hc, List.length_cons, List.length_cons,
        Nat.add_lt_add_iff_right, ih]
      simp [validLabelByte_iff.mp hc]
    · rw [List.cons_append, List.takeWhile_cons_of_neg hc]
      have hbad : ¬ IsLabelByte c := fun h ↦ hc (validLabelByte_iff.mpr h)
      simp [hbad]

/-- The end of the string is no letter of a label, so `strspn` sees no more than the memory. -/
theorem takeWhile_cString (mem : Bytes) (i : Nat) :
    (cString mem i).takeWhile validLabelByte = (mem.drop i).takeWhile validLabelByte := by
  unfold cString
  induction mem.drop i with
  | nil => rfl
  | cons c t ih =>
    by_cases hc : validLabelByte c = true
    · have hne : c ≠ 0 := (validLabelByte_iff.mp hc).ne_zero
      rw [List.takeWhile_cons_of_pos (by simpa using hne), List.takeWhile_cons_of_pos hc,
        List.takeWhile_cons_of_pos hc, ih]
    · rw [List.takeWhile_cons_of_neg hc, List.takeWhile_cons]
      split
      · rw [List.takeWhile_cons_of_neg hc]
      · rfl

/-! ### One pass -/

/-- The tests of a pass over `k` bytes. -/
theorem labelPass_eq {mem : Bytes} {n i k : Nat} (hi : i < n) (hn : i + k ≤ n)
    (hlen : (match (cString mem i).idxOf? 0x2E with
      | some d => d
      | none => n - i) = k) :
    labelPass mem n i =
      if 63 < k || k < 1 then .error false
      else if mem[i]?.getD 0 = 0x2D || mem[i + k - 1]?.getD 0 = 0x2D then .error false
      else if ((cString mem i).takeWhile validLabelByte).length < k then .error false
      else .ok (i + k + 1) := by
  unfold labelPass
  rw [if_pos hi]
  simp only [hlen]
  rw [if_neg (by omega)]

/-- A label of the right size is one that passes the other tests. -/
theorem isLabel_iff_of_size {l : Bytes} (hsize : 1 ≤ l.length ∧ l.length ≤ 63) :
    IsLabel l ↔
      ¬ (l.head? = some 0x2D ∨ l.getLast? = some 0x2D) ∧ ¬ ∃ c ∈ l, ¬ IsLabelByte c := by
  constructor
  · intro h
    refine ⟨not_or.mpr ⟨h.first, h.last⟩, ?_⟩
    rintro ⟨c, hc, hbad⟩
    exact hbad (h.bytes c hc)
  · rintro ⟨hdash, hbytes⟩
    obtain ⟨hfirst, hlast⟩ := not_or.mp hdash
    refine ⟨hsize.1, hsize.2, fun c hc ↦ ?_, hfirst, hlast⟩
    by_contra hbad
    exact hbytes ⟨c, hc, hbad⟩

/-- A pass that stands at a label goes behind it and its dot; at anything else the loop ends. -/
theorem labelPass_of_label {mem l r : Bytes} {n i : Nat} (hmem : mem.drop i = l ++ r) (hi : i < n)
    (hn : i + l.length ≤ n)
    (hlen : (match (cString mem i).idxOf? 0x2E with
      | some d => d
      | none => n - i) = l.length) :
    (IsLabel l → labelPass mem n i = .ok (i + l.length + 1)) ∧
      (¬ IsLabel l → labelPass mem n i = .error false) := by
  rw [labelPass_eq hi hn hlen]
  by_cases hsize : 1 ≤ l.length ∧ l.length ≤ 63
  · have hfirst : mem[i]?.getD 0 = 0x2D ↔ l.head? = some 0x2D := by
      rw [← Nat.add_zero i, ← List.getElem?_drop, hmem]
      obtain ⟨a, t, rfl⟩ := List.exists_cons_of_length_pos hsize.1
      simp
    have hlast : mem[i + l.length - 1]?.getD 0 = 0x2D ↔ l.getLast? = some 0x2D := by
      rw [Nat.add_sub_assoc hsize.1, ← List.getElem?_drop, hmem,
        List.getElem?_append_left (by omega), List.getLast?_eq_getElem?,
        List.getElem?_eq_getElem (by omega)]
      simp
    have hspan : ((cString mem i).takeWhile validLabelByte).length < l.length ↔
        ∃ c ∈ l, ¬ IsLabelByte c := by
      rw [takeWhile_cString, hmem]
      exact strspn_lt_iff l r
    rw [if_neg (by simp only [Bool.or_eq_true, decide_eq_true_eq]; omega)]
    simp only [Bool.or_eq_true, decide_eq_true_eq, hfirst, hlast]
    rw [isLabel_iff_of_size hsize, ← hspan]
    constructor
    · rintro ⟨hdash, hbytes⟩
      rw [if_neg hdash, if_neg hbytes]
    · intro h
      split_ifs with hdash hbytes
      · rfl
      · rfl
      · exact absurd ⟨hdash, hbytes⟩ h
  · rw [if_pos (by simp only [Bool.or_eq_true, decide_eq_true_eq]; omega)]
    exact ⟨fun h ↦ absurd ⟨h.pos, h.short⟩ hsize, fun _ ↦ rfl⟩

/-- A pass that goes on has moved forward, to the byte behind the terminator at most. -/
theorem lt_of_labelPass {host : Bytes} {n i next : Nat} (h : labelPass host n i = .ok next) :
    i < n ∧ i < next ∧ next ≤ n + 1 := by
  unfold labelPass at h
  split at h
  · simp only at h
    generalize (match (cString host i).idxOf? 0x2E with
      | some d => d
      | none => n - i) = d at h
    split at h <;> try contradiction
    split at h <;> try contradiction
    split at h <;> try contradiction
    split at h <;> try contradiction
    cases h
    omega
  · contradiction

/-- No memory and no length lets the loop go on for ever. -/
theorem wellFounded_labelPass (host : Bytes) (n : Nat) :
    WellFounded fun next i ↦ labelPass host n i = .ok next := by
  refine Subrelation.wf ?_ (measure fun i ↦ n + 1 - i).wf
  intro next i h
  have := lt_of_labelPass h
  show n + 1 - next < n + 1 - i
  omega

/-- One pass for each byte, and one to leave, are enough. -/
theorem exists_scanLabels {host : Bytes} {n fuel i : Nat} (hpos : 0 < fuel) (h : n < fuel + i) :
    ∃ result, scanLabels host n fuel i = some result := by
  induction fuel generalizing i with
  | zero => omega
  | succ fuel ih =>
    unfold scanLabels
    cases hp : labelPass host n i with
    | error result => exact ⟨result, rfl⟩
    | ok next =>
      have := lt_of_labelPass hp
      exact ih (by omega) (by omega)

/-- The loop of the model has these passes. -/
theorem validateLabels_eq (host : Bytes) (n fuel i : Nat) :
    validateLabels host n fuel i = (scanLabels host n fuel i).getD false := by
  induction fuel generalizing i with
  | zero => rfl
  | succ fuel ih =>
    unfold validateLabels scanLabels labelPass
    by_cases hi : i < n
    · rw [if_pos hi, if_pos hi]
      cases (cString host i).idxOf? 0x2E <;> simp only [ih] <;> split_ifs <;> rfl
    · rw [if_neg hi, if_neg hi]
      rfl

/-! ### The grammar -/

/-- What follows the first dot is again labels. -/
theorem labels_append_iff {l t : Bytes} (h : 0x2E ∉ l) :
    Labels (l ++ 0x2E :: t) ↔ IsLabel l ∧ Labels t := by
  constructor
  · generalize hs : l ++ 0x2E :: t = s
    intro hl
    cases hl with
    | done => simp at hs
    | last label => exact absurd (hs ▸ by simp) label.dot_not_mem
    | more label rest =>
      obtain ⟨rfl, rfl⟩ := append_cons_inj h label.dot_not_mem hs
      exact ⟨label, rest⟩
  · rintro ⟨hl, ht⟩
    exact .more hl ht

/-- Without a dot there is one label, or nothing. -/
theorem labels_iff_of_dot_not_mem {l : Bytes} (h : 0x2E ∉ l) (hne : l ≠ []) :
    Labels l ↔ IsLabel l := by
  constructor
  · intro hl
    cases hl with
    | done => exact absurd rfl hne
    | last label => exact label
    | more label rest => simp at h
  · exact .last

theorem Labels.zero_not_mem {s : Bytes} (h : Labels s) : 0 ∉ s := by
  induction h with
  | done => simp
  | last label => exact fun hm ↦ (label.bytes 0 hm).ne_zero rfl
  | more label _ ih =>
    intro hm
    rcases List.mem_append.mp hm with hm | hm
    · exact (label.bytes 0 hm).ne_zero rfl
    · simp only [List.mem_cons] at hm
      exact ih (hm.resolve_left (by decide))

/-- Labels joined by dots are labels for the loop, with or without a final dot. -/
theorem labels_intercalate {labels : List Bytes} (h : ∀ l ∈ labels, IsLabel l) (hne : labels ≠ []) :
    Labels ([0x2E].intercalate labels) ∧ Labels ([0x2E].intercalate labels ++ [0x2E]) := by
  induction labels with
  | nil => exact absurd rfl hne
  | cons l labels ih =>
    have hl := h l List.mem_cons_self
    cases labels with
    | nil =>
      rw [List.intercalate_singleton]
      exact ⟨.last hl, .more hl .done⟩
    | cons m labels =>
      obtain ⟨h₁, h₂⟩ := ih (fun x hx ↦ h x (List.mem_cons_of_mem l hx)) (List.cons_ne_nil _ _)
      rw [List.intercalate_cons_cons, List.append_assoc, List.append_assoc, List.append_assoc]
      exact ⟨.more hl h₁, .more hl h₂⟩

/-- The labels that the loop accepts make a host name, once there is one. -/
theorem isHostname_iff {s : Bytes} : IsHostname s ↔ s ≠ [] ∧ Labels s := by
  constructor
  · rintro ⟨labels, hne, hlabels, hs⟩
    obtain ⟨h₁, h₂⟩ := labels_intercalate hlabels hne
    rcases hs with rfl | rfl
    · refine ⟨?_, h₁⟩
      cases labels with
      | nil => exact absurd rfl hne
      | cons l labels =>
        have hpos := (hlabels l List.mem_cons_self).pos
        intro hnil
        cases labels with
        | nil => simp_all
        | cons m labels => simp [List.intercalate_cons_cons] at hnil
    · exact ⟨by simp, h₂⟩
  · rintro ⟨hne, h⟩
    induction h with
    | done => exact absurd rfl hne
    | @last l label => exact ⟨[l], by simp, by simpa using label, .inl (by simp)⟩
    | @more l t label rest ih =>
      by_cases ht : t = []
      · subst ht
        exact ⟨[l], by simp, by simpa using label, .inr (by simp)⟩
      obtain ⟨labels, hls, hall, hs⟩ := ih ht
      obtain ⟨m, labels, rfl⟩ := List.exists_cons_of_ne_nil hls
      refine ⟨l :: m :: labels, by simp, List.forall_mem_cons.mpr ⟨label, hall⟩, ?_⟩
      rw [List.intercalate_cons_cons]
      rcases hs with rfl | rfl
      · exact .inl (by simp)
      · exact .inr (by simp)

/-- The string from a label on, with the terminator behind the name. -/
theorem cString_name (pre t rest : Bytes) :
    cString (pre ++ (t ++ 0 :: rest)) pre.length = t.takeWhile (· ≠ 0) := by
  unfold cString
  rw [List.drop_left]
  induction t with
  | nil => rfl
  | cons c t ih =>
    rw [List.cons_append, List.takeWhile_cons, List.takeWhile_cons, ih]

/-- Where a NUL does not hide a dot, the rest of the name is one label. -/
theorem labels_iff_of_last {t : Bytes} (ht : t ≠ []) (hd : 0x2E ∉ t.takeWhile (· ≠ 0)) :
    Labels t ↔ IsLabel t := by
  refine ⟨fun h ↦ ?_, .last⟩
  have hz : t.takeWhile (· ≠ 0) = t := by
    rw [List.takeWhile_eq_self_iff]
    intro c hc
    apply decide_eq_true
    rintro rfl
    exact h.zero_not_mem hc
  rw [hz] at hd
  exact (labels_iff_of_dot_not_mem hd ht).mp h

/-- Behind the name the loop ends with 1. -/
theorem labelPass_of_le {mem : Bytes} {n i : Nat} (h : n ≤ i) : labelPass mem n i = .error true := by
  unfold labelPass
  rw [if_neg (by omega)]

/-- From the start of a label on, the loop accepts exactly labels. -/
theorem scanLabels_iff (rest t pre : Bytes) (fuel : Nat) (hf : t.length < fuel) :
    scanLabels (pre ++ (t ++ 0 :: rest)) (pre.length + t.length) fuel pre.length = some true ↔
      Labels t := by
  induction fuel generalizing t pre with
  | zero => omega
  | succ fuel ih =>
    have hmem : (pre ++ (t ++ 0 :: rest)).drop pre.length = t ++ 0 :: rest := List.drop_left
    unfold scanLabels
    by_cases ht : t = []
    · subst ht
      rw [List.length_nil, Nat.add_zero, labelPass_of_le (Nat.le_refl _)]
      simp [Labels.done]
    have hpos : 0 < t.length := List.length_pos_iff.mpr ht
    have hstring := cString_name pre t rest
    cases hd : (t.takeWhile (· ≠ 0)).idxOf? 0x2E with
    | some d =>
      -- a label, its dot, and the rest of the name
      obtain ⟨l, b, hcut, rfl, hl⟩ := exists_cut_of_idxOf? hd
      obtain ⟨u, rfl⟩ : ∃ u, t = l ++ 0x2E :: u := by
        obtain ⟨v, hv⟩ := List.takeWhile_prefix (l := t) (p := (· ≠ 0))
        exact ⟨b ++ v, by rw [← hv, hcut]; simp⟩
      have hpass := labelPass_of_label (n := pre.length + (l ++ 0x2E :: u).length) (l := l)
        (hmem.trans (List.append_assoc ..)) (by omega) (by simp) (by rw [hstring]; simp only [hd])
      rw [labels_append_iff hl]
      by_cases hlabel : IsLabel l
      · rw [hpass.1 hlabel]
        have hnext := ih u (pre ++ l ++ [0x2E]) (by simp at hf; omega)
        have hlen : (pre ++ l ++ [0x2E]).length = pre.length + l.length + 1 := by
          simp [Nat.add_assoc]
        have hname : pre.length + (l ++ 0x2E :: u).length =
            (pre ++ l ++ [0x2E]).length + u.length := by simp; omega
        have hmem' : pre ++ (l ++ 0x2E :: u ++ 0 :: rest) =
            pre ++ l ++ [0x2E] ++ (u ++ 0 :: rest) := by simp
        rw [hname, hmem', ← hlen]
        simp only [hnext, hlabel, true_and]
      · rw [hpass.2 hlabel]
        simp [hlabel]
    | none =>
      -- the last label, unless a NUL hides the next dot
      have hpass := labelPass_of_label (n := pre.length + t.length) (l := t) hmem (by omega) le_rfl
        (by rw [hstring]; simp only [hd, Nat.add_sub_cancel_left])
      rw [labels_iff_of_last ht (List.idxOf?_eq_none_iff.mp hd)]
      by_cases hlabel : IsLabel t
      · rw [hpass.1 hlabel]
        obtain ⟨fuel, rfl⟩ := Nat.exists_eq_succ_of_ne_zero (show fuel ≠ 0 by omega)
        simp [scanLabels, labelPass_of_le, hlabel]
      · rw [hpass.2 hlabel]
        simp [hlabel]

/-- For every name with a terminator behind it, the loop of `validate_hostname` ends and the result
is 1 exactly for 1 to 255 bytes of a host name, none of which is NUL. -/
theorem validateHostname_iff (s rest : Bytes) :
    (∀ host : Bytes, ∀ n, WellFounded fun next i ↦ labelPass host n i = .ok next) ∧
    (∃ result, scanLabels (s ++ 0 :: rest) s.length (s.length + 1) 0 = some result) ∧
    (validateHostname (s ++ 0 :: rest) s.length = true ↔
      (1 ≤ s.length ∧ s.length ≤ 255) ∧ IsHostname s ∧ 0 ∉ s) := by
  refine ⟨wellFounded_labelPass, exists_scanLabels (by omega) (by omega), ?_⟩
  have hloop := scanLabels_iff rest s [] (s.length + 1) (by omega)
  simp only [List.nil_append, List.length_nil, Nat.zero_add] at hloop
  unfold validateHostname
  by_cases hlen : 1 ≤ s.length ∧ s.length ≤ 255
  · rw [if_neg (by simp only [Bool.or_eq_true, decide_eq_true_eq]; omega)]
    have hne : s ≠ [] := List.length_pos_iff.mp hlen.1
    have haccept : validateLabels (s ++ 0 :: rest) s.length (s.length + 1) 0 = true ↔ Labels s := by
      rw [validateLabels_eq, ← hloop]
      cases scanLabels (s ++ 0 :: rest) s.length (s.length + 1) 0 <;> simp
    have hname : (IsHostname s ∧ 0 ∉ s) ↔ Labels s := by
      rw [isHostname_iff]
      exact ⟨fun h ↦ h.1.2, fun h ↦ ⟨⟨hne, h⟩, h.zero_not_mem⟩⟩
    rw [hname]
    split
    next hdot =>
      -- a leading dot is also what the loop takes for an empty label
      obtain ⟨c, t, rfl⟩ := List.exists_cons_of_ne_nil hne
      obtain rfl : c = 0x2E := hdot
      have hnone : ¬ Labels (0x2E :: t) := fun h ↦
        absurd ((labels_append_iff (l := []) (by simp)).mp h).1.pos (by simp)
      simp [hnone]
    · rw [haccept]
      simp [hlen]
  · rw [if_pos (by simp only [Bool.or_eq_true, decide_eq_true_eq]; omega)]
    simp [hlen]

end OpenWrtCompile.Server
