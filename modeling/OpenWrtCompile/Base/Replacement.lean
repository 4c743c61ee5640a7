import OpenWrtCompile.Base.Bytes
import OpenWrtCompile.Base.DotPattern
import Mathlib.Data.List.Forall2

/-!
# The `s` command of a stream editor

A command `s@pattern@replacement@` replaces in each line the first part that the pattern matches. In the
replacement `&` stands for that part, and a backslash changes the meaning of the byte behind it. What is
written for a text of the replacement is the text itself, is shorter, or holds the part that was matched.
-/

namespace OpenWrtCompile.Base.Replacement
open OpenWrtCompile.Base

/-! ## Commands -/

/-- A text up to a byte that is not behind a backslash, and what is behind the byte. -/
def cutAt (d : UInt8) : Bytes → Option (Bytes × Bytes)
  | [] => none
  | c :: l =>
    if c = d then some ([], l)
    else if c = 0x5C then
      match l with
      | [] => none
      | e :: l => (cutAt d l).map fun p ↦ (c :: e :: p.1, p.2)
    else (cutAt d l).map fun p ↦ (c :: p.1, p.2)

/-- The pattern and the replacement of a script that starts with an `s` command, and what is behind the
command. -/
def command : Bytes → Option (Bytes × Bytes × Bytes)
  | 0x73 :: d :: l =>
    (cutAt d l).bind fun p ↦ (cutAt d p.2).map fun q ↦ (p.1, q.1, q.2)
  | _ => none

/-- An end of a line that is not behind a backslash: such a replacement is an error. -/
def hasLineEnd : Bytes → Bool
  | [] => false
  | 0x5C :: _ :: l => hasLineEnd l
  | c :: l => c = 0x0A || hasLineEnd l

/-- A byte behind a backslash: an end of a line, a tab, a return, the part that is matched, one of the
groups, of which there are none, or the byte. -/
def piece (m : Bytes) (e : UInt8) : Bytes :=
  if e = 0x6E then [0x0A]
  else if e = 0x74 then [0x09]
  else if e = 0x72 then [0x0D]
  else if e = 0x30 then m
  else if 0x31 ≤ e ∧ e ≤ 0x39 then []
  else [e]

/-- What is written for a part that is matched. -/
def render (m : Bytes) : Bytes → Bytes
  | [] => []
  | c :: l =>
    if c = 0x26 then m ++ render m l
    else if c = 0x5C then
      match l with
      | [] => []
      | e :: l => piece m e ++ render m l
    else c :: render m l

/-- A line with the first part that the pattern matches replaced. -/
def replaceFirst (p : List (PatPlace UInt8)) (f : Bytes → Bytes) : Bytes → Bytes
  | [] => []
  | c :: l =>
    if startsWith p (c :: l) then f ((c :: l).take p.length) ++ (c :: l).drop p.length
    else c :: replaceFirst p f l

/-- Each line of a text changed. -/
def mapLines (f : Bytes → Bytes) (text : Bytes) : Bytes :=
  let ls := text.splitOn 0x0A
  let last := ls.getLastD []
  ls.dropLast.flatMap (fun l ↦ f l ++ [0x0A]) ++ if last = [] then [] else f last

/-! ## The parts of a command -/

/-- The delimiter. -/
theorem cutAt_self (d : UInt8) (l : Bytes) : cutAt d (d :: l) = some ([], l) := by
  rw [cutAt.eq_def]
  simp only [↓reduceIte]

/-- A byte behind a backslash is passed over. -/
theorem cutAt_escape {d : UInt8} (hd : d ≠ 0x5C) (e : UInt8) (l : Bytes) :
    cutAt d (0x5C :: e :: l) = (cutAt d l).map fun p ↦ (0x5C :: e :: p.1, p.2) := by
  rw [cutAt.eq_def]
  simp only [hd.symm, ↓reduceIte]

/-- Another byte is passed over. -/
theorem cutAt_plain {c d : UInt8} (hd : c ≠ d) (hc : c ≠ 0x5C) (l : Bytes) :
    cutAt d (c :: l) = (cutAt d l).map fun p ↦ (c :: p.1, p.2) := by
  rw [cutAt.eq_def]
  simp only [hd, hc, ↓reduceIte]

/-- A text without the delimiter that does not end with a backslash. -/
theorem cutAt_append {d : UInt8} {x : Bytes} (hd : d ∉ x) (hb : d ≠ 0x5C)
    (hx : x.getLast? ≠ some 0x5C) (r : Bytes) : cutAt d (x ++ d :: r) = some (x, r) := by
  induction x using cutAt.induct (d := d) with
  | case1 => exact cutAt_self d r
  | case2 l => exact absurd List.mem_cons_self hd
  | case3 => exact absurd rfl hx
  | case4 e l _ ih =>
    rw [List.mem_cons, List.mem_cons, not_or, not_or] at hd
    have hlast : l.getLast? ≠ some 0x5C := by
      intro hl
      have hne : l ≠ [] := by
        rintro rfl
        cases hl
      rw [List.getLast?_cons_of_ne_nil (List.cons_ne_nil e l), List.getLast?_cons_of_ne_nil hne] at hx
      exact hx hl
    rw [List.cons_append, List.cons_append, cutAt_escape hb, ih hd.2.2 hlast]
    rfl
  | case5 c l hcd hc ih =>
    rw [List.mem_cons, not_or] at hd
    have hlast : l.getLast? ≠ some 0x5C := by
      intro hl
      have hne : l ≠ [] := by
        rintro rfl
        cases hl
      rw [List.getLast?_cons_of_ne_nil hne] at hx
      exact hx hl
    rw [List.cons_append, cutAt_plain hcd hc, ih hd.2 hlast]
    rfl

/-- A command of two texts without the delimiter that do not end with a backslash. -/
theorem command_append {d : UInt8} {x y : Bytes} (hb : d ≠ 0x5C) (hx : d ∉ x) (hy : d ∉ y)
    (hxlast : x.getLast? ≠ some 0x5C) (hylast : y.getLast? ≠ some 0x5C) (r : Bytes) :
    command (0x73 :: d :: (x ++ d :: (y ++ d :: r))) = some (x, y, r) := by
  show (cutAt d (x ++ d :: (y ++ d :: r))).bind _ = _
  rw [cutAt_append hx hb hxlast, Option.bind_some, cutAt_append hy hb hylast]
  rfl

/-- A text without an end of a line. -/
theorem hasLineEnd_eq_false {l : Bytes} (h : 0x0A ∉ l) : hasLineEnd l = false := by
  induction l using hasLineEnd.induct with
  | case1 => rfl
  | case2 e l ih =>
    rw [List.mem_cons, List.mem_cons, not_or, not_or] at h
    rw [hasLineEnd]
    exact ih h.2.2
  | case3 c l hc ih =>
    rw [List.mem_cons, not_or] at h
    rw [hasLineEnd]
    · rw [ih h.2]
      simp [Ne.symm h.1]
    · exact hc

/-! ## What is written -/

/-- The part that is matched. -/
theorem render_amp (m l : Bytes) : render m (0x26 :: l) = m ++ render m l := by
  rw [render.eq_def]
  simp only [↓reduceIte]

/-- A byte behind a backslash. -/
theorem render_escape (m : Bytes) (e : UInt8) (l : Bytes) :
    render m (0x5C :: e :: l) = piece m e ++ render m l := by
  have hne : (0x5C : UInt8) ≠ 0x26 := by decide
  rw [render.eq_def]
  simp only [hne, ↓reduceIte]

/-- Another byte. -/
theorem render_plain {c : UInt8} (hamp : c ≠ 0x26) (hb : c ≠ 0x5C) (m l : Bytes) :
    render m (c :: l) = c :: render m l := by
  rw [render.eq_def]
  simp only [hamp, hb, ↓reduceIte]

/-- A byte that is written as it is, also behind a backslash, parts what is written. -/
theorem render_append_cons {c : UInt8} {m : Bytes} (hamp : c ≠ 0x26) (hb : c ≠ 0x5C)
    (hc : piece m c = [c]) (x r : Bytes) :
    render m (x ++ c :: r) = render m x ++ c :: render m r := by
  induction x using render.induct with
  | case1 => exact render_plain hamp hb m r
  | case2 l ih => rw [List.cons_append, render_amp, render_amp, ih, List.append_assoc]
  | case3 => rw [List.cons_append, List.nil_append, render_escape, hc]; rfl
  | case4 e l _ ih =>
    rw [List.cons_append, List.cons_append, render_escape, render_escape, ih, List.append_assoc]
  | case5 d l hdamp hdb ih =>
    rw [List.cons_append, render_plain hdamp hdb, render_plain hdamp hdb, ih, List.cons_append]

/-- A text without `&` and backslash in front of more. -/
theorem render_append {l : Bytes} (hamp : 0x26 ∉ l) (hb : 0x5C ∉ l) (m r : Bytes) :
    render m (l ++ r) = l ++ render m r := by
  induction l with
  | nil => rfl
  | cons c l ih =>
    rw [List.mem_cons, not_or] at hamp hb
    rw [List.cons_append, render_plain (Ne.symm hamp.1) (Ne.symm hb.1), ih hamp.2 hb.2,
      List.cons_append]

/-- A text without `&` and backslash is written as it is. -/
theorem render_eq_self {l : Bytes} (hamp : 0x26 ∉ l) (hb : 0x5C ∉ l) (m : Bytes) :
    render m l = l := by
  have h := render_append hamp hb m []
  rwa [List.append_nil, render, List.append_nil] at h

/-- What is written for a text holds the part that is matched, is shorter than the text, or is the
text. -/
theorem render_cases (m l : Bytes) :
    (∃ x y, render m l = x ++ m ++ y) ∨ (render m l).length < l.length ∨
      render m l = l ∧ 0x26 ∉ l ∧ 0x5C ∉ l := by
  induction l using render.induct with
  | case1 => exact Or.inr (Or.inr ⟨rfl, List.not_mem_nil, List.not_mem_nil⟩)
  | case2 l ih => exact Or.inl ⟨[], render m l, by rw [render_amp, List.nil_append]⟩
  | case3 => exact Or.inr (Or.inl (Nat.succ_pos 0))
  | case4 e l _ ih =>
    rw [render_escape]
    obtain ⟨x, y, hxy⟩ | hrest := ih
    · exact Or.inl ⟨piece m e ++ x, y, by rw [hxy]; simp only [List.append_assoc]⟩
    · by_cases hm : e = 0x30
      · subst hm
        exact Or.inl ⟨[], render m l, rfl⟩
      · have hpiece : (piece m e).length ≤ 1 := by
          unfold piece
          rw [if_neg hm]
          split_ifs <;> exact Nat.le_of_ble_eq_true rfl
        have hle : (render m l).length ≤ l.length := by
          obtain hlt | ⟨heq, -, -⟩ := hrest
          · exact hlt.le
          · rw [heq]
        right
        left
        rw [List.length_append]
        simp only [List.length_cons]
        omega
  | case5 c l hamp hb ih =>
    rw [render_plain hamp hb]
    obtain ⟨x, y, hxy⟩ | hlt | ⟨heq, hamp', hb'⟩ := ih
    · exact Or.inl ⟨c :: x, y, by rw [hxy]; rfl⟩
    · exact Or.inr (Or.inl (Nat.succ_lt_succ hlt))
    · refine Or.inr (Or.inr ⟨by rw [heq], ?_, ?_⟩)
      · rw [List.mem_cons, not_or]
        exact ⟨Ne.symm hamp, hamp'⟩
      · rw [List.mem_cons, not_or]
        exact ⟨Ne.symm hb, hb'⟩

/-! ## Lines -/

/-- A line in which the pattern finds nothing stays; another has one part replaced that it matches. -/
theorem replaceFirst_cases {p : List (PatPlace UInt8)} (hp : p ≠ []) (f : Bytes → Bytes)
    (line : Bytes) :
    finds p line = false ∧ replaceFirst p f line = line ∨
      ∃ x m y, line = x ++ m ++ y ∧ Fits p m ∧ replaceFirst p f line = x ++ f m ++ y := by
  induction line with
  | nil =>
    refine Or.inl ⟨?_, rfl⟩
    cases p with
    | nil => exact absurd rfl hp
    | cons a p => rfl
  | cons c l ih =>
    rw [finds, replaceFirst]
    by_cases hstart : startsWith p (c :: l) = true
    · obtain ⟨m, y, heq, hm⟩ := startsWith_iff.mp hstart
      refine Or.inr ⟨[], m, y, heq, hm, ?_⟩
      rw [if_pos hstart, heq, List.Forall₂.length_eq hm, List.take_left, List.drop_left]
      rfl
    · rw [if_neg hstart, Bool.not_eq_true] at *
      rw [hstart, Bool.false_or]
      obtain ⟨hno, heq⟩ | ⟨x, m, y, hl, hm, heq⟩ := ih
      · exact Or.inl ⟨hno, by rw [heq]⟩
      · exact Or.inr ⟨c :: x, m, y, by rw [hl]; rfl, hm, by rw [heq]; rfl⟩

/-- Lines without an end of a line in them are changed one by one. -/
theorem mapLines_flatMap (f : Bytes → Bytes) {ls : List Bytes} (h : ∀ l ∈ ls, 0x0A ∉ l) :
    mapLines f (ls.flatMap (· ++ [0x0A])) = ls.flatMap fun l ↦ f l ++ [0x0A] := by
  have hsplit : (ls.flatMap (· ++ [0x0A])).splitOn 0x0A = ls ++ [[]] := by
    induction ls with
    | nil => rfl
    | cons l ls ih =>
      rw [List.forall_mem_cons] at h
      rw [List.flatMap_cons, List.append_assoc, List.singleton_append,
        List.splitOn_append_cons_self_of_not_mem h.1, ih h.2, List.cons_append]
  unfold mapLines
  simp [hsplit]

end OpenWrtCompile.Base.Replacement
