import OpenWrtCompile.Base.Bytes
import OpenWrtCompile.Base.Search

/-!
# The shell tools of the DDNS scripts

What the scripts under `ddns-scripts-*` use of the shell: unquoted expansion, `[`, `grep -w` and the
`s` command of `sed`, for words in which `*` stands at the start at most and for patterns of letters,
digits, `-`, `_` and `.`.
-/

namespace OpenWrtCompile.Ddns
open OpenWrtCompile.Base

/-- The names in the working directory, in the order of an expansion, and what `[` says of two or
more words. -/
structure Shell where
  cwd : List Bytes
  testWords : List Bytes → Bool

/-- Pathname expansion of one word: the visible names that end as the word does after its `*`, or
the word itself where there is none. -/
def globWord (sh : Shell) (w : Bytes) : List Bytes :=
  match w with
  | 0x2A :: r =>
    match sh.cwd.filter fun n ↦ n.headD 0x2E ≠ 0x2E && r.isSuffixOf n with
    | [] => [w]
    | ns => ns
  | _ => [w]

/-- An unquoted `$x`: split at blanks, then expanded. -/
def expand (sh : Shell) (x : Bytes) : List Bytes :=
  ((Search.split [0x20] x).filter (· ≠ [])).flatMap (globWord sh)

/-- `echo $x`. -/
def echo (sh : Shell) (x : Bytes) : Bytes := List.intercalate [0x20] (expand sh x)

/-- `[ $x ]`. -/
def test (sh : Shell) (x : Bytes) : Bool :=
  match expand sh x with
  | [] => false
  | [w] => w ≠ []
  | ws => sh.testWords ws

/-- The pattern stands at the start; its dots stand for any byte. -/
def dotMatch : Bytes → Bytes → Bool
  | [], _ => true
  | _ :: _, [] => false
  | c :: z, x :: l => (c = 0x2E || c = x) && dotMatch z l

/-- A word constituent: a letter, a digit or `_`. -/
def isWordByte (c : UInt8) : Bool :=
  (0x61 ≤ c && c ≤ 0x7A) || (0x41 ≤ c && c ≤ 0x5A) || (0x30 ≤ c && c ≤ 0x39) || c = 0x5F

/-- `grep -w`, behind the byte `prev`: some match has no word constituent on either side. -/
def grepWordFrom (z : Bytes) (prev : UInt8) : Bytes → Bool
  | [] => !isWordByte prev && dotMatch z []
  | x :: l =>
    (!isWordByte prev && dotMatch z (x :: l) && !isWordByte (((x :: l).drop z.length).headD 0)) ||
      grepWordFrom z x l

/-- `echo … | grep -wq $z`; the line starts as behind a blank. -/
def grepWord (z line : Bytes) : Bool := grepWordFrom z 0x20 line

/-- Offset of the first match of a pattern. -/
def sedIndex (z : Bytes) : Bytes → Option Nat
  | [] => if dotMatch z [] then some 0 else none
  | x :: l => if dotMatch z (x :: l) then some 0 else (sedIndex z l).map (· + 1)

/-- `sed s/$z//`. -/
def sedDelete (z line : Bytes) : Bytes :=
  match sedIndex z line with
  | some i => line.take i ++ line.drop (i + z.length)
  | none => line

/-- `sed 's/\.$//'`. -/
def stripDot (line : Bytes) : Bytes := if line.getLast? = some 0x2E then line.dropLast else line

/-- A pattern matches itself. -/
theorem dotMatch_self (z : Bytes) : dotMatch z z = true := by
  induction z with
  | nil => rfl
  | cons c z ih => simp only [dotMatch, ih, decide_true, Bool.or_true, Bool.and_true]

/-- The first match is the first offset at which the pattern stands. -/
theorem sedIndex_le {z l : Bytes} {j : Nat} (hj : j ≤ l.length) (hm : dotMatch z (l.drop j) = true) :
    ∃ i, sedIndex z l = some i ∧ i ≤ j := by
  induction l generalizing j with
  | nil =>
    rw [List.drop_nil] at hm
    exact ⟨0, by simp only [sedIndex, hm, if_true], Nat.zero_le _⟩
  | cons x l ih =>
    by_cases h0 : dotMatch z (x :: l) = true
    · exact ⟨0, by simp only [sedIndex, h0, if_true], Nat.zero_le _⟩
    · cases j with
      | zero => exact absurd hm h0
      | succ j =>
        simp only [List.length_cons, Nat.add_le_add_iff_right] at hj
        rcases ih hj hm with ⟨i, hi, hle⟩
        exact ⟨i + 1, by simp only [sedIndex, h0, hi, if_false, Option.map_some, Bool.false_eq_true],
          Nat.succ_le_succ hle⟩

/-- A whole line, and the end of a line behind a dot, is a word. -/
theorem grepWord_self (z : Bytes) : grepWord z z = true := by
  have hprev : isWordByte 0x20 = false := by decide
  have hself := dotMatch_self z
  unfold grepWord
  cases z with
  | nil => simp only [grepWordFrom, hprev, hself, Bool.not_false, Bool.and_true]
  | cons c z =>
    have hnil : isWordByte (([] : Bytes).headD 0) = false := by decide
    simp only [grepWordFrom, hprev, hself, List.drop_length, hnil, Bool.not_false, Bool.and_true,
      Bool.true_or]

/-- The end of a line behind a dot is a word. -/
theorem grepWord_of_suffix (z w : Bytes) : grepWord z (w ++ 0x2E :: z) = true := by
  unfold grepWord
  generalize (0x20 : UInt8) = prev
  induction w generalizing prev with
  | nil =>
    -- the match behind the dot
    have hdot : isWordByte 0x2E = false := by decide
    have hself := dotMatch_self z
    have hrest : grepWordFrom z 0x2E z = true := by
      cases z with
      | nil => simp only [grepWordFrom, hdot, hself, Bool.not_false, Bool.and_true]
      | cons c z =>
        have hnil : isWordByte (([] : Bytes).headD 0) = false := by decide
        simp only [grepWordFrom, hdot, hself, List.drop_length, hnil, Bool.not_false,
          Bool.and_true, Bool.true_or]
    simp only [List.nil_append, grepWordFrom, hrest, Bool.or_true]
  | cons x w ih =>
    simp only [List.cons_append, grepWordFrom, ih x, Bool.or_true]

/-- A word without blanks is expanded as one word. -/
theorem expand_of_no_blank (sh : Shell) (x : Bytes) (hx : x ≠ []) (hb : (0x20 : UInt8) ∉ x) :
    expand sh x = globWord sh x := by
  have hfind : Search.find? [0x20] x = none := by
    rw [Search.find?_eq_none_iff]
    intro j _ hp
    have hmem : (0x20 : UInt8) ∈ x.drop j := hp.subset (List.mem_singleton.mpr rfl)
    exact hb (List.mem_of_mem_drop hmem)
  unfold expand
  rw [Search.split_eq (by decide), hfind]
  simp only [hx, if_false, ne_eq, not_false_eq_true, decide_true, List.filter_cons_of_pos,
    List.filter_nil, List.flatMap_cons, List.flatMap_nil, List.append_nil]

/-- Without a `*` at its start a word stands for itself. -/
theorem globWord_of_plain (sh : Shell) (w : Bytes) (h : w.head? ≠ some 0x2A) :
    globWord sh w = [w] := by
  unfold globWord
  split
  · exact absurd rfl h
  · rfl

/-- What a word that starts with `*` and a dot expands to: itself, or names that end in the same
way. -/
theorem globWord_star (sh : Shell) (r : Bytes) :
    globWord sh (0x2A :: 0x2E :: r) = [0x2A :: 0x2E :: r] ∨
      ∃ ns n, globWord sh (0x2A :: 0x2E :: r) = ns ++ [n] ∧ n.headD 0x2E ≠ 0x2E ∧
        0x2E :: r <:+ n := by
  unfold globWord
  simp only
  cases hfilter : sh.cwd.filter fun n ↦ n.headD 0x2E ≠ 0x2E && (0x2E :: r).isSuffixOf n with
  | nil => exact .inl rfl
  | cons m ns =>
    right
    rcases List.eq_nil_or_concat (m :: ns) with hnil | ⟨pre, n, hcat⟩
    · cases hnil
    · rw [List.concat_eq_append] at hcat
      refine ⟨pre, n, hcat, ?_⟩
      have hmem : n ∈ sh.cwd.filter fun n ↦ n.headD 0x2E ≠ 0x2E && (0x2E :: r).isSuffixOf n := by
        rw [hfilter, hcat]
        simp
      have hn := (List.mem_filter.mp hmem).2
      rw [Bool.and_eq_true, decide_eq_true_eq, List.isSuffixOf_iff_suffix] at hn
      exact hn

end OpenWrtCompile.Ddns
