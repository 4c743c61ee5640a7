import OpenWrtCompile.Overwall.Switch
import Mathlib.Logic.Function.Basic

/-!
# Separate DNS upstreams

`gen_dns` of `luci-app-overwall/root/etc/init.d/overwall`, lines 747–772: the upstreams of the main
group and of the active shunts, and the tests that keep them apart. An upstream is the number of a
choice or what the user has typed, for which `base.lua` gives `one.one.one.one -tls-host-verify
one.one.one.one` as an example: such a value is several words, and a test in which it is not quoted
fails.
-/

namespace OpenWrtCompile.Overwall.Upstreams
open OpenWrtCompile.Base
open OpenWrtCompile.Overwall.Switch

/-- The groups with an upstream. -/
inductive Group
  | main | yb | nf | cu
  deriving DecidableEq, Repr

/-- The words with which `[` connects tests. -/
def connectives : List Bytes := [ascii "!", ascii "(", ascii ")", ascii "-a", ascii "-o"]

/-- A value of an upstream option: a number or a server, and the words behind it. None of them connects
tests, and the server is no option of `[`. -/
@[ext]
structure Upstream where
  server : Bytes
  options : List Bytes
  server_dash : server.head? ≠ some 0x2D
  word : ∀ w ∈ server :: options, w ≠ [] ∧ 0x20 ∉ w ∧ w ∉ connectives

/-- The words of the value. -/
def Upstream.words (u : Upstream) : List Bytes := u.server :: u.options

instance : DecidableEq Upstream := fun u v ↦
  decidable_of_iff (u.server = v.server ∧ u.options = v.options) Upstream.ext_iff.symm

/-- One of the numbered choices. -/
def choice (c : UInt8)
    (h : c = 0x31 ∨ c = 0x32 ∨ c = 0x33 ∨ c = 0x34 ∨ c = 0x35 := by decide) : Upstream where
  server := [c]
  options := []
  server_dash := by rcases h with rfl | rfl | rfl | rfl | rfl <;> decide
  word := by rcases h with rfl | rfl | rfl | rfl | rfl <;> decide

/-- The default of a group, to which the tests set it back. -/
def number : Group → Upstream
  | .main => choice 0x31
  | .yb => choice 0x32
  | .nf => choice 0x33
  | .cu => choice 0x34

/-- The options and the active shunts, `$YB`, `$NF` and `$CU`. -/
structure DnsOptions where
  yb : Bool
  nf : Bool
  cu : Bool
  dotMode : Group → Bool
  dot : Group → Option Upstream
  tcp : Group → Option Upstream

/-- What `$dns`, `$dns_yb`, `$dns_nf` and `$dns_cu` hold; nothing where the shunt is not active. -/
abbrev Choices : Type := Group → Option Upstream

/-- `$x`. -/
def args : Option Upstream → List Bytes
  | none => []
  | some u => u.words

/-- `"$x"`. -/
def text : Option Upstream → Bytes
  | none => []
  | some u => [0x20].intercalate u.words

/-- `[ $l = $r ]`. -/
def unquoted (l r : Option Upstream) : Bool := testEq (args l) (args r)

/-- `[ $l = "$r" ]`. -/
def rightQuoted (l r : Option Upstream) : Bool := testEq (args l) [text r]

/-- `[ "$l" -a "$r" -a "$l" = "$r" ]`. -/
def bothQuoted (l r : Option Upstream) : Bool := text l ≠ [] && text r ≠ [] && text l = text r

/-- A test of two groups, and behind `&&` their own numbers. -/
def separate (test : Option Upstream → Option Upstream → Bool) (g h : Group) (s : Choices) :
    Choices :=
  if test (s g) (s h) then
    Function.update (Function.update s g (some (number g))) h (some (number h))
  else s

namespace DnsOptions

variable (o : DnsOptions)

/-- `[ $dns_mode = 0 ] && dns=$(…) || dns=$(…)`, for each group with its own options. -/
def chosen (g : Group) : Upstream :=
  if o.dotMode g then (o.dot g).getD (number g) else (o.tcp g).getD (number g)

/-- The options of a group are read. -/
def read (g : Group) (s : Choices) : Choices := Function.update s g (some (o.chosen g))

/-- Line 752. -/
def setMain : Choices := o.read .main fun _ ↦ none

/-- Lines 753–756. -/
def setYb (s : Choices) : Choices :=
  if o.yb then separate unquoted .main .yb (o.read .yb s) else s

/-- Lines 757–762. -/
def setNf (s : Choices) : Choices :=
  if o.nf then
    let s := separate unquoted .main .nf (o.read .nf s)
    let s := separate rightQuoted .nf .yb s
    separate rightQuoted .main .yb s
  else s

/-- Lines 764–772. -/
def setCu (s : Choices) : Choices :=
  if o.cu then
    let s := separate unquoted .main .cu (o.read .cu s)
    let s := separate rightQuoted .cu .yb s
    let s := separate rightQuoted .cu .nf s
    let s := separate bothQuoted .yb .nf s
    let s := separate rightQuoted .main .yb s
    separate rightQuoted .main .nf s
  else s

/-- The upstreams after the tests. -/
def upstreams : Choices := o.setCu (o.setNf (o.setYb o.setMain))

/-- The groups that have an upstream. -/
def active : Group → Bool
  | .main => true
  | .yb => o.yb
  | .nf => o.nf
  | .cu => o.cu

/-- The active groups have different upstreams. -/
def Distinct : Prop :=
  ∀ g h, o.active g → o.active h → g ≠ h → o.upstreams g ≠ o.upstreams h

end DnsOptions

/-! ## Inputs that the tests do not separate -/

/-- The same value, one word. -/
def Seen (u v : Upstream) : Prop := u = v ∧ u.options = []

/-- The same value, more than one word. -/
def Hidden (u v : Upstream) : Prop := u = v ∧ u.options ≠ []

instance (u v : Upstream) : Decidable (Seen u v) := inferInstanceAs (Decidable (_ ∧ _))

instance (u v : Upstream) : Decidable (Hidden u v) := inferInstanceAs (Decidable (_ ∧ _))

/-- The main group and two shunts, of which `l` is the later: two have the same value of several
words, or the shunts have the same word and the main group the number that the later one gets. -/
def TwoClash (l : Group) (d x y : Upstream) : Prop :=
  (d = number l ∧ Seen x y ∧ ¬ Seen d x) ∨ Hidden d x ∨ Hidden d y ∨ Hidden x y

/-- The main group and all three shunts. -/
def ThreeClash (d y n c : Upstream) : Prop :=
  if Seen d y then Hidden n c
  else if Seen d n then (y = number .cu ∧ c = number .nf) ∨ Hidden y c
  else if Seen y n then
    (d = number .cu ∧ (c = number .yb ∨ c = number .nf)) ∨
      (d = number .nf ∧ c = number .main) ∨ Hidden d c
  -- only the last test of the two shunts finds them
  else if Hidden y n then
    ¬ Seen d c ∧ (c = number .yb ∨ c = number .nf ∨
      (c = number .main ∧ (d = number .yb ∨ d = number .nf)) ∨ Hidden d c)
  else if Seen d c then
    (y = number .main ∧ n = number .yb) ∨ (y = number .nf ∧ n = number .main)
  else if Seen c y then d = number .cu ∨ Hidden d n
  else if Seen c n then
    d = number .cu ∨ y = number .cu ∨ (d = number .nf ∧ y = number .main) ∨ Hidden d y
  else Hidden d y ∨ Hidden d n ∨ Hidden d c ∨ Hidden y c ∨ Hidden n c

/-- The active groups with values that the tests do not separate. -/
def DnsOptions.Clash (o : DnsOptions) : Prop :=
  let d := o.chosen .main
  let y := o.chosen .yb
  let n := o.chosen .nf
  let c := o.chosen .cu
  match o.yb, o.nf, o.cu with
  | false, false, false => False
  | true, false, false => Hidden d y
  | false, true, false => Hidden d n
  | false, false, true => Hidden d c
  | true, true, false => TwoClash .nf d y n
  | true, false, true => TwoClash .cu d y c
  | false, true, true => TwoClash .cu d n c
  | true, true, true => ThreeClash d y n c

/-! ## What the tests find -/

/-- The words of a value are its fields. -/
theorem splitOn_text (u : Upstream) : (text (some u)).splitOn 0x20 = u.words :=
  List.splitOn_intercalate 0x20 (fun w hw ↦ (u.word w hw).2.1) (List.cons_ne_nil _ _)

/-- A quoted value stands for itself. -/
theorem text_inj {u v : Upstream} : text (some u) = text (some v) ↔ u = v := by
  refine ⟨fun h ↦ ?_, fun h ↦ h ▸ rfl⟩
  have hwords : u.words = v.words := by rw [← splitOn_text, h, splitOn_text]
  exact Upstream.ext (List.cons.inj hwords).1 (List.cons.inj hwords).2

/-- A value is not empty. -/
theorem text_ne_nil (u : Upstream) : text (some u) ≠ [] := by
  intro h
  have hwords := splitOn_text u
  rw [h] at hwords
  exact (u.word u.server List.mem_cons_self).1 (List.cons.inj hwords).1.symm

/-- A left side of more than one word fails. -/
theorem testEq_eq_false {u : Upstream} (h : u.options ≠ []) (r : List Bytes) :
    testEq u.words r = false := by
  obtain ⟨w, ws, hoptions⟩ := List.exists_cons_of_ne_nil h
  rw [Upstream.words, hoptions]
  rfl

/-- A test with a quoted right side finds a value of one word. -/
@[simp] theorem rightQuoted_iff (u v : Upstream) :
    rightQuoted (some u) (some v) = true ↔ Seen u v := by
  by_cases h : u.options = []
  · have htext : text (some u) = u.server := by simp [text, Upstream.words, h]
    have htest : rightQuoted (some u) (some v) = true ↔ text (some u) = text (some v) := by
      rw [htext, rightQuoted, args, Upstream.words, h, testEq, decide_eq_true_iff]
    rw [htest, text_inj, Seen, and_iff_left h]
  · rw [rightQuoted, args, testEq_eq_false h]
    simp [Seen, h]

/-- A test that is not quoted finds a value of one word. -/
@[simp] theorem unquoted_iff (u v : Upstream) : unquoted (some u) (some v) = true ↔ Seen u v := by
  by_cases h : v.options = []
  · have htext : [text (some v)] = v.words := by simp [text, Upstream.words, h]
    rw [← rightQuoted_iff, rightQuoted, htext, unquoted, args, args]
  · obtain ⟨w, ws, hoptions⟩ := List.exists_cons_of_ne_nil h
    have hfalse : unquoted (some u) (some v) = false := by
      rw [unquoted, args, args, Upstream.words, Upstream.words, hoptions]
      cases u.options <;> rfl
    rw [hfalse]
    refine ⟨fun hf ↦ absurd hf (by decide), fun hs ↦ absurd ?_ h⟩
    rw [← hs.1]
    exact hs.2

/-- A group that is not active is not found. -/
theorem rightQuoted_none (l : Option Upstream) : rightQuoted l none = false := by
  cases l with
  | none => rfl
  | some u =>
    by_cases h : u.options = []
    · have hne : u.server ≠ [] := (u.word u.server List.mem_cons_self).1
      simp [rightQuoted, args, text, Upstream.words, h, testEq, hne]
    · exact testEq_eq_false h _

/-- A test with both sides quoted finds each value. -/
@[simp] theorem bothQuoted_iff (u v : Upstream) : bothQuoted (some u) (some v) = true ↔ u = v := by
  simp [bothQuoted, text_ne_nil, text_inj]

/-- A test that does not hold changes nothing. -/
theorem separate_of_false {test : Option Upstream → Option Upstream → Bool} {g h : Group}
    {s : Choices} (hs : test (s g) (s h) = false) : separate test g h s = s := by
  rw [separate, hs]
  rfl

/-- A test with a group that is not active changes nothing. -/
theorem separate_none {g h : Group} {s : Choices} (hs : s h = none) :
    separate rightQuoted g h s = s :=
  separate_of_false (by rw [hs, rightQuoted_none])

/-- Nor does one with both sides quoted. -/
theorem separate_both_none {g h : Group} {s : Choices} (hs : s g = none ∨ s h = none) :
    separate bothQuoted g h s = s := by
  apply separate_of_false
  rcases hs with hs | hs
  · rw [hs]
    rfl
  · simp [bothQuoted, hs, text]

/-- A test leaves the other groups as they are. -/
theorem separate_apply {test : Option Upstream → Option Upstream → Bool} {g h k : Group}
    (s : Choices) (hg : k ≠ g) (hh : k ≠ h) : separate test g h s k = s k := by
  unfold separate
  split
  · rw [Function.update_of_ne hh, Function.update_of_ne hg]
  · rfl

/-! ## The choices as four values -/

/-- The choices of the main group and of the three shunts. -/
def four (d y n c : Option Upstream) : Choices
  | .main => d
  | .yb => y
  | .nf => n
  | .cu => c

section Four

variable (d y n c x : Option Upstream)

@[simp] theorem four_main : four d y n c .main = d := rfl
@[simp] theorem four_yb : four d y n c .yb = y := rfl
@[simp] theorem four_nf : four d y n c .nf = n := rfl
@[simp] theorem four_cu : four d y n c .cu = c := rfl

@[simp] theorem update_main : Function.update (four d y n c) .main x = four x y n c := by
  funext g
  cases g <;> rfl

@[simp] theorem update_yb : Function.update (four d y n c) .yb x = four d x n c := by
  funext g
  cases g <;> rfl

@[simp] theorem update_nf : Function.update (four d y n c) .nf x = four d y x c := by
  funext g
  cases g <;> rfl

@[simp] theorem update_cu : Function.update (four d y n c) .cu x = four d y n x := by
  funext g
  cases g <;> rfl

end Four

/-! ## The numbers -/

/-- The numbers of the groups differ. -/
@[simp] theorem number_inj {g h : Group} : number g = number h ↔ g = h := by
  cases g <;> cases h <;> decide

/-- A number is one word. -/
theorem number_options (g : Group) : (number g).options = [] := by cases g <;> rfl

/-- A number is found by each test. -/
@[simp] theorem seen_number {g : Group} {u : Upstream} : Seen (number g) u ↔ u = number g := by
  rw [Seen, and_iff_left (number_options g)]
  exact eq_comm

@[simp] theorem number_seen {g : Group} {u : Upstream} : Seen u (number g) ↔ u = number g := by
  refine ⟨And.left, ?_⟩
  rintro rfl
  exact seen_number.mpr rfl

/-! ## One test on four values -/

section Tests

variable (test : Option Upstream → Option Upstream → Bool) (d y n c : Option Upstream)

@[simp] theorem separate_main_yb :
    separate test .main .yb (four d y n c) =
      if test d y then four (some (number .main)) (some (number .yb)) n c else four d y n c := by
  simp [separate]

@[simp] theorem separate_main_nf :
    separate test .main .nf (four d y n c) =
      if test d n then four (some (number .main)) y (some (number .nf)) c else four d y n c := by
  simp [separate]

@[simp] theorem separate_main_cu :
    separate test .main .cu (four d y n c) =
      if test d c then four (some (number .main)) y n (some (number .cu)) else four d y n c := by
  simp [separate]

@[simp] theorem separate_nf_yb :
    separate test .nf .yb (four d y n c) =
      if test n y then four d (some (number .yb)) (some (number .nf)) c else four d y n c := by
  simp [separate]

@[simp] theorem separate_yb_nf :
    separate test .yb .nf (four d y n c) =
      if test y n then four d (some (number .yb)) (some (number .nf)) c else four d y n c := by
  simp [separate]

@[simp] theorem separate_cu_yb :
    separate test .cu .yb (four d y n c) =
      if test c y then four d (some (number .yb)) n (some (number .cu)) else four d y n c := by
  simp [separate]

@[simp] theorem separate_cu_nf :
    separate test .cu .nf (four d y n c) =
      if test c n then four d y (some (number .nf)) (some (number .cu)) else four d y n c := by
  simp [separate]

/-- Four choices differ. -/
@[simp] theorem injective_four (d y n c : Option Upstream) :
    Function.Injective (four d y n c) ↔ d ≠ y ∧ d ≠ n ∧ d ≠ c ∧ y ≠ n ∧ y ≠ c ∧ n ≠ c := by
  constructor
  · intro h
    refine ⟨?_, ?_, ?_, ?_, ?_, ?_⟩ <;> intro heq
    · exact absurd (@h .main .yb heq) (by decide)
    · exact absurd (@h .main .nf heq) (by decide)
    · exact absurd (@h .main .cu heq) (by decide)
    · exact absurd (@h .yb .nf heq) (by decide)
    · exact absurd (@h .yb .cu heq) (by decide)
    · exact absurd (@h .nf .cu heq) (by decide)
  · rintro ⟨hdy, hdn, hdc, hyn, hyc, hnc⟩ g h heq
    cases g <;> cases h <;> simp_all [eq_comm]

end Tests

/-- The tests of the custom shunt against the other groups. -/
theorem custom_tests (d y n c : Upstream) :
    separate rightQuoted .cu .nf (separate rightQuoted .cu .yb
        (separate unquoted .main .cu (four d y n c))) =
      if Seen d c then
        four (number .main) (if y = number .cu then number .yb else y)
          (if n = number .cu then number .nf else n) (number .cu)
      else if Seen c y then
        four d (number .yb) (if n = number .cu then number .nf else n) (number .cu)
      else if Seen c n then four d y (number .nf) (number .cu)
      else four d y n c := by
  by_cases hdc : Seen d c
  · by_cases hy : y = number .cu
    · by_cases hn : n = number .cu
      · simp [hdc, hy, hn]
      · simp [hdc, hy, hn]
    · by_cases hn : n = number .cu
      · simp [hdc, hy, hn]
      · simp [hdc, hy, hn]
  · by_cases hy : Seen c y
    · by_cases hn : n = number .cu
      · simp [hdc, hy, hn]
      · simp [hdc, hy, hn]
    · by_cases hn : Seen c n
      · simp [hdc, hy, hn]
      · simp [hdc, hy, hn]

/-- What the last tests leave. -/
theorem last_tests (d y n c : Upstream) :
    Function.Injective (separate rightQuoted .main .nf (separate rightQuoted .main .yb
        (separate bothQuoted .yb .nf (four d y n c)))) ↔
      if y = n then
        (if d = number .yb ∨ d = number .nf then number .main else d) ≠ c ∧ number .yb ≠ c ∧
          number .nf ≠ c
      else if Seen d y then
        number .main ≠ c ∧ number .yb ≠ n ∧ number .yb ≠ c ∧
          (if n = number .main then number .nf else n) ≠ c
      else if Seen d n then
        number .main ≠ y ∧ number .main ≠ c ∧ y ≠ number .nf ∧ y ≠ c ∧ number .nf ≠ c
      else Function.Injective (four d y n c) := by
  by_cases hyn : y = n
  · by_cases hdy : d = number .yb
    · simp [hyn, hdy]
    · by_cases hdn : d = number .nf
      · simp [hyn, hdn]
      · simp [hyn, hdy, hdn]
  · by_cases hdy : Seen d y
    · by_cases hn : n = number .main
      · subst hn
        simp [hyn, hdy]
      · simp [hyn, hdy, hn, Ne.symm hn]
    · by_cases hdn : Seen d n
      · simp [hyn, hdy, hdn]
      · simp [hyn, hdy, hdn]

/-! ## Two shunts -/

/-- Two shunts in the order of the script. -/
structure Shunts where
  first : Group
  later : Group
  first_ne : first ≠ .main
  later_ne : later ≠ .main
  ne : first ≠ later

/-- The choices of the main group and of two shunts. -/
def trio (p : Shunts) (d u v : Option Upstream) : Choices := fun g ↦
  if g = .main then d else if g = p.first then u else if g = p.later then v else none

section Trio

variable (p : Shunts) (d u v e : Option Upstream)

@[simp] theorem trio_main : trio p d u v .main = d := by simp [trio]

@[simp] theorem trio_first : trio p d u v p.first = u := by simp [trio, p.first_ne]

@[simp] theorem trio_later : trio p d u v p.later = v := by simp [trio, p.later_ne, p.ne.symm]

@[simp] theorem update_trio_main : Function.update (trio p d u v) .main e = trio p e u v := by
  funext g
  by_cases h : g = .main
  · simp [h]
  · simp [h, trio]

@[simp] theorem update_trio_first : Function.update (trio p d u v) p.first e = trio p d e v := by
  funext g
  by_cases h : g = p.first
  · simp [h]
  · simp [h, trio]

@[simp] theorem update_trio_later : Function.update (trio p d u v) p.later e = trio p d u e := by
  funext g
  by_cases h : g = p.later
  · simp [h]
  · simp [h, trio]

variable (test : Option Upstream → Option Upstream → Bool)

@[simp] theorem separate_main_first :
    separate test .main p.first (trio p d u v) =
      if test d u then trio p (number .main) (number p.first) v else trio p d u v := by
  simp [separate]

@[simp] theorem separate_main_later :
    separate test .main p.later (trio p d u v) =
      if test d v then trio p (number .main) u (number p.later) else trio p d u v := by
  simp [separate]

@[simp] theorem separate_later_first :
    separate test p.later p.first (trio p d u v) =
      if test v u then trio p d (number p.first) (number p.later) else trio p d u v := by
  simp [separate]

end Trio

/-- The tests with two shunts. -/
def pairTests (p : Shunts) (d u v : Upstream) : Choices :=
  let s := Function.update (trio p d none none) p.first (some u)
  let s := separate unquoted .main p.first s
  let s := separate unquoted .main p.later (Function.update s p.later (some v))
  let s := separate rightQuoted p.later p.first s
  separate rightQuoted .main p.first s

/-- What the tests with two shunts leave. -/
theorem pairTests_eq (p : Shunts) (d u v : Upstream) :
    pairTests p d u v =
      if Seen d u then
        trio p (number .main) (number p.first)
          (some (if v = number .main ∨ v = number p.first then number p.later else v))
      else if Seen d v then
        trio p (number .main)
          (some (if u = number .main ∨ u = number p.later then number p.first else u))
          (number p.later)
      else if Seen v u then
        trio p (some (if d = number p.first then number .main else d)) (number p.first)
          (number p.later)
      else trio p d u v := by
  have hfirst := p.first_ne.symm
  have hlater := p.later_ne
  unfold pairTests
  by_cases hdu : Seen d u
  · by_cases hv : v = number .main
    · simp [hdu, hv, hfirst, p.ne.symm]
    · by_cases hv' : v = number p.first
      · simp [hdu, hv', hfirst]
      · simp [hdu, hv, hv', hfirst]
  · by_cases hdv : Seen d v
    · by_cases hu : u = number p.later
      · subst hu
        rw [number_seen] at hdu
        simp [hdu, hdv]
      · by_cases hu' : u = number .main
        · subst hu'
          rw [number_seen] at hdu
          simp [hdu, hdv, hlater]
        · simp [hdu, hdv, hu, hu']
    · by_cases hvu : Seen v u
      · by_cases hd : d = number p.first
        · subst hd
          rw [seen_number] at hdu hdv
          simp [hdu, hdv, hvu]
        · simp [hdu, hdv, hvu, hd]
      · simp [hdu, hdv, hvu]

/-- Three choices differ unless the inputs clash. -/
theorem pairTests_distinct_iff (p : Shunts) (d u v : Upstream) :
    (pairTests p d u v .main ≠ pairTests p d u v p.first ∧
        pairTests p d u v .main ≠ pairTests p d u v p.later ∧
        pairTests p d u v p.first ≠ pairTests p d u v p.later) ↔
      ¬ TwoClash p.later d u v := by
  have hmf : number .main ≠ number p.first := number_inj.not.mpr p.first_ne.symm
  have hml : number .main ≠ number p.later := number_inj.not.mpr p.later_ne.symm
  have hfl : number p.first ≠ number p.later := number_inj.not.mpr p.ne
  rw [pairTests_eq]
  unfold TwoClash
  split_ifs
  all_goals
    simp only [trio_main, trio_first, trio_later, ne_eq, Option.some.injEq]
    grind [Seen, Hidden, number_options, number_inj]

/-- The Y2B and the Netflix shunt. -/
def ybNf : Shunts := ⟨.yb, .nf, by decide, by decide, by decide⟩

/-- The Y2B and the custom shunt. -/
def ybCu : Shunts := ⟨.yb, .cu, by decide, by decide, by decide⟩

/-- The Netflix and the custom shunt. -/
def nfCu : Shunts := ⟨.nf, .cu, by decide, by decide, by decide⟩

/-- The custom shunt before another. -/
def cuYb : Shunts := ⟨.cu, .yb, by decide, by decide, by decide⟩

namespace DnsOptions

variable (o : DnsOptions)

/-- The main group alone. -/
theorem setMain_eq (p : Shunts) : o.setMain = trio p (o.chosen .main) none none := by
  funext g
  cases g <;> simp [setMain, read, trio]

/-- The tests of the Y2B and the Netflix shunt. -/
theorem setNf_setYb (hyb : o.yb = true) (hnf : o.nf = true) :
    o.setNf (o.setYb o.setMain) =
      pairTests ybNf (o.chosen .main) (o.chosen .yb) (o.chosen .nf) := by
  simp only [setNf, setYb, hyb, hnf, if_true, read, o.setMain_eq ybNf]
  rfl

/-- The custom shunt where the Netflix one is not active. -/
theorem setCu_of_nf_none (hcu : o.cu = true) {s : Choices} (hs : s .nf = none) :
    o.setCu s = separate rightQuoted .main .yb (separate rightQuoted .cu .yb
      (separate unquoted .main .cu (o.read .cu s))) := by
  have hread : separate rightQuoted .cu .yb (separate unquoted .main .cu (o.read .cu s)) .nf =
      none := by
    simp [separate_apply, read, hs]
  simp only [setCu, hcu, if_true]
  rw [separate_none hread, separate_both_none (.inr hread), separate_none]
  simp [separate_apply, read, hs]

/-- The custom shunt where the Y2B one is not active. -/
theorem setCu_of_yb_none (hcu : o.cu = true) {s : Choices} (hs : s .yb = none) :
    o.setCu s = separate rightQuoted .main .nf (separate rightQuoted .cu .nf
      (separate unquoted .main .cu (o.read .cu s))) := by
  have hread : separate unquoted .main .cu (o.read .cu s) .yb = none := by
    simp [separate_apply, read, hs]
  have hnf : separate rightQuoted .cu .nf (separate unquoted .main .cu (o.read .cu s)) .yb =
      none := by
    simp [separate_apply, read, hs]
  simp only [setCu, hcu, if_true]
  rw [separate_none hread, separate_both_none (.inl hnf), separate_none hnf]

/-- The Netflix shunt where the Y2B one is not active. -/
theorem setNf_of_yb_none (hnf : o.nf = true) {s : Choices} (hs : s .yb = none) :
    o.setNf s = separate unquoted .main .nf (o.read .nf s) := by
  have hread : separate unquoted .main .nf (o.read .nf s) .yb = none := by
    simp [separate_apply, read, hs]
  simp only [setNf, hnf, if_true]
  rw [separate_none hread, separate_none hread]

/-- The Y2B shunt alone. -/
theorem upstreams_yb (hyb : o.yb = true) (hnf : o.nf = false) (hcu : o.cu = false) :
    o.upstreams = separate unquoted .main .yb (o.read .yb o.setMain) := by
  rw [upstreams, setCu, hcu, setNf, hnf, setYb, hyb]
  rfl

/-- The Netflix shunt alone. -/
theorem upstreams_nf (hyb : o.yb = false) (hnf : o.nf = true) (hcu : o.cu = false) :
    o.upstreams = separate unquoted .main .nf (o.read .nf o.setMain) := by
  have hskip : o.setYb o.setMain = o.setMain := by
    rw [setYb, hyb]
    rfl
  rw [upstreams, hskip, o.setNf_of_yb_none hnf rfl, setCu, hcu]
  rfl

/-- The custom shunt alone. -/
theorem upstreams_cu (hyb : o.yb = false) (hnf : o.nf = false) (hcu : o.cu = true) :
    o.upstreams = separate unquoted .main .cu (o.read .cu o.setMain) := by
  have hskip : o.setNf (o.setYb o.setMain) = o.setMain := by
    rw [setNf, hnf, setYb, hyb]
    rfl
  have hnone : separate unquoted .main .cu (o.read .cu o.setMain) .nf = none := by
    simp [read, setMain, separate_apply]
  rw [upstreams, hskip, o.setCu_of_yb_none hcu rfl, separate_none hnone, separate_none hnone]

/-- The Y2B and the Netflix shunt without the custom one. -/
theorem upstreams_ybNf (hyb : o.yb = true) (hnf : o.nf = true) (hcu : o.cu = false) :
    o.upstreams = pairTests ybNf (o.chosen .main) (o.chosen .yb) (o.chosen .nf) := by
  rw [upstreams, o.setNf_setYb hyb hnf, setCu, hcu]
  rfl

/-- The Y2B and the custom shunt without the Netflix one. -/
theorem upstreams_ybCu (hyb : o.yb = true) (hnf : o.nf = false) (hcu : o.cu = true) :
    o.upstreams = pairTests ybCu (o.chosen .main) (o.chosen .yb) (o.chosen .cu) := by
  have hnone : o.setYb o.setMain .nf = none := by
    simp [setYb, hyb, read, setMain, separate_apply]
  have hskip : o.setNf (o.setYb o.setMain) = o.setYb o.setMain := by
    rw [setNf, hnf]
    rfl
  rw [upstreams, hskip, o.setCu_of_nf_none hcu hnone, setYb, hyb, o.setMain_eq ybCu]
  rfl

/-- The Netflix and the custom shunt without the Y2B one. -/
theorem upstreams_nfCu (hyb : o.yb = false) (hnf : o.nf = true) (hcu : o.cu = true) :
    o.upstreams = pairTests nfCu (o.chosen .main) (o.chosen .nf) (o.chosen .cu) := by
  have hskip : o.setYb o.setMain = o.setMain := by
    rw [setYb, hyb]
    rfl
  have hnone : separate unquoted .main .nf (o.read .nf o.setMain) .yb = none := by
    simp [read, setMain, separate_apply]
  rw [upstreams, hskip, o.setNf_of_yb_none hnf rfl, o.setCu_of_yb_none hcu hnone,
    o.setMain_eq nfCu]
  rfl

end DnsOptions

namespace DnsOptions

variable (o : DnsOptions)

/-- The custom shunt after the others. -/
theorem setCu_four (hcu : o.cu = true) (d y n : Upstream) :
    o.setCu (four d y n none) =
      separate rightQuoted .main .nf (separate rightQuoted .main .yb (separate bothQuoted .yb .nf
        (separate rightQuoted .cu .nf (separate rightQuoted .cu .yb
          (separate unquoted .main .cu (four d y n (o.chosen .cu))))))) := by
  simp only [setCu, hcu, if_true, read, update_cu]

/-- Values of the main group and the first two shunts that the custom one does not leave separate. -/
def CustomClash (d y n c : Upstream) : Prop :=
  if Seen d c then (y = number .main ∧ n = number .yb) ∨ (y = number .nf ∧ n = number .main)
  else if Seen c y then d = number .cu ∨ Hidden d n
  else if Seen c n then
    d = number .cu ∨ y = number .cu ∨ (d = number .nf ∧ y = number .main) ∨ Hidden d y
  else if y = n then
    c = number .yb ∨ c = number .nf ∨
      (c = number .main ∧ (d = number .yb ∨ d = number .nf)) ∨ Hidden d c
  else if Seen d n then
    y = number .main ∨ y = number .nf ∨ c = number .main ∨ c = number .nf ∨ Hidden y c
  else Hidden d y ∨ Hidden d n ∨ Hidden d c ∨ Hidden y c ∨ Hidden n c

/-- The custom shunt leaves the upstreams different unless the values clash. -/
theorem injective_setCu_iff (hcu : o.cu = true) {d y n : Upstream} (hdy : ¬ Seen d y) :
    Function.Injective (o.setCu (four d y n none)) ↔ ¬ CustomClash d y n (o.chosen .cu) := by
  rw [setCu_four o hcu, custom_tests, CustomClash]
  generalize o.chosen .cu = c
  by_cases hdc : Seen d c
  · rw [if_pos hdc, if_pos hdc]
    split_ifs
    all_goals
      rw [last_tests]
      simp only [injective_four, ne_eq, Option.some.injEq]
      grind [Seen, Hidden, number_options, number_inj]
  · rw [if_neg hdc, if_neg hdc]
    by_cases hcy : Seen c y
    · rw [if_pos hcy, if_pos hcy]
      split_ifs
      all_goals
        rw [last_tests]
        simp only [injective_four, ne_eq, Option.some.injEq]
        grind [Seen, Hidden, number_options, number_inj]
    · rw [if_neg hcy, if_neg hcy]
      by_cases hcn : Seen c n
      · rw [if_pos hcn, if_pos hcn, last_tests]
        simp only [injective_four, ne_eq, Option.some.injEq]
        grind [Seen, Hidden, number_options, number_inj]
      · rw [if_neg hcn, if_neg hcn, last_tests]
        simp only [injective_four, ne_eq, Option.some.injEq]
        grind [Seen, Hidden, number_options, number_inj]

/-- Three active shunts. -/
theorem injective_upstreams_iff (hyb : o.yb = true) (hnf : o.nf = true) (hcu : o.cu = true) :
    Function.Injective o.upstreams ↔
      ¬ ThreeClash (o.chosen .main) (o.chosen .yb) (o.chosen .nf) (o.chosen .cu) := by
  have htrio (d y n : Option Upstream) : trio ybNf d y n = four d y n none := by
    funext g
    cases g <;> rfl
  have hfirst : ybNf.first = .yb := rfl
  have hlater : ybNf.later = .nf := rfl
  rw [upstreams, o.setNf_setYb hyb hnf, pairTests_eq]
  simp only [htrio, hfirst, hlater]
  generalize o.chosen .main = d
  generalize o.chosen .yb = y
  generalize o.chosen .nf = n
  unfold ThreeClash
  by_cases hdy : Seen d y
  · rw [if_pos hdy, if_pos hdy, o.injective_setCu_iff hcu]
    · grind [CustomClash, Seen, Hidden, number_options, number_inj]
    · simp
  · rw [if_neg hdy, if_neg hdy]
    by_cases hdn : Seen d n
    · rw [if_pos hdn, if_pos hdn, o.injective_setCu_iff hcu]
      · grind [CustomClash, Seen, Hidden, number_options, number_inj]
      · grind [Seen, number_options, number_inj]
    · rw [if_neg hdn, if_neg hdn]
      by_cases hny : Seen n y
      · rw [if_pos hny, o.injective_setCu_iff hcu]
        · grind [CustomClash, Seen, Hidden, number_options, number_inj]
        · grind [Seen, number_options, number_inj]
      · have hseen : ¬ Seen y n := by grind [Seen]
        rw [if_neg hny, o.injective_setCu_iff hcu hdy, if_neg hseen, CustomClash]
        by_cases hyn : y = n
        · have hhidden : Hidden y n := by grind [Seen, Hidden]
          rw [if_pos hhidden, if_pos hyn]
          grind [Seen, Hidden, number_options, number_inj]
        · have hhidden : ¬ Hidden y n := fun h ↦ hyn h.1
          rw [if_neg hhidden, if_neg hyn, if_neg hdn]

/-! ## The active groups -/

/-- No active shunt. -/
theorem distinct_of_none (hactive : ∀ g, o.active g = true ↔ g = .main) : o.Distinct := by
  intro g h hg hh hgh
  rw [hactive] at hg hh
  exact absurd (hg.trans hh.symm) hgh

/-- One active shunt. -/
theorem distinct_iff_of_one (p : Shunts)
    (hactive : ∀ g, o.active g = true ↔ g = .main ∨ g = p.first)
    (hupstreams : o.upstreams = separate unquoted .main p.first (o.read p.first o.setMain)) :
    o.Distinct ↔ ¬ Hidden (o.chosen .main) (o.chosen p.first) := by
  have hdistinct : o.Distinct ↔ o.upstreams .main ≠ o.upstreams p.first := by
    simp only [Distinct, hactive]
    constructor
    · intro h
      exact h .main p.first (.inl rfl) (.inr rfl) p.first_ne.symm
    · rintro h g k (rfl | rfl) (rfl | rfl) hgk
      · exact absurd rfl hgk
      · exact h
      · exact h.symm
      · exact absurd rfl hgk
  have hne : number .main ≠ number p.first := number_inj.not.mpr p.first_ne.symm
  rw [hdistinct, hupstreams, o.setMain_eq p, read, update_trio_first, separate_main_first]
  simp only [unquoted_iff]
  split_ifs
  all_goals
    simp only [trio_main, trio_first, ne_eq, Option.some.injEq]
    grind [Seen, Hidden, number_options, number_inj]

/-- Two active shunts. -/
theorem distinct_iff_of_two (p : Shunts)
    (hactive : ∀ g, o.active g = true ↔ g = .main ∨ g = p.first ∨ g = p.later)
    (hupstreams :
      o.upstreams = pairTests p (o.chosen .main) (o.chosen p.first) (o.chosen p.later)) :
    o.Distinct ↔
      ¬ TwoClash p.later (o.chosen .main) (o.chosen p.first) (o.chosen p.later) := by
  rw [← pairTests_distinct_iff, ← hupstreams]
  simp only [Distinct, hactive]
  constructor
  · intro h
    refine ⟨h _ _ ?_ ?_ p.first_ne.symm, h _ _ ?_ ?_ p.later_ne.symm, h _ _ ?_ ?_ p.ne⟩ <;> simp
  · rintro ⟨hmf, hml, hfl⟩ g k (rfl | rfl | rfl) (rfl | rfl | rfl) hgk
    · exact absurd rfl hgk
    · exact hmf
    · exact hml
    · exact hmf.symm
    · exact absurd rfl hgk
    · exact hfl
    · exact hml.symm
    · exact hfl.symm
    · exact absurd rfl hgk

/-- All shunts are active. -/
theorem distinct_iff_of_three (hactive : ∀ g, o.active g = true) :
    o.Distinct ↔ Function.Injective o.upstreams := by
  simp only [Distinct, hactive, true_implies]
  exact ⟨fun h g k heq ↦ by_contra fun hgk ↦ h g k hgk heq, fun h g k hgk heq ↦ hgk (h heq)⟩

/-- After the tests the active groups have different upstreams exactly when the inputs do not
clash. -/
theorem distinct_iff : o.Distinct ↔ ¬ o.Clash := by
  unfold Clash
  cases hyb : o.yb with
  | false =>
    cases hnf : o.nf with
    | false =>
      cases hcu : o.cu with
      | false =>
        have hdistinct := o.distinct_of_none (by intro g; cases g <;> simp [active, hyb, hnf, hcu])
        simpa using hdistinct
      | true =>
        apply o.distinct_iff_of_one cuYb _ (o.upstreams_cu hyb hnf hcu)
        intro g
        cases g <;> simp [active, hyb, hnf, hcu, cuYb]
    | true =>
      cases hcu : o.cu with
      | false =>
        apply o.distinct_iff_of_one nfCu _ (o.upstreams_nf hyb hnf hcu)
        intro g
        cases g <;> simp [active, hyb, hnf, hcu, nfCu]
      | true =>
        apply o.distinct_iff_of_two nfCu _ (o.upstreams_nfCu hyb hnf hcu)
        intro g
        cases g <;> simp [active, hyb, hnf, hcu, nfCu]
  | true =>
    cases hnf : o.nf with
    | false =>
      cases hcu : o.cu with
      | false =>
        apply o.distinct_iff_of_one ybNf _ (o.upstreams_yb hyb hnf hcu)
        intro g
        cases g <;> simp [active, hyb, hnf, hcu, ybNf]
      | true =>
        apply o.distinct_iff_of_two ybCu _ (o.upstreams_ybCu hyb hnf hcu)
        intro g
        cases g <;> simp [active, hyb, hnf, hcu, ybCu]
    | true =>
      cases hcu : o.cu with
      | false =>
        apply o.distinct_iff_of_two ybNf _ (o.upstreams_ybNf hyb hnf hcu)
        intro g
        cases g <;> simp [active, hyb, hnf, hcu, ybNf]
      | true =>
        rw [o.distinct_iff_of_three, o.injective_upstreams_iff hyb hnf hcu]
        intro g
        cases g <;> simp [active, hyb, hnf, hcu]

/-- Quad9 for the main group, OpenDNS for the Y2B and the Netflix shunt. -/
def quad9AndOpenDns : DnsOptions where
  yb := true
  nf := true
  cu := false
  dotMode := fun _ ↦ true
  dot
    | .main => some (choice 0x33)
    | .yb => some (choice 0x35)
    | .nf => some (choice 0x35)
    | .cu => none
  tcp := fun _ ↦ none

/-- The Netflix shunt is set back to 3, which the main group has. -/
theorem separate_onto_main :
    quad9AndOpenDns.upstreams .main = some (choice 0x33) ∧
      quad9AndOpenDns.upstreams .yb = some (choice 0x32) ∧
      quad9AndOpenDns.upstreams .nf = some (choice 0x33) ∧ ¬ quad9AndOpenDns.Distinct := by
  have hmain : quad9AndOpenDns.upstreams .main = some (choice 0x33) := by decide
  have hyb : quad9AndOpenDns.upstreams .yb = some (choice 0x32) := by decide
  have hnf : quad9AndOpenDns.upstreams .nf = some (choice 0x33) := by decide
  refine ⟨hmain, hyb, hnf, fun h ↦ ?_⟩
  exact h .main .nf rfl rfl (by decide) (hmain.trans hnf.symm)

end DnsOptions

end OpenWrtCompile.Overwall.Upstreams
