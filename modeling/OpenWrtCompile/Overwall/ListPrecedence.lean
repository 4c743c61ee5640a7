import OpenWrtCompile.Overwall.DnsRules

/-!
# Which list a domain goes to

The rules that `gen_dns` leaves, against the lists: the order of the lists, what is deleted from the
rules, and what comes into them.
-/

namespace OpenWrtCompile.Overwall
open OpenWrtCompile.Base

/-! ## The statement -/

/-- The lists, from the lowest. -/
inductive ListName
  | black | youtube | netflix | custom | white
  deriving DecidableEq, Repr

/-- The place of a list. -/
def ListName.rank : ListName → Nat
  | .black => 0
  | .youtube => 1
  | .netflix => 2
  | .custom => 3
  | .white => 4

namespace DnsConfig

variable (t : Tools) (c : DnsConfig) (l : Lists)

/-- The group that takes a list in, if it is that of a service. -/
def groupOf : ListName → Option Group
  | .black | .white => none
  | .youtube => some (c.ybGroup l)
  | .netflix => if c.nf = .youtube then some (c.ybGroup l) else some (c.nfGroup l)
  | .custom =>
    match c.cu with
    | .youtube => some (c.ybGroup l)
    | .netflix => some (c.nfGroup l)
    | _ => some (c.cuGroup l)

/-- The domains of a list, if it is active. -/
def listed : ListName → List Bytes
  | .black => if c.mode = .all then [] else
    domains l.black ++ if c.mode = .gfw then domains l.gfw else []
  | .youtube => if c.ybOn then domains l.youtube else []
  | .netflix => if c.nfOn ∨ c.nf = .youtube ∧ c.ybOn then domains l.netflix else []
  | .custom =>
    if c.cuOn ∨ c.cu = .youtube ∧ c.ybOn ∨ c.cu = .netflix ∧ c.nfOn then domains l.custom else []
  | .white => domains l.white

/-- The rule that assigns a domain as a list asks for it. -/
def ruleOf (L : ListName) (d : Bytes) : DnsLine :=
  match c.groupOf l L with
  | some g => g.rule d
  | none => .ipset d (if L = .white then .overWanAc else .blacklist)

/-- The list is the highest active one that has the domain. -/
def Highest (L : ListName) (d : Bytes) : Prop :=
  d ∈ c.listed l L ∧ ∀ M, d ∈ c.listed l M → M.rank ≤ L.rank

/-- The domain is the other or a subdomain of it. -/
def Under (d e : Bytes) : Prop := d = e ∨ 0x2E :: e <:+ d

/-- The domain is under one of a higher list, or under the host of an encrypted upstream. -/
def Covered (L : ListName) (d : Bytes) : Prop :=
  (∃ M, L.rank < M.rank ∧ ∃ e ∈ c.listed l M, Under d e) ∨ ∃ h ∈ c.droppedHosts, Under d h.text

/-- The order of the lists is kept, a domain is missing only where it is covered, and every line of the
three files is that of a domain of a list or of the host of an upstream. -/
structure Precise : Prop where
  precedence : ∀ L d, c.Highest l L d →
    (∀ line ∈ c.genDns t l .rules, line.domain = some d → line = c.ruleOf l L d) ∧
    (L = .white → server5335 d ∉ c.genDns t l .black) ∧
    (server5336 d ∈ c.genDns t l .white →
      L = .white ∨ c.mode = .all ∧ ∃ h ∈ c.dohLT, h.text = d)
  removal : ∀ L d, L ≠ .white → d ∈ c.listed l L → ¬ c.Covered l L d →
    c.ruleOf l L d ∈ c.genDns t l .rules ∧
    (c.mode = .gfw ∨ L = .black → server5335 d ∈ c.genDns t l .black)
  domains_only : ∀ line ∈ c.genDns t l .rules, line = .empty ∨
    (∃ L d, d ∈ c.listed l L ∧ line = c.ruleOf l L d) ∨
    c.mode = .gfw ∧ ∃ h ∈ c.dohT, line = .ipset h.text .blacklist
  domains_only_black : ∀ line ∈ c.genDns t l .black, line = .empty ∨ ∃ d, line = server5335 d ∧
    ((∃ L, d ∈ c.listed l L) ∨ c.mode = .gfw ∧ ∃ h ∈ c.dohT ++ c.droppedHosts, h.text = d)
  domains_only_white : ∀ line ∈ c.genDns t l .white, ∃ d, line = server5336 d ∧
    (d ∈ c.listed l .white ∨ c.mode = .all ∧ ∃ h ∈ c.dohLT, h.text = d)

/-- The words that the loops read, in their order, with the rule that is written for each. -/
def reads : List (Bytes × Option DnsLine) :=
  (c.groups l).flatMap (fun g ↦ (t.words g.lines).map fun i ↦ (i, some (g.rule i))) ++
    (t.words l.white).map fun i ↦ (i, none)

/-- The words that are read behind some groups. -/
def wordsBehind (gs : List Group) : List Bytes :=
  gs.flatMap (fun g ↦ t.words g.lines) ++ t.words l.white

/-- No word behind the entry, read as a pattern, takes out what was written for it. -/
def Kept (L : ListName) (d : Bytes) : Prop :=
  if L = .black then
    (∀ h ∈ c.droppedHosts, hostDrops h (server5335 d) = false) ∧
    ∀ v ∈ c.reads t l, t.drops v.1 (c.ruleOf l L d) = false ∧ t.drops v.1 (server5335 d) = false
  else
    (∃ pre r post, c.reads t l = pre ++ (d, some r) :: post ∧
      ∀ v ∈ post, t.drops v.1 r = false) ∧
    (c.mode = .gfw → ∃ pre g post, c.groups l = pre ++ g :: post ∧ d ∈ domains g.lines ∧
      ∀ v ∈ wordsBehind t l post, t.drops v (server5335 d) = false)

/-- A word that is read for the services is a domain whose highest list asks for the rule that is
written, or a later word takes the rule out; an entry that is not covered is kept. -/
structure CleanReads : Prop where
  written : ∀ pre i r post, c.reads t l = pre ++ (i, some r) :: post →
    (∃ L, c.Highest l L i ∧ r = c.ruleOf l L i) ∨ ∃ v ∈ post, t.drops v.1 r = true
  kept : ∀ L d, L ≠ .white → d ∈ c.listed l L → ¬ c.Covered l L d → c.Kept t l L d

end DnsConfig

/-! ## Words as patterns -/

/-- A byte of a domain is not special. -/
theorem not_special {b : UInt8} (hb : isDomainByte b = true) : b ∉ ascii "*?[]\\^$/" := by
  have hlist : ascii "*?[]\\^$/" = [0x2A, 0x3F, 0x5B, 0x5D, 0x5C, 0x5E, 0x24, 0x2F] := by decide
  rw [hlist]
  intro hmem
  simp only [List.mem_cons, List.not_mem_nil, or_false] at hmem
  obtain rfl | rfl | rfl | rfl | rfl | rfl | rfl | rfl := hmem <;> exact absurd hb (by decide)

/-- A domain is a word without special characters. -/
theorem Domain.isPlain (d : Domain) : isPlain d.text = true := by
  have hall : d.text.all isDomainByte = true := (Bool.and_eq_true_iff.mp d.valid).2
  refine List.all_eq_true.mpr fun b hb ↦ decide_eq_true ?_
  exact not_special (List.all_eq_true.mp hall b hb)

/-- A word fits itself as a pattern. -/
theorem fits_wordPattern_self (w : Bytes) : Fits (wordPattern w) w := by
  induction w with
  | nil => exact .nil
  | cons b w ih =>
    refine .cons ?_ ih
    show PatPlace.takes b (if b = 0x2E then .any else .one b) = true
    split_ifs
    · rfl
    · exact decide_eq_true rfl

/-- The text of a line that names a domain. -/
theorem DnsLine.text_of_domain {line : DnsLine} {d : Bytes} (h : line.domain = some d) :
    ∃ front back, line.text = front ++ 0x2F :: (d ++ 0x2F :: back) := by
  cases line with
  | empty => cases h
  | server d' port =>
    obtain rfl := Option.some.inj h
    exact ⟨_, _, rfl⟩
  | ipset d' set =>
    obtain rfl := Option.some.inj h
    exact ⟨_, _, rfl⟩
  | domainRules d' ns set =>
    obtain rfl := Option.some.inj h
    exact ⟨_, _, rfl⟩

/-- A domain that is read takes out the lines that name it. -/
theorem Tools.drops_self (t : Tools) (d : Domain) {line : DnsLine} (h : line.domain = some d.text) :
    t.drops d.text line = true := by
  obtain ⟨front, back, htext⟩ := DnsLine.text_of_domain h
  have hfinds : finds (.one 0x2F :: (wordPattern d.text ++ [.one 0x2F])) line.text = true := by
    rw [finds_iff]
    refine ⟨front, 0x2F :: (d.text ++ [0x2F]), back, by rw [htext]; simp, ?_⟩
    exact fits_between.mpr ⟨d.text, rfl, fits_wordPattern_self d.text⟩
  unfold Tools.drops
  rw [if_pos d.isPlain, hfinds, Bool.true_or]

/-- The lines that `gen_dns` writes: their port, or their name server, is no separator. -/
def DnsLine.Regular : DnsLine → Prop
  | .server _ port => (0x2F : UInt8) ∉ port
  | .domainRules _ ns _ => ns ≠ 0x2F
  | _ => True

/-- In such a line the separators stand on the two sides of the domain only. -/
theorem DnsLine.text_of_regular {line : DnsLine} {d : Bytes} (h : line.domain = some d)
    (hreg : line.Regular) :
    ∃ front back, line.text = front ++ 0x2F :: (d ++ 0x2F :: back) ∧ (0x2F : UInt8) ∉ front ∧
      (0x2E : UInt8) ∉ front ∧ (0x2F : UInt8) ∉ back := by
  have hname : ∀ set : DnsSet, (0x2F : UInt8) ∉ set.name := fun set ↦ by cases set <;> decide
  cases line with
  | empty => cases h
  | server d' port =>
    obtain rfl := Option.some.inj h
    refine ⟨_, _, rfl, by decide, by decide, ?_⟩
    rw [List.mem_append]
    rintro (hmem | hmem)
    · exact absurd hmem (by decide)
    · exact hreg hmem
  | ipset d' set =>
    obtain rfl := Option.some.inj h
    exact ⟨_, _, rfl, by decide, by decide, hname set⟩
  | domainRules d' ns set =>
    obtain rfl := Option.some.inj h
    refine ⟨_, _, rfl, by decide, by decide, ?_⟩
    rw [List.mem_append, List.mem_cons, List.mem_append]
    rintro (hmem | hmem | hmem | hmem)
    · exact absurd hmem (by decide)
    · exact hreg hmem.symm
    · exact absurd hmem (by decide)
    · exact hname set hmem

/-- A word without special characters takes out the domains that fit it, each dot for any byte, and
those that fit it behind one of their dots. -/
theorem Tools.drops_iff (t : Tools) {i : Bytes} (hi : isPlain i = true) {line : DnsLine} {d : Domain}
    (h : line.domain = some d.text) (hreg : line.Regular) :
    t.drops i line = true ↔ Fits (wordPattern i) d.text ∨
      ∃ y z, d.text = y ++ 0x2E :: z ∧ Fits (wordPattern i) z := by
  have hslash : (0x2F : UInt8) ∉ d.text := by
    intro hmem
    have hall : d.text.all isDomainByte = true := (Bool.and_eq_true_iff.mp d.valid).2
    exact absurd (List.all_eq_true.mp hall _ hmem) (by decide)
  obtain ⟨front, back, htext, hfront, hdot, hback⟩ := DnsLine.text_of_regular h hreg
  unfold Tools.drops
  rw [if_pos hi, htext, Bool.or_eq_true, finds_between hfront hslash hback,
    finds_behind (by decide) hfront hdot hslash hback]

/-- A domain of a file. -/
theorem exists_domain {lines : List ListLine} {d : Bytes} (h : d ∈ domains lines) :
    ∃ D : Domain, D.text = d ∧ .domain D ∈ lines := by
  obtain ⟨line, hline, hd⟩ := List.mem_filterMap.mp h
  cases line with
  | domain D => exact ⟨D, Option.some.inj hd, hline⟩
  | blank => cases hd
  | comment text => cases hd

/-- The loops read the domains of a file. -/
theorem Tools.mem_words (t : Tools) {lines : List ListLine} {d : Bytes} (h : d ∈ domains lines) :
    d ∈ t.words lines := by
  obtain ⟨D, rfl, hD⟩ := exists_domain h
  exact List.mem_flatMap.mpr ⟨.domain D, hD, List.mem_singleton.mpr rfl⟩

namespace DnsConfig

variable (t : Tools) (c : DnsConfig) (l : Lists)

/-! ## The files in the end -/

/-- The edits of the rules for one word. -/
def readEdits (v : Bytes × Option DnsLine) : List (FileEdit DnsLine) :=
  .delete (t.drops v.1) :: v.2.toList.map fun r ↦ .append [r]

/-- The edits of the rules in the loop of a service. -/
theorem editsOf_rules_group (g : Group) :
    editsOf .rules (c.groupCommands t g) =
      (t.words g.lines).flatMap fun i ↦ readEdits t (i, some (g.rule i)) := by
  have hrest : editsOf .rules (if c.mode = .gfw then
      [⟨.black, .append ((domains g.lines).map server5335)⟩,
        ⟨.black, .append (g.hosts.map fun h ↦ server5335 h.text)⟩] else [] : List DnsCommand) = [] := by
    split_ifs <;> rfl
  unfold groupCommands
  rw [editsOf_append, hrest, List.append_nil, editsOf_flatMap]
  rfl

/-- The hosts of the domestic upstreams touch `white.conf` alone. -/
theorem editsOf_whiteHosts {f : DnsFile} (hf : f ≠ .white) :
    editsOf f (if c.mode = .all then
      c.dohLT.flatMap fun h ↦
        [⟨.white, .delete fun _ ↦ true⟩, ⟨.white, .append [server5336 h.text]⟩]
      else [] : List DnsCommand) = [] := by
  split_ifs
  · rw [editsOf_flatMap]
    exact List.flatMap_eq_nil_iff.mpr fun _ _ ↦ by simp [editsOf, Ne.symm hf]
  · rfl

/-- The edits of the rules. -/
theorem editsOf_rules :
    editsOf .rules (c.commands t l) = (c.reads t l).flatMap (readEdits t) ++
      if l.white = [] then []
      else [.append ((domains l.white).map fun d ↦ .ipset d .overWanAc)] := by
  unfold commands whiteCommands reads
  rw [editsOf_append, editsOf_append, c.editsOf_whiteHosts (f := .rules) (by decide),
    List.nil_append, editsOf_flatMap, List.flatMap_append, List.flatMap_assoc, List.append_assoc]
  simp only [editsOf_rules_group, List.flatMap_map]
  congr 1
  split_ifs with hwhite
  · rw [hwhite]
    rfl
  · rw [editsOf_append, editsOf_flatMap]
    rfl

/-- What a word does to the rules. -/
theorem isBlock_readEdits (v : Bytes × Option DnsLine) :
    IsBlock (readEdits t v) (t.drops v.1) v.2.toList := by
  intro lines x
  obtain ⟨i, r | r⟩ := v
  · simp [readEdits, List.mem_filter]
  · simp [readEdits, List.mem_filter]

/-- The rules in the end: those of the start, those written for a word, neither taken out later, and
those of the white list. -/
theorem mem_rules {x : DnsLine} :
    x ∈ c.genDns t l .rules ↔
      (x ∈ c.startFiles l .rules ∧ ∀ v ∈ c.reads t l, t.drops v.1 x = false) ∨
      (∃ pre i post, c.reads t l = pre ++ (i, some x) :: post ∧ ∀ v ∈ post, t.drops v.1 x = false) ∨
      ∃ d ∈ domains l.white, x = .ipset d .overWanAc := by
  have hloops := mem_runEdits_blocks (isBlock_readEdits t) (c.reads t l) (c.startFiles l .rules) x
  have hwritten : (∃ pre b post, c.reads t l = pre ++ b :: post ∧ x ∈ b.2.toList ∧
      ∀ b' ∈ post, t.drops b'.1 x = false) ↔
      ∃ pre i post, c.reads t l = pre ++ (i, some x) :: post ∧
        ∀ v ∈ post, t.drops v.1 x = false := by
    constructor
    · rintro ⟨pre, ⟨i, r⟩, post, heq, hx, hpost⟩
      rw [Option.mem_toList] at hx
      obtain rfl : r = some x := hx
      exact ⟨pre, i, post, heq, hpost⟩
    · rintro ⟨pre, i, post, heq, hpost⟩
      exact ⟨pre, (i, some x), post, heq, by simp, hpost⟩
  rw [hwritten] at hloops
  unfold genDns
  rw [runCommands_apply, editsOf_rules, runEdits_append]
  split_ifs with hwhite
  · rw [runEdits_nil, hloops, hwhite]
    simp [domains]
  · rw [runEdits_append_cons, runEdits_nil, List.mem_append, hloops, or_assoc, List.mem_map]
    simp only [@eq_comm _ _ x]

/-- The words that a service reads. -/
theorem mem_reads {i : Bytes} {r : Option DnsLine} :
    (i, r) ∈ c.reads t l ↔
      (∃ g ∈ c.groups l, i ∈ t.words g.lines ∧ r = some (g.rule i)) ∨
        i ∈ t.words l.white ∧ r = none := by
  unfold reads
  rw [List.mem_append, List.mem_flatMap, List.mem_map]
  simp only [List.mem_map, Prod.mk.injEq]
  constructor
  · rintro (⟨g, hg, j, hj, rfl, rfl⟩ | ⟨j, hj, rfl, rfl⟩)
    · exact Or.inl ⟨g, hg, hj, rfl⟩
    · exact Or.inr ⟨hj, rfl⟩
  · rintro (⟨g, hg, hi, rfl⟩ | ⟨hi, rfl⟩)
    · exact Or.inl ⟨g, hg, i, hi, rfl, rfl⟩
    · exact Or.inr ⟨i, hi, rfl, rfl⟩

/-- What the loop of a service does to `black.conf`. -/
theorem isBlock_blackEdits (g : Group) :
    IsBlock (editsOf .black (c.groupCommands t g))
      (fun x ↦ (t.words g.lines).any fun i ↦ t.drops i x)
      (if c.mode = .gfw then
        (domains g.lines).map server5335 ++ g.hosts.map fun h ↦ server5335 h.text
      else []) := by
  have hloop : editsOf .black ((t.words g.lines).flatMap (groupStep t g)) =
      (t.words g.lines).flatMap fun i ↦ [.delete (t.drops i)] := by
    rw [editsOf_flatMap]
    rfl
  have hblock := isBlock_deletes t.drops (t.words g.lines)
  unfold groupCommands
  rw [editsOf_append, hloop]
  split_ifs with hgfw
  · have happ := (hblock.append ((domains g.lines).map server5335)).append
      (g.hosts.map fun h ↦ server5335 h.text)
    rw [List.nil_append, List.append_assoc] at happ
    exact happ
  · have hnone : editsOf .black ([] : List DnsCommand) = [] := rfl
    rw [hnone, List.append_nil]
    exact hblock

/-- The edits of `black.conf` for the white list. -/
theorem editsOf_black_white :
    editsOf .black (c.whiteCommands t l) = (t.words l.white).flatMap fun i ↦ [.delete (t.drops i)] := by
  unfold whiteCommands
  rw [editsOf_append, c.editsOf_whiteHosts (f := .black) (by decide), List.nil_append]
  split_ifs with hwhite
  · rw [hwhite]
    rfl
  · rw [editsOf_append, editsOf_flatMap]
    exact List.append_nil _

/-- `black.conf` in the end: the lines of the start and those of the groups, not taken out later. -/
theorem mem_black {x : DnsLine} :
    x ∈ c.genDns t l .black ↔
      (x ∈ c.blackConf l ∧ ∀ v ∈ c.reads t l, t.drops v.1 x = false) ∨
      ∃ pre g post, c.groups l = pre ++ g :: post ∧
        (c.mode = .gfw ∧ x ∈ (domains g.lines).map server5335 ++ g.hosts.map fun h ↦ server5335 h.text) ∧
        ∀ v ∈ wordsBehind t l post, t.drops v x = false := by
  have hany : ∀ ws : List Bytes, (ws.any fun i ↦ t.drops i x) = false ↔
      ∀ i ∈ ws, t.drops i x = false := fun ws ↦ by simp
  have hadded : ∀ g : Group, (x ∈ if c.mode = .gfw then
      (domains g.lines).map server5335 ++ g.hosts.map fun h ↦ server5335 h.text else []) ↔
      c.mode = .gfw ∧ x ∈ (domains g.lines).map server5335 ++ g.hosts.map fun h ↦
        server5335 h.text := fun g ↦ by split_ifs <;> simp_all
  unfold genDns commands
  rw [runCommands_apply, editsOf_append, runEdits_append, editsOf_flatMap, editsOf_black_white,
    isBlock_deletes t.drops, mem_runEdits_blocks (c.isBlock_blackEdits t)]
  simp only [hany, hadded, List.not_mem_nil, or_false, or_and_right]
  refine or_congr ?_ ?_
  · rw [and_assoc]
    refine and_congr_right fun _ ↦ ?_
    constructor
    · rintro ⟨hgroups, hwhite⟩ ⟨i, r⟩ hv
      obtain ⟨g, hg, hi, _⟩ | ⟨hi, _⟩ := (c.mem_reads t l).mp hv
      · exact hgroups g hg i hi
      · exact hwhite i hi
    · intro h
      exact ⟨fun g hg i hi ↦ h (i, some (g.rule i)) ((c.mem_reads t l).mpr (Or.inl ⟨g, hg, hi, rfl⟩)),
        fun i hi ↦ h (i, none) ((c.mem_reads t l).mpr (Or.inr ⟨hi, rfl⟩))⟩
  · constructor
    · rintro ⟨⟨pre, g, post, heq, hx, hpost⟩, hwhite⟩
      refine ⟨pre, g, post, heq, hx, fun v hv ↦ ?_⟩
      obtain hv | hv := List.mem_append.mp hv
      · obtain ⟨g', hg', hv⟩ := List.mem_flatMap.mp hv
        exact hpost g' hg' v hv
      · exact hwhite v hv
    · rintro ⟨pre, g, post, heq, hx, hpost⟩
      exact ⟨⟨pre, g, post, heq, hx, fun g' hg' v hv ↦
        hpost v (List.mem_append_left _ (List.mem_flatMap.mpr ⟨g', hg', hv⟩))⟩,
        fun v hv ↦ hpost v (List.mem_append_right _ hv)⟩

/-- What is in `white.conf` in the end: the white list, and in mode `all` the host of an upstream. -/
theorem of_mem_white {x : DnsLine} (h : x ∈ c.genDns t l .white) :
    ∃ d, x = server5336 d ∧
      (d ∈ domains l.white ∨ c.mode = .all ∧ ∃ h ∈ c.dohLT, h.text = d) := by
  unfold genDns at h
  rw [runCommands_apply] at h
  obtain hstart | ⟨xs, hxs, hx⟩ := mem_of_mem_runEdits h
  · exact absurd hstart List.not_mem_nil
  · obtain hgroup | hwhite := List.mem_append.mp (mem_editsOf.mp hxs)
    · obtain ⟨g, _, hg⟩ := List.mem_flatMap.mp hgroup
      obtain hstep | hgfw := List.mem_append.mp hg
      · obtain ⟨i, _, hi⟩ := List.mem_flatMap.mp hstep
        simp [groupStep] at hi
      · split_ifs at hgfw <;> simp at hgfw
    · obtain hhosts | hlist := List.mem_append.mp hwhite
      · split_ifs at hhosts with hall
        · obtain ⟨host, hhost, hmem⟩ := List.mem_flatMap.mp hhosts
          obtain rfl : xs = [server5336 host.text] := by simpa using hmem
          exact ⟨host.text, List.mem_singleton.mp hx, Or.inr ⟨hall, host, hhost, rfl⟩⟩
        · exact absurd hhosts List.not_mem_nil
      · split_ifs at hlist with hnone
        · exact absurd hlist List.not_mem_nil
        · obtain hstep | happ := List.mem_append.mp hlist
          · obtain ⟨i, _, hi⟩ := List.mem_flatMap.mp hstep
            simp [whiteStep] at hi
          · obtain rfl : xs = (domains l.white).map server5336 := by simpa using happ
            obtain ⟨e, he, rfl⟩ := List.mem_map.mp hx
            exact ⟨e, rfl, Or.inl he⟩

/-! ## The lists and the groups -/

/-- The lines of `black.conf` before the deletions. -/
theorem mem_blackLines {x : DnsLine} :
    x ∈ c.blackLines l ↔ ∃ d, x = server5335 d ∧
      (d ∈ c.listed l .black ∨ c.mode = .gfw ∧ ∃ h ∈ c.dohT, h.text = d) := by
  unfold blackLines listed
  by_cases hall : c.mode = .all
  · rw [if_pos hall, if_pos hall, hall]
    simp
  rw [if_neg hall, if_neg hall]
  by_cases hgfw : c.mode = .gfw
  · simp only [hgfw, if_true, List.mem_append, List.mem_map, true_and]
    constructor
    · rintro (⟨d, hd, rfl⟩ | ⟨h, hh, rfl⟩ | ⟨d, hd, rfl⟩)
      · exact ⟨d, rfl, Or.inl (Or.inl hd)⟩
      · exact ⟨h.text, rfl, Or.inr ⟨h, hh, rfl⟩⟩
      · exact ⟨d, rfl, Or.inl (Or.inr hd)⟩
    · rintro ⟨d, rfl, (hd | hd) | ⟨h, hh, rfl⟩⟩
      · exact Or.inl ⟨d, hd, rfl⟩
      · exact Or.inr (Or.inr ⟨d, hd, rfl⟩)
      · exact Or.inr (Or.inl ⟨h, hh, rfl⟩)
  · simp only [hgfw, if_false, List.append_nil, List.mem_map, false_and, or_false]
    constructor
    · rintro ⟨d, hd, rfl⟩
      exact ⟨d, rfl, hd⟩
    · rintro ⟨d, rfl, hd⟩
      exact ⟨d, hd, rfl⟩

/-- Sorting keeps the lines. -/
theorem mem_sortLines {x : DnsLine} (hx : x ≠ .empty) (lines : List DnsLine) :
    x ∈ sortLines lines ↔ x ∈ lines := by
  have hmem : x ∈ (lines.mergeSort fun a b ↦ decide (a.text ≤ b.text)).dedup ↔ x ∈ lines := by
    rw [List.mem_dedup, List.mem_mergeSort]
  unfold sortLines
  split
  · next h =>
    rw [h] at hmem
    rw [← hmem]
    simp [hx]
  · next h =>
    rw [h] at hmem
    exact hmem

/-- The lines of `black.conf` at the start. -/
theorem mem_blackConf {d : Bytes} :
    server5335 d ∈ c.blackConf l ↔
      (d ∈ c.listed l .black ∨ c.mode = .gfw ∧ ∃ h ∈ c.dohT, h.text = d) ∧
      ∀ h ∈ c.droppedHosts, hostDrops h (server5335 d) = false := by
  have hlines : server5335 d ∈ c.blackLines l ↔
      (d ∈ c.listed l .black ∨ c.mode = .gfw ∧ ∃ h ∈ c.dohT, h.text = d) := by
    rw [mem_blackLines]
    constructor
    · rintro ⟨e, he, h⟩
      obtain rfl : d = e := (DnsLine.server.inj he).1
      exact h
    · intro h
      exact ⟨d, rfl, h⟩
  have hconf : server5335 d ∈ c.blackConf l ↔ server5335 d ∈ (c.blackLines l).filter fun line ↦
      c.droppedHosts.all fun h ↦ !hostDrops h line := by
    unfold blackConf
    split
    · next h => simp [h]
    · exact mem_sortLines (by simp [server5335]) _
  rw [hconf, List.mem_filter, hlines]
  simp

/-- Every line of `black.conf` at the start is empty or sends a domain to a server. -/
theorem of_mem_blackConf {x : DnsLine} (h : x ∈ c.blackConf l) : x = .empty ∨ ∃ d, x = server5335 d := by
  by_cases hx : x = .empty
  · exact Or.inl hx
  right
  unfold blackConf at h
  split at h
  · exact absurd h List.not_mem_nil
  · rw [mem_sortLines hx] at h
    obtain ⟨d, hd, _⟩ := (c.mem_blackLines l).mp (List.mem_filter.mp h).1
    exact ⟨d, hd⟩

/-- The rules at the start. -/
theorem mem_startRules {x : DnsLine} :
    x ∈ c.startFiles l .rules ↔ x = .empty ∧ .empty ∈ c.blackConf l ∨
      ∃ d, x = .ipset d .blacklist ∧ server5335 d ∈ c.blackConf l := by
  show x ∈ (c.blackConf l).map toIpset ↔ _
  rw [List.mem_map]
  constructor
  · rintro ⟨y, hy, rfl⟩
    obtain rfl | ⟨d, rfl⟩ := c.of_mem_blackConf l hy
    · exact Or.inl ⟨rfl, hy⟩
    · exact Or.inr ⟨d, rfl, hy⟩
  · rintro (⟨rfl, hy⟩ | ⟨d, rfl, hy⟩)
    · exact ⟨.empty, hy, rfl⟩
    · exact ⟨server5335 d, hy, rfl⟩

/-- The domains of two files. -/
theorem mem_domains_append {d : Bytes} {l₁ l₂ : List ListLine} :
    d ∈ domains (l₁ ++ l₂) ↔ d ∈ domains l₁ ∨ d ∈ domains l₂ := by
  unfold domains
  rw [List.filterMap_append, List.mem_append]

/-- The domains of a file behind a blank line, if it is taken in. -/
theorem mem_domains_ite {d : Bytes} {p : Prop} [Decidable p] {lines : List ListLine} :
    d ∈ domains (if p then .blank :: lines else []) ↔ p ∧ d ∈ domains lines := by
  by_cases hp : p
  · rw [if_pos hp, and_iff_right hp]
    rfl
  · rw [if_neg hp]
    exact iff_of_false List.not_mem_nil fun h ↦ hp h.1

/-- The active groups. -/
theorem mem_groups {g : Group} :
    g ∈ c.groups l ↔ c.ybOn = true ∧ g = c.ybGroup l ∨ c.nfOn = true ∧ g = c.nfGroup l ∨
      c.cuOn = true ∧ g = c.cuGroup l := by
  have hone : ∀ (p : Bool) (x : Group), g ∈ (if p then [x] else []) ↔ p = true ∧ g = x := by
    intro p x
    cases p <;> simp
  unfold groups
  rw [List.mem_append, List.mem_append, hone, hone, hone, or_assoc]

/-- A list of a service is taken in by an active group. -/
theorem exists_group {L : ListName} {d : Bytes} (hblack : L ≠ .black) (hwhite : L ≠ .white)
    (h : d ∈ c.listed l L) :
    ∃ g ∈ c.groups l, d ∈ domains g.lines ∧ c.ruleOf l L d = g.rule d := by
  have hyb : c.ybOn = true → c.ybGroup l ∈ c.groups l := fun hon ↦
    (c.mem_groups l).mpr (Or.inl ⟨hon, rfl⟩)
  have hnf : c.nfOn = true → c.nfGroup l ∈ c.groups l := fun hon ↦
    (c.mem_groups l).mpr (Or.inr (Or.inl ⟨hon, rfl⟩))
  have hcu : c.cuOn = true → c.cuGroup l ∈ c.groups l := fun hon ↦
    (c.mem_groups l).mpr (Or.inr (Or.inr ⟨hon, rfl⟩))
  cases L with
  | black => exact absurd rfl hblack
  | white => exact absurd rfl hwhite
  | youtube =>
    dsimp only [listed] at h
    split_ifs at h with hon
    · exact ⟨_, hyb hon, mem_domains_append.mpr (Or.inl (mem_domains_append.mpr (Or.inl h))), rfl⟩
    · exact absurd h List.not_mem_nil
  | netflix =>
    dsimp only [listed] at h
    split_ifs at h with hon
    · by_cases hvia : c.nf = .youtube
      · have hybOn : c.ybOn = true := by
          obtain hnfOn | ⟨_, hybOn⟩ := hon
          · simp [nfOn, hvia] at hnfOn
          · exact hybOn
        refine ⟨_, hyb hybOn, mem_domains_append.mpr (Or.inl (mem_domains_append.mpr (Or.inr
          (mem_domains_ite.mpr ⟨hvia, h⟩)))), ?_⟩
        simp [ruleOf, groupOf, hvia]
      · have hnfOn : c.nfOn = true := hon.resolve_right fun hr ↦ hvia hr.1
        refine ⟨_, hnf hnfOn, mem_domains_append.mpr (Or.inl h), ?_⟩
        simp [ruleOf, groupOf, hvia]
    · exact absurd h List.not_mem_nil
  | custom =>
    dsimp only [listed] at h
    split_ifs at h with hon
    · by_cases hvia : c.cu = .youtube
      · have hybOn : c.ybOn = true := by
          obtain hcuOn | ⟨_, hybOn⟩ | ⟨hnetflix, _⟩ := hon
          · simp [cuOn, hvia] at hcuOn
          · exact hybOn
          · exact absurd (hvia.symm.trans hnetflix) (by decide)
        refine ⟨_, hyb hybOn, mem_domains_append.mpr (Or.inr (mem_domains_ite.mpr ⟨hvia, h⟩)), ?_⟩
        simp [ruleOf, groupOf, hvia]
      · by_cases hvia' : c.cu = .netflix
        · have hnfOn : c.nfOn = true := by
            obtain hcuOn | ⟨hyoutube, _⟩ | ⟨_, hnfOn⟩ := hon
            · simp [cuOn, hvia'] at hcuOn
            · exact absurd hyoutube hvia
            · exact hnfOn
          refine ⟨_, hnf hnfOn, mem_domains_append.mpr (Or.inr (mem_domains_ite.mpr ⟨hvia', h⟩)), ?_⟩
          simp [ruleOf, groupOf, hvia']
        · have hcuOn : c.cuOn = true := by
            obtain hcuOn | ⟨hyoutube, _⟩ | ⟨hnetflix, _⟩ := hon
            · exact hcuOn
            · exact absurd hyoutube hvia
            · exact absurd hnetflix hvia'
          refine ⟨_, hcu hcuOn, h, ?_⟩
          unfold ruleOf groupOf
          split <;> simp_all
    · exact absurd h List.not_mem_nil

/-- An active group takes in lists of services. -/
theorem exists_listed {g : Group} {d : Bytes} (hg : g ∈ c.groups l) (h : d ∈ domains g.lines) :
    ∃ L, L ≠ .black ∧ L ≠ .white ∧ d ∈ c.listed l L := by
  obtain ⟨hon, rfl⟩ | ⟨hon, rfl⟩ | ⟨hon, rfl⟩ := (c.mem_groups l).mp hg
  · obtain h | h := mem_domains_append.mp h
    · obtain h | h := mem_domains_append.mp h
      · refine ⟨.youtube, by decide, by decide, ?_⟩
        dsimp only [listed]
        rwa [if_pos hon]
      · obtain ⟨hvia, h⟩ := mem_domains_ite.mp h
        refine ⟨.netflix, by decide, by decide, ?_⟩
        dsimp only [listed]
        rwa [if_pos (Or.inr ⟨hvia, hon⟩)]
    · obtain ⟨hvia, h⟩ := mem_domains_ite.mp h
      refine ⟨.custom, by decide, by decide, ?_⟩
      dsimp only [listed]
      rwa [if_pos (Or.inr (Or.inl ⟨hvia, hon⟩))]
  · obtain h | h := mem_domains_append.mp h
    · refine ⟨.netflix, by decide, by decide, ?_⟩
      dsimp only [listed]
      rwa [if_pos (Or.inl hon)]
    · obtain ⟨hvia, h⟩ := mem_domains_ite.mp h
      refine ⟨.custom, by decide, by decide, ?_⟩
      dsimp only [listed]
      rwa [if_pos (Or.inr (Or.inr ⟨hvia, hon⟩))]
  · refine ⟨.custom, by decide, by decide, ?_⟩
    dsimp only [listed]
    rwa [if_pos (Or.inl hon)]

/-- What a list has is a domain. -/
theorem domain_of_listed {L : ListName} {d : Bytes} (h : d ∈ c.listed l L) :
    ∃ D : Domain, D.text = d := by
  have hfile : ∀ lines : List ListLine, d ∈ domains lines → ∃ D : Domain, D.text = d := fun lines hd ↦ by
    obtain ⟨D, hD, _⟩ := exists_domain hd
    exact ⟨D, hD⟩
  cases L <;> dsimp only [listed] at h
  case black =>
    split_ifs at h
    · exact absurd h List.not_mem_nil
    · obtain h | h := List.mem_append.mp h
      · exact hfile _ h
      · exact hfile _ h
    · obtain h | h := List.mem_append.mp h
      · exact hfile _ h
      · exact absurd h List.not_mem_nil
  case white => exact hfile _ h
  case youtube | netflix | custom =>
    split_ifs at h
    · exact hfile _ h
    · exact absurd h List.not_mem_nil

/-- A domain that is read takes out what names it. -/
theorem drops_listed {L : ListName} {d : Bytes} (h : d ∈ c.listed l L) {line : DnsLine}
    (hline : line.domain = some d) : t.drops d line = true := by
  obtain ⟨D, rfl⟩ := c.domain_of_listed l h
  exact t.drops_self D hline

/-- The domains of the lists above the black ones are read. -/
theorem exists_read {L : ListName} {d : Bytes} (hblack : L ≠ .black) (h : d ∈ c.listed l L) :
    ∃ r, (d, r) ∈ c.reads t l := by
  by_cases hwhite : L = .white
  · subst hwhite
    exact ⟨none, (c.mem_reads t l).mpr (Or.inr ⟨t.mem_words h, rfl⟩)⟩
  · obtain ⟨g, hg, hd, _⟩ := c.exists_group l hblack hwhite h
    exact ⟨_, (c.mem_reads t l).mpr (Or.inl ⟨g, hg, t.mem_words hd, rfl⟩)⟩

/-- The rule of a list names the domain. -/
theorem domain_ruleOf (L : ListName) (d : Bytes) : (c.ruleOf l L d).domain = some d := by
  unfold ruleOf
  split <;> rfl

/-- A rule that is written for a word is that of a group. -/
theorem exists_rule {pre post : List (Bytes × Option DnsLine)} {i : Bytes} {r : DnsLine}
    (h : c.reads t l = pre ++ (i, some r) :: post) : ∃ n set, r = .domainRules i n set := by
  have hmem : (i, some r) ∈ c.reads t l := by
    rw [h]
    exact List.mem_append_right _ List.mem_cons_self
  obtain ⟨g, _, _, hr⟩ | ⟨_, hr⟩ := (c.mem_reads t l).mp hmem
  · exact ⟨g.n, g.set, Option.some.inj hr⟩
  · cases hr

/-- The place of a list tells which it is. -/
theorem rank_inj {L M : ListName} (h : L.rank = M.rank) : L = M := by
  cases L <;> cases M <;> first | rfl | exact absurd h (by decide)

/-- There is one highest list. -/
theorem Highest.unique {L M : ListName} {d : Bytes} (hL : c.Highest l L d) (hM : c.Highest l M d) :
    L = M := rank_inj (le_antisymm (hM.2 L hL.1) (hL.2 M hM.1))

/-- A listed domain has a highest list. -/
theorem exists_highest {L : ListName} {d : Bytes} (h : d ∈ c.listed l L) : ∃ H, c.Highest l H d := by
  have hup : ∀ k L, d ∈ c.listed l L → 4 ≤ L.rank + k → ∃ H, c.Highest l H d := by
    intro k
    induction k with
    | zero =>
      intro L hd hk
      refine ⟨L, hd, fun M _ ↦ ?_⟩
      have hM : M.rank ≤ 4 := by cases M <;> decide
      omega
    | succ k ih =>
      intro L hd hk
      by_cases hmax : ∀ M, d ∈ c.listed l M → M.rank ≤ L.rank
      · exact ⟨L, hd, hmax⟩
      · obtain ⟨M, hM⟩ := not_forall.mp hmax
        obtain ⟨hdM, hlt⟩ := Classical.not_imp.mp hM
        exact ih M hdM (by omega)
  exact hup 4 L h (by omega)

/-- The list of a domain that is not covered is its highest. -/
theorem highest_of_not_covered {L : ListName} {d : Bytes} (h : d ∈ c.listed l L)
    (hcov : ¬ c.Covered l L d) : c.Highest l L d := by
  refine ⟨h, fun M hM ↦ ?_⟩
  by_contra hlt
  exact hcov (Or.inl ⟨M, by omega, d, hM, Or.inl rfl⟩)

/-- The hosts of a group are among those of lines 1014–1016. -/
theorem mem_droppedHosts {g : Group} (hg : g ∈ c.groups l) {h : Domain} (hh : h ∈ g.hosts) :
    h ∈ c.droppedHosts := by
  unfold droppedHosts
  obtain ⟨_, rfl⟩ | ⟨_, rfl⟩ | ⟨_, rfl⟩ := (c.mem_groups l).mp hg
  · exact List.mem_append_left _ (List.mem_append_left _ hh)
  · exact List.mem_append_left _ (List.mem_append_right _ hh)
  · exact List.mem_append_right _ hh

/-- A domain that is not covered is no host of a group. -/
theorem not_host_of_not_covered {L : ListName} {d : Bytes} (hcov : ¬ c.Covered l L d) {g : Group}
    (hg : g ∈ c.groups l) {h : Domain} (hh : h ∈ g.hosts) : h.text ≠ d := by
  rintro rfl
  exact hcov (Or.inr ⟨h, c.mem_droppedHosts l hg hh, Or.inl rfl⟩)

/-! ## The two directions -/

variable {t c l}

/-- The highest place. -/
theorem rank_le_white (L : ListName) : L.rank ≤ ListName.white.rank := by cases L <;> decide

/-- The white list is the highest. -/
theorem highest_white {d : Bytes} (h : d ∈ c.listed l .white) : c.Highest l .white d :=
  ⟨h, fun M _ ↦ rank_le_white M⟩

/-- What is not taken out by any word that is read is in no list above the black ones. -/
theorem not_listed_of_kept {d : Bytes} {line : DnsLine} (hline : line.domain = some d)
    (hkept : ∀ v ∈ c.reads t l, t.drops v.1 line = false) {L : ListName} (hL : L ≠ .black) :
    d ∉ c.listed l L := by
  intro hd
  obtain ⟨r, hr⟩ := c.exists_read t l hL hd
  have hdrop := c.drops_listed t l hd hline
  rw [hkept _ hr] at hdrop
  exact absurd hdrop (by decide)

/-- Where the reads are clean, a rule is that of a highest list, or that of the host of an upstream which
no list above the black ones has. -/
theorem CleanReads.rule_cases (h : c.CleanReads t l) {line : DnsLine}
    (hline : line ∈ c.genDns t l .rules) :
    line = .empty ∨ (∃ L d, c.Highest l L d ∧ line = c.ruleOf l L d) ∨
      c.mode = .gfw ∧ ∃ h ∈ c.dohT, line = .ipset h.text .blacklist ∧
        ∀ L, L ≠ .black → h.text ∉ c.listed l L := by
  obtain ⟨hstart, hkept⟩ | ⟨pre, i, post, hreads, hpost⟩ | ⟨d, hd, rfl⟩ := (c.mem_rules t l).mp hline
  · obtain ⟨rfl, _⟩ | ⟨d, rfl, hconf⟩ := (c.mem_startRules l).mp hstart
    · exact Or.inl rfl
    · have hother : ∀ L, L ≠ .black → d ∉ c.listed l L := fun L hL ↦
        not_listed_of_kept rfl hkept hL
      obtain hblack | ⟨hgfw, host, hhost, rfl⟩ := ((c.mem_blackConf l).mp hconf).1
      · refine Or.inr (Or.inl ⟨.black, d, ⟨hblack, fun M hM ↦ ?_⟩, rfl⟩)
        by_cases hM' : M = .black
        · rw [hM']
        · exact absurd hM (hother M hM')
      · exact Or.inr (Or.inr ⟨hgfw, host, hhost, rfl, hother⟩)
  · obtain ⟨L, hL, hr⟩ | ⟨v, hv, hdrop⟩ := h.written pre i line post hreads
    · exact Or.inr (Or.inl ⟨L, i, hL, hr⟩)
    · rw [hpost v hv] at hdrop
      exact absurd hdrop (by decide)
  · exact Or.inr (Or.inl ⟨.white, d, highest_white hd, rfl⟩)

/-- `black.conf` does not name what the white list has. -/
theorem not_mem_black_of_white {d : Bytes} (hd : d ∈ c.listed l .white) :
    server5335 d ∉ c.genDns t l .black := by
  intro hmem
  obtain ⟨_, hkept⟩ | ⟨pre, g, post, _, _, hpost⟩ := (c.mem_black t l).mp hmem
  · exact not_listed_of_kept rfl hkept (by decide) hd
  · have hdrop := c.drops_listed t l hd (show (server5335 d).domain = some d from rfl)
    rw [hpost d (List.mem_append_right _ (t.mem_words hd))] at hdrop
    exact absurd hdrop (by decide)

/-- What is in `black.conf` in the end: domains of the lists, and hosts of upstreams. -/
theorem of_mem_black {x : DnsLine} (h : x ∈ c.genDns t l .black) : x = .empty ∨ ∃ d, x = server5335 d ∧
    ((∃ L, d ∈ c.listed l L) ∨ c.mode = .gfw ∧ ∃ h ∈ c.dohT ++ c.droppedHosts, h.text = d) := by
  obtain ⟨hconf, _⟩ | ⟨pre, g, post, hgroups, ⟨hgfw, hx⟩, _⟩ := (c.mem_black t l).mp h
  · obtain hempty | ⟨d, rfl⟩ := c.of_mem_blackConf l hconf
    · exact Or.inl hempty
    · obtain hd | ⟨hgfw, host, hhost, hd⟩ := ((c.mem_blackConf l).mp hconf).1
      · exact Or.inr ⟨d, rfl, Or.inl ⟨.black, hd⟩⟩
      · exact Or.inr ⟨d, rfl, Or.inr ⟨hgfw, host, List.mem_append_left _ hhost, hd⟩⟩
  · have hg : g ∈ c.groups l := by
      rw [hgroups]
      exact List.mem_append_right _ List.mem_cons_self
    obtain hx | hx := List.mem_append.mp hx
    · obtain ⟨d, hd, rfl⟩ := List.mem_map.mp hx
      obtain ⟨L, _, _, hL⟩ := c.exists_listed l hg hd
      exact Or.inr ⟨d, rfl, Or.inl ⟨L, hL⟩⟩
    · obtain ⟨host, hhost, rfl⟩ := List.mem_map.mp hx
      exact Or.inr ⟨host.text, rfl, Or.inr ⟨hgfw, host,
        List.mem_append_right _ (c.mem_droppedHosts l hg hhost), rfl⟩⟩

/-- Clean reads keep the order of the lists. -/
theorem CleanReads.precise (h : c.CleanReads t l) : c.Precise t l where
  precedence := by
    intro L d hL
    refine ⟨fun line hline hd ↦ ?_, ?_, fun hmem ↦ ?_⟩
    · obtain rfl | ⟨L', d', hL', rfl⟩ | ⟨_, host, _, rfl, hother⟩ := h.rule_cases hline
      · cases hd
      · rw [domain_ruleOf] at hd
        obtain rfl := Option.some.inj hd
        rw [hL.unique c l hL']
      · obtain rfl : host.text = d := Option.some.inj hd
        have hblack : L = .black := by
          by_contra hne
          exact hother L hne hL.1
        rw [hblack]
        rfl
    · rintro rfl
      exact not_mem_black_of_white hL.1
    · obtain ⟨e, he, hwhite | hhost⟩ := c.of_mem_white t l hmem
      all_goals obtain rfl : d = e := (DnsLine.server.inj he).1
      · exact Or.inl (rank_inj (le_antisymm (rank_le_white L) (hL.2 .white hwhite)))
      · exact Or.inr hhost
  removal := by
    intro L d hwhite hd hcov
    have hhigh := c.highest_of_not_covered l hd hcov
    have hkept := h.kept L d hwhite hd hcov
    unfold Kept at hkept
    split_ifs at hkept with hblack
    · subst hblack
      obtain ⟨hhosts, hreads⟩ := hkept
      have hconf : server5335 d ∈ c.blackConf l := (c.mem_blackConf l).mpr ⟨Or.inl hd, hhosts⟩
      exact ⟨(c.mem_rules t l).mpr (Or.inl ⟨(c.mem_startRules l).mpr (Or.inr ⟨d, rfl, hconf⟩),
          fun v hv ↦ (hreads v hv).1⟩),
        fun _ ↦ (c.mem_black t l).mpr (Or.inl ⟨hconf, fun v hv ↦ (hreads v hv).2⟩)⟩
    · obtain ⟨⟨pre, r, post, hreads, hpost⟩, hgfw⟩ := hkept
      constructor
      · have hr : r = c.ruleOf l L d := by
          obtain ⟨M, hM, hr⟩ | ⟨v, hv, hdrop⟩ := h.written pre d r post hreads
          · rw [hhigh.unique c l hM]
            exact hr
          · rw [hpost v hv] at hdrop
            exact absurd hdrop (by decide)
        rw [← hr]
        exact (c.mem_rules t l).mpr (Or.inr (Or.inl ⟨pre, d, post, hreads, hpost⟩))
      · rintro (hmode | hblack')
        · obtain ⟨gpre, g, gpost, hgroups, hg, hbehind⟩ := hgfw hmode
          exact (c.mem_black t l).mpr (Or.inr ⟨gpre, g, gpost, hgroups,
            ⟨hmode, List.mem_append_left _ (List.mem_map.mpr ⟨d, hg, rfl⟩)⟩, hbehind⟩)
        · exact absurd hblack' hblack
  domains_only := by
    intro line hline
    obtain hempty | ⟨L, d, hL, hr⟩ | ⟨hgfw, host, hhost, hr, _⟩ := h.rule_cases hline
    · exact Or.inl hempty
    · exact Or.inr (Or.inl ⟨L, d, hL.1, hr⟩)
    · exact Or.inr (Or.inr ⟨hgfw, host, hhost, hr⟩)
  domains_only_black := fun line hline ↦ of_mem_black hline
  domains_only_white := fun line hline ↦ c.of_mem_white t l hline

/-- A line of a server that some group adds for a domain that is not covered comes from its file. -/
theorem mem_lines_of_not_covered {L : ListName} {d : Bytes} (hcov : ¬ c.Covered l L d) {g : Group}
    (hg : g ∈ c.groups l)
    (h : server5335 d ∈ (domains g.lines).map server5335 ++ g.hosts.map fun h ↦ server5335 h.text) :
    d ∈ domains g.lines := by
  have hinj : ∀ e, server5335 e = server5335 d → e = d := fun e he ↦ (DnsLine.server.inj he).1
  obtain hfile | hhost := List.mem_append.mp h
  · obtain ⟨e, he, heq⟩ := List.mem_map.mp hfile
    rw [← hinj e heq]
    exact he
  · obtain ⟨host, hmem, heq⟩ := List.mem_map.mp hhost
    exact absurd (hinj _ heq) (c.not_host_of_not_covered l hcov hg hmem)

/-- What is written and not taken out later is asked for by the highest list. -/
theorem Precise.written (h : c.Precise t l) {pre post : List (Bytes × Option DnsLine)} {i : Bytes}
    {r : DnsLine} (hreads : c.reads t l = pre ++ (i, some r) :: post)
    (hpost : ∀ v ∈ post, t.drops v.1 r = false) : ∃ L, c.Highest l L i ∧ r = c.ruleOf l L i := by
  have hmem : r ∈ c.genDns t l .rules :=
    (c.mem_rules t l).mpr (Or.inr (Or.inl ⟨pre, i, post, hreads, hpost⟩))
  obtain ⟨n, set, hr⟩ := c.exists_rule t l hreads
  have hdomain : r.domain = some i := by rw [hr, DnsLine.domain]
  obtain hempty | ⟨L, d, hd, hrule⟩ | ⟨_, host, _, hhost⟩ := h.domains_only r hmem
  · rw [hempty] at hdomain
    cases hdomain
  · rw [hrule, domain_ruleOf] at hdomain
    obtain rfl := Option.some.inj hdomain
    obtain ⟨H, hH⟩ := c.exists_highest l hd
    refine ⟨H, hH, (h.precedence H d hH).1 r hmem ?_⟩
    rw [hrule, domain_ruleOf]
  · rw [hr] at hhost
    cases hhost

/-- A black entry that is there in the end was not taken out. -/
theorem Precise.kept_black (h : c.Precise t l) {d : Bytes} (hd : d ∈ c.listed l .black)
    (hcov : ¬ c.Covered l .black d) : c.Kept t l .black d := by
  obtain ⟨hrule, hserver⟩ := h.removal .black d (by decide) hd hcov
  have hstart : server5335 d ∈ c.blackConf l ∧
      ∀ v ∈ c.reads t l, t.drops v.1 (c.ruleOf l .black d) = false := by
    obtain ⟨hs, hkept⟩ | ⟨pre, i, post, hreads, _⟩ | ⟨e, _, heq⟩ := (c.mem_rules t l).mp hrule
    · obtain ⟨hempty, _⟩ | ⟨e, heq, hconf⟩ := (c.mem_startRules l).mp hs
      · cases hempty
      · obtain rfl : d = e := (DnsLine.ipset.inj heq).1
        exact ⟨hconf, hkept⟩
    · obtain ⟨n, set, hr⟩ := c.exists_rule t l hreads
      cases hr
    · cases heq
  have hkept : ∀ v ∈ c.reads t l, t.drops v.1 (server5335 d) = false := by
    obtain ⟨_, hkept⟩ | ⟨pre, g, post, hgroups, ⟨_, hx⟩, _⟩ := (c.mem_black t l).mp (hserver (Or.inr rfl))
    · exact hkept
    · have hg : g ∈ c.groups l := by
        rw [hgroups]
        exact List.mem_append_right _ List.mem_cons_self
      obtain ⟨M, hblack, _, hM⟩ := c.exists_listed l hg (mem_lines_of_not_covered hcov hg hx)
      have hlt : ListName.black.rank < M.rank := by
        cases M <;> first | exact absurd rfl hblack | decide
      exact absurd (Or.inl ⟨M, hlt, d, hM, Or.inl rfl⟩) hcov
  unfold Kept
  rw [if_pos rfl]
  exact ⟨((c.mem_blackConf l).mp hstart.1).2, fun v hv ↦ ⟨hstart.2 v hv, hkept v hv⟩⟩

/-- An entry of a service that is there in the end was not taken out. -/
theorem Precise.kept_group (h : c.Precise t l) {L : ListName} {d : Bytes} (hblack : L ≠ .black)
    (hwhite : L ≠ .white) (hd : d ∈ c.listed l L) (hcov : ¬ c.Covered l L d) : c.Kept t l L d := by
  obtain ⟨hrule, hserver⟩ := h.removal L d hwhite hd hcov
  obtain ⟨g, _, _, hg⟩ := c.exists_group l hblack hwhite hd
  have hnotIpset : ∀ e set, c.ruleOf l L d ≠ .ipset e set := fun e set heq ↦ by
    rw [hg] at heq
    cases heq
  unfold Kept
  rw [if_neg hblack]
  refine ⟨?_, fun hgfw ↦ ?_⟩
  · obtain ⟨hs, _⟩ | ⟨pre, i, post, hreads, hpost⟩ | ⟨e, _, heq⟩ := (c.mem_rules t l).mp hrule
    · obtain ⟨hempty, _⟩ | ⟨e, heq, _⟩ := (c.mem_startRules l).mp hs
      · rw [hg] at hempty
        cases hempty
      · exact absurd heq (hnotIpset e _)
    · obtain ⟨n, set, hr⟩ := c.exists_rule t l hreads
      have hdomain := c.domain_ruleOf l L d
      rw [hr] at hdomain
      obtain rfl : i = d := Option.some.inj hdomain
      exact ⟨pre, _, post, hreads, hpost⟩
    · exact absurd heq (hnotIpset e _)
  · obtain ⟨_, hkept⟩ | ⟨pre, g', post, hgroups, ⟨_, hx⟩, hpost⟩ :=
      (c.mem_black t l).mp (hserver (Or.inl hgfw))
    · exact absurd hd (not_listed_of_kept rfl hkept hblack)
    · have hg' : g' ∈ c.groups l := by
        rw [hgroups]
        exact List.mem_append_right _ List.mem_cons_self
      exact ⟨pre, g', post, hgroups, mem_lines_of_not_covered hcov hg' hx, hpost⟩

/-- The rules are those that the lists ask for exactly where the reads are clean. -/
theorem precise_iff (t : Tools) (c : DnsConfig) (l : Lists) : c.Precise t l ↔ c.CleanReads t l := by
  refine ⟨fun h ↦ ⟨fun pre i r post hreads ↦ ?_, fun L d hwhite hd hcov ↦ ?_⟩, CleanReads.precise⟩
  · by_cases hdrop : ∃ v ∈ post, t.drops v.1 r = true
    · exact Or.inr hdrop
    · refine Or.inl (h.written hreads fun v hv ↦ ?_)
      exact Bool.eq_false_iff.mpr fun hv' ↦ hdrop ⟨v, hv, hv'⟩
  · by_cases hblack : L = .black
    · subst hblack
      exact h.kept_black hd hcov
    · exact h.kept_group hblack hwhite hd hcov

end DnsConfig

/-- A service on its own node, in mode `all`. -/
def commentConfig : DnsConfig where
  mode := .all
  not_oversea := by decide
  yb := .own
  nf := .off
  cu := .off
  dohT := []
  dohYbT := []
  dohNfT := []
  dohCuT := []
  dohLT := []

/-- `# video` in the list of that service, and nothing in the others. -/
def commentLists : Lists := ⟨[], [], [.comment (ascii " video")], [], [], []⟩

/-- No names in the working directory, and words of `sed` that meet no line. -/
def noTools : Tools := ⟨fun w ↦ [w], fun _ _ ↦ false⟩

/-- The comment is written into the rules. -/
theorem not_precise_comment : ¬ commentConfig.Precise noTools commentLists := by
  intro h
  have hwritten : DnsLine.domainRules (ascii "#") 0x63 .youtube ∈
      commentConfig.genDns noTools commentLists .rules := by decide +kernel
  have hlisted : ∀ L, commentConfig.listed commentLists L = [] := by
    intro L
    cases L <;> rfl
  obtain hempty | ⟨L, d, hd, _⟩ | ⟨hgfw, _⟩ := h.domains_only _ hwritten
  · cases hempty
  · rw [hlisted] at hd
    exact absurd hd List.not_mem_nil
  · exact absurd hgfw (by decide)

end OpenWrtCompile.Overwall
