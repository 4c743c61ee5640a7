import OpenWrtCompile.Overwall.Include

/-!
# The include against the rules

What `ipset_r` and `tp_rule` leave in each table, what the include of `gen_include` makes of it, and the
options for which the two are the same.
-/

namespace OpenWrtCompile.Overwall
open OpenWrtCompile.Base

namespace RuleOptions

variable (o : RuleOptions)

/-! ## The rules in the tables -/

/-- The rules of lines 214–219, in their order. -/
def dnsRules : List RuleText := if o.y then [dnsRule "udp", dnsRule "tcp"] else []

/-- The rules of overwall in front of a hook chain. -/
def hooked : IpFamily → TableName → HookChain → List RuleText
  | .v4, .nat, .prerouting => o.dnsRules ++ [hookRule "tcp" o.matchWords .wanAc]
  | .v4, .nat, .output => markRule :: o.proxyRules4.reverse
  | .v6, .nat, .prerouting => o.dnsRules ++ if o.mode = .router then o.hookRules6.reverse else []
  | .v6, .nat, .output => (if o.mode = .router then [markRule] else []) ++ o.proxyRules6.reverse
  | .v4, .mangle, .prerouting => if o.relay then [hookRule "udp" o.matchWords .tproxy] else []
  | .v6, .mangle, .prerouting =>
    if o.relay ∧ o.mode = .router then [hookRule "udp" [] .tproxy] else []
  | _, .mangle, .output => []

/-- The chains of overwall in a table. -/
def declares : IpFamily → TableName → OwnChain → Bool
  | .v4, .nat, .wanFw | .v4, .nat, .wanAc => true
  | .v6, .nat, .wanFw | .v6, .nat, .wanAc => o.mode = .router
  | .v4, .mangle, .tproxy => o.relay
  | .v6, .mangle, .tproxy => o.relay ∧ o.mode = .router
  | _, _, _ => false

/-- What overwall has in a table. -/
def part (body : OwnChain → List RuleText) (f : IpFamily) (n : TableName) : FwTable :=
  ⟨o.hooked f n, fun c ↦ if o.declares f n c then some (body c) else none⟩

/-- A chain is declared and filled. -/
theorem execAll_chainLines (t : FwTable) (c : OwnChain) (rs : List RuleText) :
    t.execAll (chainLines c rs) = some (t.setOwn c rs) := t.execAll_chain c rs

/-- The hijack of DNS goes in front. -/
theorem execAll_hijack (t : FwTable) :
    t.execAll o.hijack = some (t.setHook .prerouting (o.dnsRules ++ t.hooks .prerouting)) := by
  unfold hijack dnsRules
  cases o.y <;> simp [RuleTable.exec]

/-- The commands put the rules in front of the hook chains. -/
theorem execAll_commands (body : OwnChain → List RuleText) (f : IpFamily) (n : TableName)
    (t : FwTable) :
    t.execAll (o.commands body f n) =
      some ⟨fun h ↦ o.hooked f n h ++ t.hooks h,
        fun c ↦ if o.declares f n c then some (body c) else t.own c⟩ := by
  cases f <;> cases n <;> unfold commands
  case v4.nat =>
    simp only [RuleTable.execAll_append, execAll_chainLines, Option.bind_some,
      RuleTable.execAll_fronts, RuleTable.execAll_cons, RuleTable.exec, insertAt_one, Option.map_some,
      execAll_hijack]
    refine congrArg some (RuleTable.ext (funext fun h ↦ ?_) (funext fun c ↦ ?_))
    · cases h <;> simp [hooked]
    · cases c <;> simp [declares]
  case v4.mangle =>
    by_cases hr : o.relay
    · simp only [hr, if_true, RuleTable.execAll_append, execAll_chainLines, Option.bind_some,
        RuleTable.execAll_cons, RuleTable.exec, insertAt_one, Option.map_some, RuleTable.execAll_nil]
      refine congrArg some (RuleTable.ext (funext fun h ↦ ?_) (funext fun c ↦ ?_))
      · cases h <;> simp [hooked, hr]
      · cases c <;> simp [declares, hr]
    · rw [if_neg hr, RuleTable.execAll_nil]
      refine congrArg some (RuleTable.ext (funext fun h ↦ ?_) (funext fun c ↦ ?_))
      · cases h <;> simp [hooked, hr]
      · cases c <;> simp [declares, hr]
  case v6.nat =>
    by_cases hm : o.mode = .router
    · simp only [hm, if_true, RuleTable.execAll_append, execAll_chainLines, Option.bind_some,
        RuleTable.execAll_fronts, RuleTable.execAll_cons, RuleTable.exec, insertAt_one,
        Option.map_some, execAll_hijack, RuleTable.execAll_nil]
      refine congrArg some (RuleTable.ext (funext fun h ↦ ?_) (funext fun c ↦ ?_))
      · cases h <;> simp [hooked, hm]
      · cases c <;> simp [declares, hm]
    · rw [if_neg hm, List.nil_append, RuleTable.execAll_append, RuleTable.execAll_fronts,
        Option.bind_some, execAll_hijack]
      refine congrArg some (RuleTable.ext (funext fun h ↦ ?_) (funext fun c ↦ ?_))
      · cases h <;> simp [hooked, hm]
      · cases c <;> simp [declares, hm]
  case v6.mangle =>
    by_cases hrm : o.relay ∧ o.mode = .router
    · rw [if_pos hrm]
      simp only [RuleTable.execAll_append, execAll_chainLines, Option.bind_some,
        RuleTable.execAll_cons, RuleTable.exec, insertAt_one, Option.map_some, RuleTable.execAll_nil]
      refine congrArg some (RuleTable.ext (funext fun h ↦ ?_) (funext fun c ↦ ?_))
      · cases h <;> simp [hooked, hrm]
      · cases c <;> simp [declares, hrm]
    · rw [if_neg hrm, RuleTable.execAll_nil]
      refine congrArg some (RuleTable.ext (funext fun h ↦ ?_) (funext fun c ↦ ?_))
      · cases h <;> simp [hooked, hrm]
      · cases c <;> simp [declares, hrm]

/-- A hook into a chain of overwall. -/
@[simp] theorem isOverwall_hookRule (proto : String) (guard : RuleText) (c : OwnChain) :
    isOverwall (hookRule proto guard c) = true := by
  simp [isOverwall, hookRule, tagged, Word.overwall]

/-- A rule of the hijack. -/
theorem isOverwall_dnsRules {r : RuleText} (hr : r ∈ o.dnsRules) : isOverwall r = true := by
  unfold dnsRules at hr
  split_ifs at hr
  · simp only [List.mem_cons, List.not_mem_nil, or_false] at hr
    obtain rfl | rfl := hr <;> rfl
  · exact absurd hr List.not_mem_nil

/-- A rule of `proxy_rules`. -/
@[simp] theorem isOverwall_proxyRule (server : Word) : isOverwall (o.proxyRule server) = true := by
  simp [isOverwall, proxyRule, redirectTo, tagged, Word.overwall]

/-- A hook of IPv6. -/
theorem isOverwall_hookRules6 {r : RuleText} (hr : r ∈ o.hookRules6) : isOverwall r = true := by
  unfold hookRules6 at hr
  split at hr
  · obtain ⟨s, _, rfl⟩ := List.mem_map.mp hr
    simp [isOverwall, sourceRule, hookRule, tagged, Word.overwall]
  · obtain rfl := List.mem_singleton.mp hr
    exact isOverwall_hookRule ..

/-- Every rule that the script puts into a hook chain holds `OVERWALL`. -/
theorem isOverwall_hooked {f : IpFamily} {n : TableName} {h : HookChain} {r : RuleText}
    (hr : r ∈ o.hooked f n h) : isOverwall r = true := by
  have hmark : isOverwall markRule = true := isOverwall_hookRule ..
  cases f <;> cases n <;> cases h <;> dsimp only [hooked] at hr
  case v4.nat.prerouting =>
    obtain hr | hr := List.mem_append.mp hr
    · exact o.isOverwall_dnsRules hr
    · rw [List.mem_singleton.mp hr]
      exact isOverwall_hookRule ..
  case v4.nat.output =>
    obtain rfl | hr := List.mem_cons.mp hr
    · exact hmark
    · obtain ⟨a, _, rfl⟩ := List.mem_map.mp (List.mem_reverse.mp hr)
      exact o.isOverwall_proxyRule _
  case v6.nat.prerouting =>
    obtain hr | hr := List.mem_append.mp hr
    · exact o.isOverwall_dnsRules hr
    · split_ifs at hr
      · exact o.isOverwall_hookRules6 (List.mem_reverse.mp hr)
      · exact absurd hr List.not_mem_nil
  case v6.nat.output =>
    obtain hr | hr := List.mem_append.mp hr
    · split_ifs at hr
      · rw [List.mem_singleton.mp hr]
        exact hmark
      · exact absurd hr List.not_mem_nil
    · obtain ⟨a, _, rfl⟩ := List.mem_map.mp (List.mem_reverse.mp hr)
      exact o.isOverwall_proxyRule _
  case v4.mangle.prerouting | v6.mangle.prerouting =>
    split_ifs at hr
    · rw [List.mem_singleton.mp hr]
      exact isOverwall_hookRule ..
    · exact absurd hr List.not_mem_nil
  case v4.mangle.output | v6.mangle.output => exact absurd hr List.not_mem_nil

/-- Without rules of overwall before, only those of the script are there. -/
theorem ownPart_rules {body : Bodies} {fw : Firewall} {f : IpFamily} {n : TableName}
    (hfw : ownPart (fw f n) = .empty) :
    ownPart (o.rules body fw f n) = o.part (body f n) f n := by
  have hhooks : ∀ h, ((fw f n).hooks h).filter isOverwall = [] := fun h ↦
    congrFun (congrArg RuleTable.hooks hfw) h
  have hown : (fw f n).own = fun _ ↦ none := congrArg RuleTable.own hfw
  unfold rules ownPart
  rw [RuleTable.execEach_eq (o.execAll_commands (body f n) f n (fw f n))]
  refine RuleTable.ext (funext fun h ↦ ?_) (funext fun c ↦ ?_)
  · have hall : (o.hooked f n h).filter isOverwall = o.hooked f n h :=
      List.filter_eq_self.mpr fun r hr ↦ o.isOverwall_hooked hr
    simp only [List.filter_append, hall, hhooks, List.append_nil, part]
  · simp only [hown, part]

/-! ## The include -/

/-- The place that the include gives a rule of a hook chain. -/
def place (h : HookChain) (r : RuleText) : Nat :=
  if o.y ∧ h = .prerouting ∧ [.text "-p", .text "tcp"].isPrefixOf r then
    if [.text "-p", .text "tcp", .text "-m", .text "tcp", .text "--dport", .num 53].isPrefixOf r then 2
    else 3
  else 1

/-- The lines of the include for the hook chains. -/
theorem patch_insert (h : HookChain) (r : RuleText) :
    o.patch (.insert h 1 r) = .insert h (o.place h r) r := by
  unfold patch place
  cases o.y
  · simp
  · cases h
    · simp only [toThird, true_and, if_true]
      split_ifs with htcp hdns
      · simp only [toSecond, hdns, if_true]
      · simp only [toSecond, hdns, Bool.false_eq_true, if_false]
      · simp [toSecond]
    · simp [toThird, toSecond]

/-- Lines of the chains of overwall stay as they are. -/
theorem map_patch_own {α : Type} (g : α → FwLine) (xs : List α)
    (h : ∀ x, lineOverwall (g x) = true ∧ o.patch (toFront (g x)) = g x) :
    (((xs.map g).filter lineOverwall).map toFront).map o.patch = xs.map g := by
  have hall : (xs.map g).filter lineOverwall = xs.map g := by
    refine List.filter_eq_self.mpr fun line hl ↦ ?_
    obtain ⟨x, _, rfl⟩ := List.mem_map.mp hl
    exact (h x).1
  rw [hall, List.map_map, List.map_map]
  exact List.map_congr_left fun x _ ↦ (h x).2

/-- The rules of overwall in a hook chain get their places. -/
theorem map_patch_hook (h : HookChain) (rs : List RuleText) :
    (((rs.map (.appendHook h)).filter lineOverwall).map toFront).map o.patch =
      ((rs.filter isOverwall).map fun r ↦ (o.place h r, r)).map fun p ↦ .insert h p.1 p.2 := by
  rw [List.filter_map, List.map_map, List.map_map, List.map_map]
  exact List.map_congr_left fun r _ ↦ o.patch_insert h r

/-- The lines of the include for one table. -/
theorem map_patch_extractRules (t : FwTable) :
    (extractRules t).map o.patch =
      (([.wanFw, .wanAc, .tproxy] : List OwnChain).filter fun c ↦ (t.own c).isSome).map .declare ++
      ([.prerouting, .output] : List HookChain).flatMap (fun h ↦
        (((t.hooks h).filter isOverwall).map fun r ↦ (o.place h r, r)).map fun p ↦
          .insert h p.1 p.2) ++
      ([.wanFw, .wanAc, .tproxy] : List OwnChain).flatMap (fun c ↦
        ((t.own c).getD []).map (.append c)) := by
  have hdeclare := fun cs ↦ @map_patch_own o OwnChain .declare cs fun c ↦
    ⟨rfl, by unfold patch; cases o.y <;> rfl⟩
  have happend := fun c rs ↦ @map_patch_own o RuleText (.append c) rs fun r ↦
    ⟨rfl, by unfold patch; cases o.y <;> rfl⟩
  unfold extractRules saveTable RuleTable.save
  simp only [List.flatMap_cons, List.flatMap_nil, List.append_nil, List.filter_append,
    List.map_append, hdeclare, happend, map_patch_hook]

/-- Without overwall, the other rules of the hook chains are left. -/
theorem strip_eq (t : FwTable) :
    strip t = ⟨fun h ↦ (t.hooks h).filter fun r ↦ !isOverwall r, fun _ ↦ none⟩ := by
  have hdeclares : ∀ cs : List OwnChain,
      ((cs.map ScriptLine.declare : List FwLine).filter fun line ↦ !lineOverwall line) = [] :=
    fun cs ↦ by simp [lineOverwall]
  have happends : ∀ (c : OwnChain) (rs : List RuleText),
      ((rs.map (ScriptLine.append c) : List FwLine).filter fun line ↦ !lineOverwall line) = [] :=
    fun c rs ↦ by simp [lineOverwall]
  have hhooks : ∀ (h : HookChain) (rs : List RuleText),
      ((rs.map (ScriptLine.appendHook h) : List FwLine).filter fun line ↦ !lineOverwall line) =
        (rs.filter fun r ↦ !isOverwall r).map (.appendHook h) := fun h rs ↦ by
    rw [List.filter_map]
    rfl
  unfold strip saveTable RuleTable.save
  simp only [List.flatMap_cons, List.flatMap_nil, List.append_nil, List.filter_append, hdeclares,
    happends, hhooks, List.nil_append]
  rw [RuleTable.execAll_append, RuleTable.execAll_appendHooks, Option.bind_some,
    RuleTable.execAll_appendHooks, Option.getD_some]
  refine RuleTable.ext (funext fun h ↦ ?_) rfl
  cases h <;> simp [RuleTable.empty]

/-- The rules of overwall in one hook chain, put back in front of others. -/
def replay (h : HookChain) (rs l : List RuleText) : Option (List RuleText) :=
  insertAll (rs.map fun r ↦ (o.place h r, r)) l

/-- The script for one table, where no insertion is refused. -/
theorem execAll_include {s : FwTable} (t : FwTable) {f : HookChain → List RuleText}
    (hf : ∀ h, o.replay h ((ownPart s).hooks h) ((strip t).hooks h) = some (f h)) :
    (strip t).execAll ((extractRules s).map o.patch) = some ⟨f, s.own⟩ := by
  have hall : ∀ c : OwnChain, c ∈ ([.wanFw, .wanAc, .tproxy] : List OwnChain) := fun c ↦ by
    cases c <;> simp
  have hallHooks : ∀ h : HookChain, h ∈ ([.prerouting, .output] : List HookChain) := fun h ↦ by
    cases h <;> simp
  have hown : (strip t).own = fun _ ↦ none := by rw [strip_eq]
  have hmid : ∀ own, (⟨(strip t).hooks, own⟩ : FwTable).execAll
      (([.prerouting, .output] : List HookChain).flatMap fun h ↦
        (((s.hooks h).filter isOverwall).map fun r ↦ (o.place h r, r)).map fun p ↦
          .insert h p.1 p.2) = some ⟨f, own⟩ := fun own ↦ by
    have hnodup : ([.prerouting, .output] : List HookChain).Nodup := by decide
    have hhooks := RuleTable.execAll_hooks (⟨(strip t).hooks, own⟩ : FwTable) hnodup
      (fun h ↦ ((s.hooks h).filter isOverwall).map fun r ↦ (o.place h r, r)) f fun h _ ↦ hf h
    simpa only [hallHooks, if_true] using hhooks
  rw [map_patch_extractRules, RuleTable.execAll_append, RuleTable.execAll_append,
    RuleTable.execAll_declares, Option.bind_some, hmid, Option.bind_some,
    RuleTable.execAll_fill _ (by decide)]
  · simp only [hall, if_true]
  · intro c _
    cases hc : s.own c <;> simp [hall, hown, hc]

/-- The script for one family, where no insertion is refused. -/
theorem restoreFamily_eq {s now : TableName → FwTable} {f : TableName → HookChain → List RuleText}
    (hf : ∀ n h, o.replay h ((ownPart (s n)).hooks h) ((strip (now n)).hooks h) = some (f n h)) :
    restoreFamily (fun n ↦ (extractRules (s n)).map o.patch) now = fun n ↦ ⟨f n, (s n).own⟩ := by
  unfold restoreFamily
  rw [o.execAll_include (now .nat) (hf .nat)]
  dsimp only
  rw [o.execAll_include (now .mangle) (hf .mangle)]
  funext n
  cases n <;> rfl

/-- Rules that all go in front come back in the other order. -/
theorem replay_of_place_eq_one {h : HookChain} {rs : List RuleText} (l : List RuleText)
    (hplace : ∀ r ∈ rs, o.place h r = 1) : o.replay h rs l = some (rs.reverse ++ l) := by
  have hones : (rs.map fun r ↦ (o.place h r, r)) = rs.map fun r ↦ (1, r) :=
    List.map_congr_left fun r hr ↦ by rw [hplace r hr]
  unfold replay
  rw [hones, insertAll_ones]

/-- The rules of the hijack come first. -/
theorem replay_dnsRules (hy : o.y = true) (rs l : List RuleText) :
    o.replay .prerouting (o.dnsRules ++ rs) l =
      insertAll (rs.map fun r ↦ (o.place .prerouting r, r)) (dnsRule "udp" :: dnsRule "tcp" :: l) := by
  have hudp : o.place .prerouting (dnsRule "udp") = 1 := by
    unfold place
    rw [if_neg]
    rintro ⟨_, _, h⟩
    exact absurd h (by decide)
  have htcp : o.place .prerouting (dnsRule "tcp") = 2 := by
    unfold place
    rw [if_pos ⟨hy, rfl, by decide⟩, if_pos (by decide)]
  unfold replay dnsRules
  rw [if_pos hy]
  simp only [List.cons_append, List.nil_append, List.map_cons, insertAll_cons, hudp, htcp,
    insertAt_one, insertAt_two, Option.bind_some]

/-- With the hijack, rules that go behind its two come back in the other order behind these. -/
theorem replay_of_place_eq_three (hy : o.y = true) {rs : List RuleText} (l : List RuleText)
    (hplace : ∀ r ∈ rs, o.place .prerouting r = 3) :
    o.replay .prerouting (o.dnsRules ++ rs) l = some (o.dnsRules ++ (rs.reverse ++ l)) := by
  have hthrees : (rs.map fun r ↦ (o.place .prerouting r, r)) = rs.map fun r ↦ (3, r) :=
    List.map_congr_left fun r hr ↦ by rw [hplace r hr]
  rw [o.replay_dnsRules hy, hthrees, insertAll_threes, dnsRules, if_pos hy]
  rfl

/-- The place of a hook into a chain of overwall. -/
theorem place_hookRule_tcp (hy : o.y = true) {guard : RuleText} {c : OwnChain}
    (hguard : [.text "-m", .text "tcp"].isPrefixOf (guard ++ tagged [.chain c]) = false) :
    o.place .prerouting (hookRule "tcp" guard c) = 3 := by
  unfold place
  rw [if_pos ⟨hy, rfl, rfl⟩, if_neg]
  intro h
  obtain ⟨rest, hrest⟩ := List.isPrefixOf_iff_prefix.mp h
  have htail : [Word.text "-m", .text "tcp"] <+: guard ++ tagged [.chain c] :=
    ⟨.text "--dport" :: .num 53 :: rest, by simpa [hookRule] using hrest⟩
  rw [List.isPrefixOf_iff_prefix.mpr htail] at hguard
  exact absurd hguard (by decide)

/-! ## The order in each hook chain -/

/-- The rules of overwall in a hook chain are put back, and in their order if and only if `P`. -/
def KeepsOrder (f : IpFamily) (n : TableName) (h : HookChain) (P : Prop) : Prop :=
  ∀ l : List RuleText, l.filter isOverwall = [] →
    ∃ l', o.replay h (o.hooked f n h) l = some l' ∧ (l'.filter isOverwall = o.hooked f n h ↔ P)

/-- Rules of overwall in front of others. -/
theorem filter_hooked {f : IpFamily} {n : TableName} {h : HookChain} {rs l : List RuleText}
    (hrs : ∀ r ∈ rs, r ∈ o.hooked f n h) (hl : l.filter isOverwall = []) :
    (rs ++ l).filter isOverwall = rs := by
  have hall : rs.filter isOverwall = rs :=
    List.filter_eq_self.mpr fun r hr ↦ o.isOverwall_hooked (hrs r hr)
  rw [List.filter_append, hall, hl, List.append_nil]

/-- Rules that all go in front keep their order if this reads the same backwards. -/
theorem keepsOrder_reverse {f : IpFamily} {n : TableName} {h : HookChain}
    (hplace : ∀ r ∈ o.hooked f n h, o.place h r = 1) :
    o.KeepsOrder f n h ((o.hooked f n h).reverse = o.hooked f n h) := by
  intro l hl
  refine ⟨_, o.replay_of_place_eq_one l hplace, ?_⟩
  rw [o.filter_hooked (fun r hr ↦ List.mem_reverse.mp hr) hl]

/-- All rules of `OUTPUT` go in front. -/
theorem place_output (r : RuleText) : o.place .output r = 1 := by
  unfold place
  rw [if_neg]
  rintro ⟨_, h, _⟩
  exact absurd h (by decide)

/-- Without the hijack all rules go in front. -/
theorem place_of_not_y (hy : o.y = false) (h : HookChain) (r : RuleText) : o.place h r = 1 := by
  unfold place
  rw [if_neg]
  rintro ⟨hy', _⟩
  exact absurd (hy'.symm.trans hy) (by decide)

/-- UDP hooks go in front. -/
theorem place_hookRule_udp (h : HookChain) (guard : RuleText) (c : OwnChain) :
    o.place h (hookRule "udp" guard c) = 1 := by
  unfold place
  rw [if_neg]
  rintro ⟨_, _, hudp⟩
  simp [hookRule, List.isPrefixOf] at hudp

variable {o} in
/-- The same under an equivalent condition. -/
theorem KeepsOrder.congr {f : IpFamily} {n : TableName} {h : HookChain} {P Q : Prop}
    (hP : o.KeepsOrder f n h P) (hPQ : P ↔ Q) : o.KeepsOrder f n h Q := by
  intro l hl
  obtain ⟨l', hl', hiff⟩ := hP l hl
  exact ⟨l', hl', hiff.trans hPQ⟩

/-- A list behind an element it does not hold reads the same backwards only if it is empty. -/
theorem reverse_cons_eq_iff {α : Type} {x : α} {xs : List α} (hx : x ∉ xs) :
    (x :: xs).reverse = x :: xs ↔ xs = [] := by
  constructor
  · intro h
    obtain rfl | ⟨ys, y, rfl⟩ := List.eq_nil_or_concat' xs
    · rfl
    · rw [List.reverse_cons, List.reverse_append, List.reverse_singleton] at h
      have hhead : y = x := (List.cons.inj h).1
      exact absurd (List.mem_append_right ys (List.mem_singleton.mpr hhead.symm)) hx
  · rintro rfl
    rfl

/-- An injective map keeps whether a list reads the same backwards. -/
theorem reverse_map_eq_iff {α β : Type} {g : α → β} (hg : Function.Injective g) (xs : List α) :
    (xs.map g).reverse = xs.map g ↔ xs.reverse = xs := by
  rw [← List.map_reverse]
  exact (List.map_injective_iff.mpr hg).eq_iff

/-- The jump behind the mark is no rule of `proxy_rules`. -/
theorem markRule_ne_proxyRule (w : Word) : markRule ≠ o.proxyRule w := by
  intro h
  have hhead : Word.text "-p" = .text "-d" := (List.cons.inj h).1
  exact absurd hhead (by decide)

/-- `OUTPUT` of IPv4: the jump behind the mark stands in front of the rules of `proxy_rules`. -/
theorem keepsOrder_output4 : o.KeepsOrder .v4 .nat .output (o.proxied4 = []) := by
  have hmark : markRule ∉ o.proxyRules4.reverse := by
    intro h
    obtain ⟨a, _, ha⟩ := List.mem_map.mp (List.mem_reverse.mp h)
    exact o.markRule_ne_proxyRule _ ha.symm
  refine (o.keepsOrder_reverse fun r _ ↦ o.place_output r).congr ?_
  dsimp only [hooked]
  rw [reverse_cons_eq_iff hmark, List.reverse_eq_nil_iff, proxyRules4, List.map_eq_nil_iff]

/-- `OUTPUT` of IPv6: the jump is there in router mode. -/
theorem keepsOrder_output6 :
    o.KeepsOrder .v6 .nat .output
      (if o.mode = .router then o.proxied6 = [] else o.proxied6.reverse = o.proxied6) := by
  have hmark : markRule ∉ o.proxyRules6.reverse := by
    intro h
    obtain ⟨a, _, ha⟩ := List.mem_map.mp (List.mem_reverse.mp h)
    exact o.markRule_ne_proxyRule _ ha.symm
  have hinj : Function.Injective fun a ↦ o.proxyRule (.net6 a (BitVec.allOnes 128)) := by
    intro a b hab
    simpa [proxyRule] using hab
  refine (o.keepsOrder_reverse fun r _ ↦ o.place_output r).congr ?_
  dsimp only [hooked]
  split_ifs
  · rw [List.singleton_append, reverse_cons_eq_iff hmark, List.reverse_eq_nil_iff, proxyRules6,
      List.map_eq_nil_iff]
  · rw [List.nil_append, List.reverse_reverse, eq_comm, proxyRules6, reverse_map_eq_iff hinj]

/-- `PREROUTING` of `mangle` has one rule at most. -/
theorem keepsOrder_mangle (f : IpFamily) (h : HookChain) : o.KeepsOrder f .mangle h True := by
  have hplace : ∀ r ∈ o.hooked f .mangle h, o.place h r = 1 := by
    intro r hr
    cases f <;> cases h <;> dsimp only [hooked] at hr
    case v4.prerouting | v6.prerouting =>
      split_ifs at hr
      · rw [List.mem_singleton.mp hr]
        exact o.place_hookRule_udp ..
      · exact absurd hr List.not_mem_nil
    case v4.output | v6.output => exact absurd hr List.not_mem_nil
  refine (o.keepsOrder_reverse hplace).congr (iff_of_true ?_ trivial)
  cases f <;> cases h <;> dsimp only [hooked]
  case v4.prerouting | v6.prerouting => split_ifs <;> rfl
  case v4.output | v6.output => rfl

/-- `PREROUTING` of the IPv4 table `nat`: the hook is put behind the two rules of the hijack. -/
theorem keepsOrder_prerouting4 : o.KeepsOrder .v4 .nat .prerouting True := by
  cases hy : o.y
  · refine (o.keepsOrder_reverse fun r _ ↦ o.place_of_not_y hy _ r).congr (iff_of_true ?_ trivial)
    simp [hooked, dnsRules, hy]
  · intro l hl
    have hthree : ∀ r ∈ [hookRule "tcp" o.matchWords .wanAc], o.place .prerouting r = 3 := by
      intro r hr
      rw [List.mem_singleton.mp hr]
      refine o.place_hookRule_tcp hy ?_
      unfold matchWords
      split <;> rfl
    refine ⟨_, o.replay_of_place_eq_three hy l hthree, iff_of_true ?_ trivial⟩
    rw [← List.append_assoc, List.reverse_singleton]
    exact o.filter_hooked (f := .v4) (n := .nat) (h := .prerouting) (fun r hr ↦ hr) hl

/-- The IPv6 hooks put behind the hijack again: those without `-s`. -/
theorem place_sourceRule (hy : o.y = true) (s : Source 128) :
    o.place .prerouting (sourceRule s) = if s.mask = 0 then 3 else 1 := by
  unfold sourceRule Source.words
  split_ifs with hmask
  · exact o.place_hookRule_tcp hy rfl
  · unfold place
    rw [if_neg]
    rintro ⟨_, _, h⟩
    exact absurd h (by simp [List.isPrefixOf])

/-- Which orders of the IPv6 hooks the include keeps. -/
def whiteKept : Prop :=
  if o.y then ∀ s ∈ o.whitelisted6, s.mask = 0
  else (o.whitelisted6.map Source.words).reverse = o.whitelisted6.map Source.words

/-- Without a white list there is one hook, for all addresses. -/
theorem hookRules6_cases : o.hookRules6 = o.whitelisted6.map sourceRule ∨
    o.whitelisted6 = [] ∧ o.hookRules6 = [sourceRule ⟨0, 0⟩] := by
  unfold hookRules6 whitelisted6
  split
  · exact Or.inl rfl
  · exact Or.inr ⟨rfl, rfl⟩

/-- `PREROUTING` of the IPv6 table `nat` without the hijack. -/
theorem keepsOrder_prerouting6_of_not_y (hy : o.y = false) :
    o.KeepsOrder .v6 .nat .prerouting (o.mode = .router → o.whiteKept) := by
  refine (o.keepsOrder_reverse fun r _ ↦ o.place_of_not_y hy _ r).congr ?_
  have hinj : Function.Injective fun w : RuleText ↦ w ++ hookRule "tcp" [] .wanAc := fun a b hab ↦
    List.append_cancel_right hab
  have hmap : o.whitelisted6.map sourceRule =
      (o.whitelisted6.map Source.words).map fun w ↦ w ++ hookRule "tcp" [] .wanAc := by
    rw [List.map_map]
    rfl
  dsimp only [hooked]
  rw [dnsRules, if_neg (by simp [hy]), List.nil_append]
  by_cases hm : o.mode = .router
  · rw [if_pos hm, List.reverse_reverse, eq_comm]
    simp only [hm, forall_const, whiteKept, hy, Bool.false_eq_true, if_false]
    obtain hhooks | ⟨hnone, hhooks⟩ := o.hookRules6_cases
    · rw [hhooks, hmap, reverse_map_eq_iff hinj]
    · rw [hhooks, hnone]
      exact iff_of_true rfl rfl
  · rw [if_neg hm]
    exact iff_of_true rfl fun h ↦ absurd h hm

/-- With the hijack, hooks without `-s` stay behind its rules; as they are all the same, their order
does not matter. -/
theorem keepsOrder_of_all_wide (hy : o.y = true) (hwide : ∀ s ∈ o.whitelisted6, s.mask = 0)
    (hm : o.mode = .router) : o.KeepsOrder .v6 .nat .prerouting True := by
  have hsame : ∀ r ∈ o.hookRules6, r = sourceRule ⟨0, 0⟩ := by
    intro r hr
    obtain hhooks | ⟨_, hhooks⟩ := o.hookRules6_cases
    · rw [hhooks] at hr
      obtain ⟨s, hs, rfl⟩ := List.mem_map.mp hr
      rw [sourceRule, sourceRule, Source.words, if_pos (hwide s hs)]
      rfl
    · rw [hhooks] at hr
      exact List.mem_singleton.mp hr
  have hthree : ∀ r ∈ o.hookRules6.reverse, o.place .prerouting r = 3 := by
    intro r hr
    rw [hsame r (List.mem_reverse.mp hr), o.place_sourceRule hy, if_pos rfl]
  have hrev : o.hookRules6.reverse = o.hookRules6 := by
    rw [List.eq_replicate_of_mem hsame, List.reverse_replicate]
  have hhooked : o.hooked .v6 .nat .prerouting = o.dnsRules ++ o.hookRules6.reverse := by
    dsimp only [hooked]
    rw [if_pos hm]
  intro l hl
  rw [hhooked]
  refine ⟨_, o.replay_of_place_eq_three hy l hthree, iff_of_true ?_ trivial⟩
  rw [← List.append_assoc, List.reverse_reverse, hrev]
  refine o.filter_hooked (f := .v6) (n := .nat) (h := .prerouting) (fun r hr ↦ ?_) hl
  rw [hhooked, hrev]
  exact hr

/-- With the hijack, a hook with `-s` gets in front of its rules. -/
theorem keepsOrder_of_narrow (hy : o.y = true) {s : Source 128} (hs : s ∈ o.whitelisted6)
    (hmask : s.mask ≠ 0) (hm : o.mode = .router) : o.KeepsOrder .v6 .nat .prerouting False := by
  have hhooks : o.hookRules6 = o.whitelisted6.map sourceRule := by
    obtain hhooks | ⟨hnone, _⟩ := o.hookRules6_cases
    · exact hhooks
    · rw [hnone] at hs
      exact absurd hs List.not_mem_nil
  have hhooked : o.hooked .v6 .nat .prerouting =
      o.dnsRules ++ (o.whitelisted6.map sourceRule).reverse := by
    dsimp only [hooked]
    rw [if_pos hm, hhooks]
  intro l hl
  rw [hhooked, o.replay_dnsRules hy]
  have hne : ∀ t, sourceRule t ≠ dnsRule "udp" := by
    intro t ht
    unfold sourceRule Source.words at ht
    split_ifs at ht
    · exact absurd ht (by decide)
    · exact absurd (List.cons.inj ht).1 (by decide)
  obtain ⟨a, l', hrun, ha, hown⟩ := insertAll_front
    (P := fun r ↦ r ≠ dnsRule "udp" ∧ isOverwall r = true)
    ((o.whitelisted6.map sourceRule).reverse.map fun r ↦ (o.place .prerouting r, r))
    (fun p hp ↦ by
      obtain ⟨r, hr, rfl⟩ := List.mem_map.mp hp
      obtain ⟨t, _, rfl⟩ := List.mem_map.mp (List.mem_reverse.mp hr)
      have hplace := o.place_sourceRule hy t
      split_ifs at hplace
      · exact Or.inl hplace
      · exact Or.inr ⟨hplace, hne t, by simp [isOverwall, sourceRule, hookRule, tagged, Word.overwall]⟩)
    (dnsRule "udp") (dnsRule "tcp") l
    (Or.inr ⟨_, List.mem_map.mpr ⟨_, List.mem_reverse.mpr (List.mem_map.mpr ⟨s, hs, rfl⟩), rfl⟩, by
      rw [o.place_sourceRule hy, if_neg hmask]⟩)
  refine ⟨_, hrun, iff_of_false ?_ not_false⟩
  rw [List.filter_cons, if_pos hown, dnsRules, if_pos hy]
  intro h
  exact ha (List.cons.inj h).1

/-- `PREROUTING` of the IPv6 table `nat`. -/
theorem keepsOrder_prerouting6 :
    o.KeepsOrder .v6 .nat .prerouting (o.mode = .router → o.whiteKept) := by
  cases hy : o.y
  · exact o.keepsOrder_prerouting6_of_not_y hy
  by_cases hm : o.mode = .router
  · by_cases hwide : ∀ s ∈ o.whitelisted6, s.mask = 0
    · refine (o.keepsOrder_of_all_wide hy hwide hm).congr (iff_of_true trivial fun _ ↦ ?_)
      rw [whiteKept, if_pos hy]
      exact hwide
    · obtain ⟨s, hs⟩ := not_forall.mp hwide
      obtain ⟨hmem, hmask⟩ := Classical.not_imp.mp hs
      refine (o.keepsOrder_of_narrow hy hmem hmask hm).congr (iff_of_false not_false fun h ↦ ?_)
      have hkept := h hm
      rw [whiteKept, if_pos hy] at hkept
      exact hwide hkept
  · intro l hl
    have hhooked : o.hooked .v6 .nat .prerouting = o.dnsRules ++ [] := by
      dsimp only [hooked]
      rw [if_neg hm]
    rw [hhooked]
    refine ⟨_, o.replay_of_place_eq_three hy l fun r hr ↦ absurd hr List.not_mem_nil,
      iff_of_true ?_ fun h ↦ absurd h hm⟩
    rw [List.append_nil, List.reverse_nil, List.nil_append]
    refine o.filter_hooked (f := .v6) (n := .nat) (h := .prerouting) (fun r hr ↦ ?_) hl
    rw [hhooked, List.append_nil]
    exact hr

/-! ## The whole include -/

/-- The condition under which the rules of a hook chain come back in their order. -/
def orderKept : IpFamily → TableName → HookChain → Prop
  | .v4, .nat, .output => o.proxied4 = []
  | .v6, .nat, .output =>
    if o.mode = .router then o.proxied6 = [] else o.proxied6.reverse = o.proxied6
  | .v6, .nat, .prerouting => o.mode = .router → o.whiteKept
  | _, _, _ => True

/-- Every hook chain comes back, in its order under its condition. -/
theorem keepsOrder (f : IpFamily) (n : TableName) (h : HookChain) :
    o.KeepsOrder f n h (o.orderKept f n h) := by
  cases n with
  | mangle => cases f <;> exact o.keepsOrder_mangle _ h
  | nat =>
    cases f <;> cases h
    case v4.prerouting => exact o.keepsOrder_prerouting4
    case v4.output => exact o.keepsOrder_output4
    case v6.prerouting => exact o.keepsOrder_prerouting6
    case v6.output => exact o.keepsOrder_output6

/-- A family that the include writes gets back what the rules put there if every hook chain keeps its
order. -/
theorem runInclude_eq_iff (body : Bodies) {fw : Firewall} (now : Firewall) {f : IpFamily}
    (hfw : ∀ n, ownPart (fw f n) = .empty) (hin : f = .v4 ∨ o.y = true ∨ o.mode = .router) :
    (∀ n, ownPart (runInclude (o.genInclude (o.rules body fw)) now f n) =
      ownPart (o.rules body fw f n)) ↔ ∀ n h, o.orderKept f n h := by
  have hpart := fun n ↦ @ownPart_rules o body fw f n (hfw n)
  have hforeign : ∀ n h, ((strip (now f n)).hooks h).filter isOverwall = [] := fun n h ↦ by
    rw [strip_eq, List.filter_eq_nil_iff]
    intro r hr
    simpa using (List.mem_filter.mp hr).2
  choose g hg hiff using fun n h ↦ o.keepsOrder f n h _ (hforeign n h)
  have hrun : runInclude (o.genInclude (o.rules body fw)) now f =
      fun n ↦ ⟨g n, (o.rules body fw f n).own⟩ := by
    unfold runInclude genInclude
    rw [if_pos hin]
    refine o.restoreFamily_eq fun n h ↦ ?_
    rw [hpart]
    exact hg n h
  rw [hrun]
  refine forall_congr' fun n ↦ ?_
  have hown : (o.rules body fw f n).own = (o.part (body f n) f n).own := by
    rw [← hpart n]
    rfl
  rw [hpart n, RuleTable.ext_iff, funext_iff]
  constructor
  · rintro ⟨h, _⟩ k
    exact (hiff n k).mp (h k)
  · intro h
    exact ⟨fun k ↦ (hiff n k).mpr (h k), hown⟩

/-- Options for which the include is right: no IPv4 server of a shunt is itself proxied; the IPv6 ones
that are read the same backwards, with the hijack outside router mode, and otherwise there are none; and
the IPv6 items of a white list in router mode are all addresses with the hijack, and read the same
backwards without it. -/
def Restorable : Prop :=
  o.proxied4 = [] ∧
  (o.proxied6 = [] ∨ o.mode ≠ .router ∧ o.y = true ∧ o.proxied6.reverse = o.proxied6) ∧
  (o.mode = .router → o.whiteKept)

/-- Without the hijack and outside router mode the include leaves IPv6 alone. -/
theorem runInclude_v6_of_out (hout : ¬ (o.y = true ∨ o.mode = .router)) (s now : Firewall) :
    runInclude (o.genInclude s) now .v6 = now .v6 := by
  unfold runInclude genInclude
  rw [if_neg]
  rintro (h | h)
  · exact absurd h (by decide)
  · exact hout h

/-- There, the rules of `proxy_rules` are all that overwall has in IPv6. -/
theorem part_v6_of_out (hout : ¬ (o.y = true ∨ o.mode = .router)) (body : OwnChain → List RuleText)
    (n : TableName) : o.part body .v6 n = .empty ↔ n = .nat → o.proxied6 = [] := by
  obtain ⟨hy, hm⟩ := not_or.mp hout
  rw [RuleTable.ext_iff, funext_iff, funext_iff]
  constructor
  · rintro ⟨hhooks, _⟩ rfl
    have houtput := hhooks .output
    dsimp only [part, hooked, RuleTable.empty] at houtput
    rwa [if_neg hm, List.nil_append, List.reverse_eq_nil_iff, proxyRules6,
      List.map_eq_nil_iff] at houtput
  · intro hnone
    refine ⟨fun h ↦ ?_, fun c ↦ ?_⟩
    · cases n <;> cases h <;> dsimp only [part, hooked, RuleTable.empty]
      case nat.prerouting => rw [dnsRules, if_neg hy, if_neg hm, List.nil_append]
      case nat.output => rw [if_neg hm, proxyRules6, hnone rfl, List.map_nil, List.reverse_nil,
        List.append_nil]
      case mangle.prerouting => rw [if_neg fun h ↦ hm h.2]
    · cases n <;> cases c <;> simp [part, declares, hm, RuleTable.empty]

/-- The include of `gen_include` restores the rules exactly for these options. -/
theorem restores_iff (body : Bodies) : o.Restores body ↔ o.Restorable := by
  constructor
  · intro h
    have hempty : ∀ f n, ownPart ((fun _ _ ↦ .empty : Firewall) f n) = .empty := fun _ _ ↦ rfl
    have hall := h (fun _ _ ↦ .empty) (fun _ _ ↦ .empty) hempty fun f n ↦ Or.inl (hempty f n)
    have h4 := (o.runInclude_eq_iff body _ (hempty .v4) (Or.inl rfl)).mp (hall .v4)
    refine ⟨h4 .nat .output, ?_⟩
    by_cases hin : o.y = true ∨ o.mode = .router
    · have h6 := (o.runInclude_eq_iff body _ (hempty .v6) (Or.inr hin)).mp (hall .v6)
      refine ⟨?_, h6 .nat .prerouting⟩
      have houtput := h6 .nat .output
      dsimp only [orderKept] at houtput
      split_ifs at houtput with hm
      · exact Or.inl houtput
      · exact Or.inr ⟨hm, hin.resolve_right hm, houtput⟩
    · have hsame := hall .v6 .nat
      rw [o.runInclude_v6_of_out hin, o.ownPart_rules (hempty .v6 .nat)] at hsame
      have hnone := (o.part_v6_of_out hin _ _).mp hsame.symm
      exact ⟨Or.inl (hnone rfl), fun hm ↦ absurd (Or.inr hm) hin⟩
  · rintro ⟨h4, h6, hwhite⟩ fw now hfw hnow f
    cases f with
    | v4 =>
      refine (o.runInclude_eq_iff body now (hfw .v4) (Or.inl rfl)).mpr fun n h ↦ ?_
      cases n <;> cases h
      case nat.output => exact h4
      case nat.prerouting | mangle.prerouting | mangle.output => trivial
    | v6 =>
      by_cases hin : o.y = true ∨ o.mode = .router
      · refine (o.runInclude_eq_iff body now (hfw .v6) (Or.inr hin)).mpr fun n h ↦ ?_
        cases n <;> cases h
        case nat.prerouting => exact hwhite
        case nat.output =>
          dsimp only [orderKept]
          obtain hnone | ⟨hm, _, hrev⟩ := h6
          · rw [hnone]
            split_ifs <;> rfl
          · rwa [if_neg hm]
        case mangle.prerouting | mangle.output => trivial
      · intro n
        have hnone : o.proxied6 = [] := h6.resolve_right fun h ↦ hin (Or.inl h.2.1)
        rw [o.runInclude_v6_of_out hin, o.ownPart_rules (hfw .v6 n)]
        have hempty := (o.part_v6_of_out hin (body .v6 n) n).mpr fun _ ↦ hnone
        obtain h | h := hnow .v6 n
        · rw [h, hempty]
        · rw [h, o.ownPart_rules (hfw .v6 n)]

end RuleOptions

/-- Netflix has a server of its own that is reached through the first. -/
def netflixProxied : RuleOptions where
  mode := .gfw
  localPort := 1234
  relay := false
  yb := none
  nf := some ⟨.v4 0xC0000207, true⟩
  cu := none
  tg := none
  lanAc := none
  y := false

/-- There the include puts the rule of the server in front of the jump. -/
theorem not_restores_netflixProxied : ¬ netflixProxied.Restores fun _ _ _ ↦ [] := by
  intro h
  have hempty : ∀ f n, ownPart ((fun _ _ ↦ .empty : Firewall) f n) = .empty := fun _ _ ↦ rfl
  have hall := h (fun _ _ ↦ .empty) (fun _ _ ↦ .empty) hempty fun f n ↦ Or.inl (hempty f n)
  have houtput := congrFun (congrArg RuleTable.hooks (hall .v4 .nat)) .output
  exact absurd houtput (by decide)

end OpenWrtCompile.Overwall
