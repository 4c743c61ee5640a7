import OpenWrtCompile.Subscribe.Isolation

/-!
# The merge into the configuration

What `execute` leaves of the old sections and what it adds, in terms of the nodes of the run.
-/

namespace OpenWrtCompile.Subscribe
open OpenWrtCompile.Base

/-- A field that is read stands in the table. -/
theorem mem_keys_of_at {t : Table} {k : Bytes} (h : t.at k ≠ .nil) : k ∈ t.map Prod.fst := by
  induction t with
  | nil => exact absurd rfl h
  | cons p t ih =>
    rw [Table.at_cons] at h
    rw [List.map_cons, List.mem_cons]
    by_cases hp : p.1 = k
    · exact .inl hp.symm
    · rw [if_neg hp] at h
      exact .inr (ih h)

/-- The options after `tset`: the values where there is one, and the old options elsewhere. -/
theorem at_tset (o values : Table) (k : Bytes) :
    (tset o values).at k = if k ∈ values.map Prod.fst then values.at k else o.at k := by
  induction values with
  | nil => rfl
  | cons p values ih =>
    unfold tset at ih ⊢
    rw [List.foldr_cons, List.map_cons, Table.at_cons]
    by_cases hp : p.1 = k
    · subst hp
      rw [Table.at_put_self, if_pos List.mem_cons_self, if_pos rfl]
    · rw [Table.at_put_ne _ _ _ _ hp, ih, if_neg hp]
      simp only [List.mem_cons, Ne.symm hp, false_or]

/-- A field of the values is read after `tset`. -/
theorem get_tset_of_ne_nil {o values : Table} {k : String} (h : values.get k ≠ .nil) :
    (tset o values).get k = values.get k := by
  unfold Table.get at h ⊢
  rw [at_tset, if_pos (mem_keys_of_at h)]

/-- An assignment brings in no other key. -/
theorem mem_keys_put {t : Table} {k k' : Bytes} {v : Value} (h : k' ∈ (t.put k v).map Prod.fst) :
    k' = k ∨ k' ∈ t.map Prod.fst := by
  by_cases hv : v = .nil
  · rw [hv] at h
    obtain ⟨p, hp, rfl⟩ := List.mem_map.mp h
    exact .inr (List.mem_map_of_mem (List.mem_filter.mp hp).1)
  · rw [Table.put_of_ne_nil t k hv] at h
    split at h
    · obtain ⟨p, hp, rfl⟩ := List.mem_map.mp h
      obtain ⟨q, hq, rfl⟩ := List.mem_map.mp hp
      by_cases hk : q.1 = k
      · rw [if_pos hk]
        exact .inl rfl
      · rw [if_neg hk]
        exact .inr (List.mem_map_of_mem hq)
    · rw [List.map_append, List.mem_append] at h
      rcases h with h | h
      · exact .inr h
      · exact .inl (List.mem_singleton.mp h)

/-- A key that is set to `nil` is gone. -/
theorem not_mem_keys_set_nil (t : Table) (k : String) :
    ascii k ∉ (t.set k .nil).map Prod.fst := by
  intro h
  obtain ⟨p, hp, hk⟩ := List.mem_map.mp h
  exact absurd hk (of_decide_eq_true (List.mem_filter.mp hp).2)

/-- `processData` ends with a hash key, and without `switch_enable`. -/
theorem keys_finish {env : Env} {t u : Table} (h : finish env t = .ok u)
    (hswitch : t.core.switchEnable = .nil) :
    (∃ key, u.get "hashkey" = .str key) ∧ ascii "switch_enable" ∉ u.map Prod.fst := by
  unfold finish at h
  simp only [bind_eq_ok] at h
  obtain ⟨v, hv, hu⟩ := h
  cases hu
  have hnil : v.get "switch_enable" = .nil :=
    (congrArg Core.switchEnable (core_setAlias hv)).trans hswitch
  rw [hnil]
  refine ⟨?_, not_mem_keys_set_nil _ _⟩
  rw [Table.get_set_ne _ _ _ _ (by decide), Table.get_set_self]
  exact ⟨_, rfl⟩

/-- A node that is read has a hash key, and no `switch_enable`. -/
theorem keys_readLink {env : Env} {extra : Option Table} {link : Link} {t : Table}
    (h : readLink env extra link = .ok (some t)) :
    (∃ key, t.get "hashkey" = .str key) ∧ ascii "switch_enable" ∉ t.map Prod.fst := by
  cases link with
  | server v =>
    obtain ⟨content, -, h⟩ := bind_eq_ok.mp h
    obtain ⟨u, hu, ht⟩ := map_eq_ok.mp h
    cases ht
    obtain ⟨w, hw, hu⟩ := bind_eq_ok.mp hu
    exact keys_finish hu (congrArg Core.switchEnable (core_ssdNode_start hw))
  | line v =>
    rw [readLink_line] at h
    cases hl : lineText env v with
    | none =>
      rw [hl] at h
      cases h
    | some p =>
      rw [hl] at h
      obtain ⟨o, ho, h⟩ := bind_eq_ok.mp h
      cases o with
      | none => cases h
      | some w =>
        obtain ⟨u, hu, ht⟩ := map_eq_ok.mp h
        cases ht
        have hcore := core_parseText_start ho
        cases hn : textNames env p.1 p.2 with
        | none =>
          rw [hn] at hcore
          cases hcore
        | some n =>
          rw [hn] at hcore
          exact keys_finish hu (congrArg Core.switchEnable (Option.some.inj hcore))

/-- A node of the run: it is marked with the hash of its group, carries its own, and has no
`switch_enable`. -/
structure IsNodeOf (g : Bytes) (n : Table) : Prop where
  group : n.get "grouphashkey" = .str g
  key : n.get "hashkey" = .str (hashkey n)
  switch : ascii "switch_enable" ∉ n.map Prod.fst

/-- A node that is accepted is one of its group. -/
theorem isNodeOf_acceptLink {env : Env} {opts : Options} {g : Bytes} {extra : Option Table}
    {link : Link} {n : Table} (h : acceptLink env opts g extra link = .ok (some n)) :
    IsNodeOf g n := by
  unfold acceptLink at h
  obtain ⟨o, ho, h⟩ := bind_eq_ok.mp h
  cases o with
  | none => cases h
  | some t =>
    unfold acceptNode at h
    obtain ⟨b, -, h⟩ := bind_eq_ok.mp h
    cases b with
    | true =>
      obtain ⟨s, -, h⟩ := bind_eq_ok.mp h
      cases h
    | false =>
      cases h
      obtain ⟨⟨key, hkey⟩, hswitch⟩ := keys_readLink ho
      have hget : (t.set "grouphashkey" (.str g)).get "hashkey" = .str key := by
        rw [Table.get_set_ne _ _ _ _ (by decide), hkey]
      refine ⟨Table.get_set_self _ _ _, ?_, ?_⟩
      · unfold hashkey
        rw [hget]
      · intro hmem
        rcases mem_keys_put hmem with heq | hmem
        · exact absurd heq (by decide)
        · exact hswitch hmem

/-- The nodes of a content belong to its group. -/
theorem isNodeOf_contentNodes {env : Env} {opts : Options} {f : Fetch} {ns : List Table}
    (h : contentNodes env opts f = .ok ns) : ∀ n ∈ ns, IsNodeOf (md5 env f.url) n := by
  unfold contentNodes at h
  rcases bind_eq_ok.mp h with ⟨c, -, h⟩
  rcases bind_eq_ok.mp h with ⟨os, hos, h⟩
  cases h
  intro n hn
  rcases mem_of_mapM hos (some n) (List.reduceOption_mem_iff.mp hn) with ⟨link, -, hlink⟩
  exact isNodeOf_acceptLink hlink

/-- A group of the run comes from a fetch that yields something. -/
theorem fetch_of_mem_groups {env : Env} {opts : Options} {fetches : List Fetch}
    {gs : List (Bytes × List Table)} (h : groups env opts fetches = .ok gs) :
    ∀ c ∈ gs, ∃ f ∈ fetches, curl f ≠ [] ∧ md5 env f.url = c.1 ∧ contentNodes env opts f = .ok c.2 := by
  intro c hc
  rcases mem_of_mapM h c hc with ⟨f, hf, hcf⟩
  rcases map_eq_ok.mp hcf with ⟨ns, hns, rfl⟩
  rcases List.mem_filter.mp hf with ⟨hmem, hne⟩
  exact ⟨f, hmem, of_decide_eq_true hne, rfl, hns⟩

/-- A fetch that yields something gives a group of the run. -/
theorem mem_groups_of_fetch {env : Env} {opts : Options} {fetches : List Fetch}
    {gs : List (Bytes × List Table)} (h : groups env opts fetches = .ok gs) {f : Fetch}
    (hf : f ∈ fetches) (hne : curl f ≠ []) : ∃ ns, (md5 env f.url, ns) ∈ gs := by
  rcases List.append_of_mem hf with ⟨fs, fs', rfl⟩
  rcases (groups_append_cons hne).mp h with ⟨ls, ns, rs, -, -, -, rfl⟩
  exact ⟨ns, by simp⟩

/-- The nodes of a run belong to their groups. -/
theorem isNodeOf_groups {env : Env} {opts : Options} {fetches : List Fetch}
    {gs : List (Bytes × List Table)} (h : groups env opts fetches = .ok gs) :
    ∀ c ∈ gs, ∀ n ∈ c.2, IsNodeOf c.1 n := by
  intro c hc
  rcases fetch_of_mem_groups h c hc with ⟨f, -, -, hg, hns⟩
  rw [← hg]
  exact isNodeOf_contentNodes hns

/-- The reference that `cache` holds for a pair of hashes: the last node with the hash in the last
content of the group. -/
def cacheRef (gs : List (Bytes × List Table)) (g h : Bytes) : Option Ref :=
  (lastGroup g gs).bind fun l ↦ (lastPos h l.2).map fun i ↦ (l.1, i)

/-- What `nodeResult[g][h]` finds for two hash keys. -/
theorem find_build {gs : List (Bytes × List Table)} {t : Table} {g h : Bytes}
    (hg : t.get "grouphashkey" = .str g) (hh : t.get "hashkey" = .str h) :
    (build gs).find t = cacheRef gs g h := by
  unfold Import.find cacheRef
  rw [hg, hh]
  simp only
  rw [cache_build]
  cases lastGroup g gs <;> rfl

/-- Only a table with two hash keys finds anything. -/
theorem find_eq_some {imp : Import} {t : Table} {ref : Ref} (h : imp.find t = some ref) :
    ∃ g key, t.get "grouphashkey" = .str g ∧ t.get "hashkey" = .str key := by
  unfold Import.find at h
  split at h
  · next g key hg hkey => exact ⟨g, key, hg, hkey⟩
  · cases h

/-- What `cache` holds is a node of the content, with the hash. -/
theorem cacheRef_eq_some {gs : List (Bytes × List Table)} {g h : Bytes} {ref : Ref}
    (hr : cacheRef gs g h = some ref) :
    ∃ ns, lastGroup g gs = some (ref.1, ns) ∧ ns[ref.2]? = some ((build gs).node ref) ∧
      hashkey ((build gs).node ref) = h := by
  unfold cacheRef at hr
  obtain ⟨⟨k, ns⟩, hl, hr⟩ := Option.bind_eq_some_iff.mp hr
  obtain ⟨i, hp, hr⟩ := Option.map_eq_some_iff.mp hr
  subst hr
  obtain ⟨n, hn, hh⟩ := lastPos_eq_some hp
  have hnode : (build gs).node (k, i) = n := by
    unfold Import.node
    rw [lists_build, List.getElem?_map, lastGroup_eq_some hl]
    simp [hn]
  rw [hnode]
  exact ⟨ns, hl, hn, hh⟩

/-- Where `cache` holds nothing, the group is missing or its last content has no node with the
hash. -/
theorem cacheRef_eq_none {gs : List (Bytes × List Table)} {g h : Bytes} :
    cacheRef gs g h = none ↔
      ∀ k ns, lastGroup g gs = some (k, ns) → ∀ n ∈ ns, hashkey n ≠ h := by
  unfold cacheRef
  cases hl : lastGroup g gs with
  | none => exact iff_of_true rfl (fun k ns h ↦ by cases h)
  | some l =>
    simp only [Option.bind_some, Option.map_eq_none_iff, Option.some.injEq]
    rw [lastPos_eq_none]
    constructor
    · rintro h k ns rfl
      exact h
    · intro h
      exact h l.1 l.2 rfl

/-- What a table finds is a node with the same two hash keys. -/
theorem node_of_find {gs : List (Bytes × List Table)}
    (hof : ∀ c ∈ gs, ∀ n ∈ c.2, IsNodeOf c.1 n) {t : Table} {ref : Ref}
    (h : (build gs).find t = some ref) :
    ∃ c ∈ gs, (build gs).node ref ∈ c.2 ∧
      ((build gs).node ref).get "grouphashkey" = t.get "grouphashkey" ∧
      ((build gs).node ref).get "hashkey" = t.get "hashkey" := by
  obtain ⟨g, key, hg, hkey⟩ := find_eq_some h
  rw [find_build hg hkey] at h
  obtain ⟨ns, hl, hn, hh⟩ := cacheRef_eq_some h
  have hc := List.mem_of_getElem? (lastGroup_eq_some hl)
  have hnode := hof _ hc _ (List.mem_of_getElem? hn)
  exact ⟨_, hc, List.mem_of_getElem? hn, by rw [hnode.group, hg], by rw [hnode.key, hh, hkey]⟩

/-- What the step of the first loop of `execute` does with a section: it takes the values of the node
that it finds, it is deleted, or it has no hash key and stays. -/
theorem mergeSection_cases {imp : Import} {old : Section} {r : Option Section × Option Ref}
    (h : mergeSection imp old = .ok r) :
    (∃ ref, imp.find old.options = some ref ∧
        r = (some { old with options := tset old.options (imp.node ref) }, some ref)) ∨
      (imp.find old.options = none ∧ r = (none, none)) ∨
      ((old.options.get "grouphashkey").truthy = false ∧
        (old.options.get "hashkey").truthy = false ∧ r = (some old, none)) := by
  unfold mergeSection at h
  split at h
  · cases hfind : imp.find old.options with
    | none =>
      rw [hfind] at h
      cases h
      exact .inr (.inl ⟨rfl, rfl⟩)
    | some ref =>
      rw [hfind] at h
      cases h
      exact .inl ⟨ref, rfl, rfl⟩
  · next hkey =>
    rw [Bool.not_eq_true, Bool.or_eq_false_iff] at hkey
    have hnone : imp.find old.options = none := by
      cases hfind : imp.find old.options with
      | none => rfl
      | some ref =>
        obtain ⟨g, key, hg, -⟩ := find_eq_some hfind
        rw [hg] at hkey
        cases hkey.1
    split at h
    · cases h
      exact .inr (.inr ⟨hkey.1, hkey.2, rfl⟩)
    · split at h
      · obtain ⟨server, -, h⟩ := bind_eq_ok.mp h
        obtain ⟨port, -, h⟩ := bind_eq_ok.mp h
        cases h
        exact .inr (.inr ⟨hkey.1, hkey.2, rfl⟩)
      · cases h
        exact .inr (.inl ⟨hnone, rfl⟩)

/-- The choice of the main server leaves the servers. -/
@[simp] theorem servers_updateGlobal (cfg : Config) : (updateGlobal cfg).servers = cfg.servers := by
  have hset (f : Table → Table) : (cfg.setGlobal f).servers = cfg.servers := by
    unfold Config.setGlobal
    split <;> rfl
  unfold updateGlobal
  split
  · rfl
  · split
    · rfl
    · exact hset _
  · exact hset _
  · exact hset _

/-- The options of a section that is added for a node. -/
def newOptions (opts : Options) (n : Table) : Table :=
  (tset [] n).set "switch_enable" (.str opts.switch)

/-- The sections that are added stand behind the old ones, one for each node. -/
theorem foldl_addSection (env : Env) (opts : Options) (others : List Bytes) (nodes : List Table)
    (servers : List Section) :
    ∃ fresh, nodes.foldl (addSection env opts others) servers = servers ++ fresh ∧
      fresh.map Section.options = nodes.map (newOptions opts) := by
  induction nodes generalizing servers with
  | nil => exact ⟨[], by simp, rfl⟩
  | cons n nodes ih =>
    rcases ih (addSection env opts others servers n) with ⟨fresh, heq, hopts⟩
    refine ⟨⟨env.addName (others ++ servers.map Section.name), newOptions opts n⟩ :: fresh, ?_, ?_⟩
    · rw [List.foldl_cons, heq]
      unfold addSection newOptions
      simp
    · rw [List.map_cons, List.map_cons, hopts]

/-- A run that is safe and fetches something: the old sections that stay, and the new ones. -/
theorem update_spec {env : Env} {opts : Options} {fetches : List Fetch} {cfg : Config}
    (hsafe : RunSafe env opts fetches cfg) (hsome : ∃ f ∈ fetches, curl f ≠ []) :
    ∃ gs merged fresh, groups env opts fetches = .ok gs ∧
      cfg.servers.mapM (mergeSection (build gs)) = .ok merged ∧
      (update env opts fetches cfg).servers = merged.filterMap Prod.fst ++ fresh ∧
      fresh.map Section.options =
        ((((build gs).nodes.filter fun n ↦ n.1 ∉ merged.filterMap Prod.snd).map Prod.snd).map
          (newOptions opts)) := by
  rcases (returns_execute env opts fetches cfg).mpr hsafe with ⟨o, ho⟩
  have hupdate : (update env opts fetches cfg).servers = (o.getD cfg).servers := by
    unfold update
    rw [ho]
    cases o <;> rfl
  rw [hupdate]
  unfold execute at ho
  rw [parseLink_eq] at ho
  rcases bind_eq_ok.mp ho with ⟨imp, himp, ho⟩
  rcases map_eq_ok.mp himp with ⟨gs, hgs, rfl⟩
  rw [if_neg (fun hnil ↦ (groups_eq_nil hgs).mp hnil hsome)] at ho
  rcases bind_eq_ok.mp ho with ⟨servers, hservers, ho⟩
  cases ho
  unfold mergeServers at hservers
  rcases bind_eq_ok.mp hservers with ⟨merged, hmerged, hservers⟩
  cases hservers
  rcases foldl_addSection env opts (cfg.others ++ cfg.globals.map Section.name)
    (((build gs).nodes.filter fun n ↦ n.1 ∉ merged.filterMap Prod.snd).map Prod.snd)
    (merged.filterMap Prod.fst) with ⟨fresh, heq, hopts⟩
  exact ⟨gs, merged, fresh, hgs, hmerged, by rw [Option.getD_some, servers_updateGlobal]; exact heq,
    hopts⟩

/-- A run that raises an error, or fetches nothing, leaves the configuration. -/
theorem update_eq_self {env : Env} {opts : Options} {fetches : List Fetch} {cfg : Config}
    (h : ¬ ((∃ f ∈ fetches, curl f ≠ []) ∧ RunSafe env opts fetches cfg)) :
    update env opts fetches cfg = cfg := by
  unfold update
  split
  · next cfg' hrun =>
    have hsafe := (returns_execute env opts fetches cfg).mp ⟨_, hrun⟩
    unfold execute at hrun
    rw [parseLink_eq] at hrun
    rcases bind_eq_ok.mp hrun with ⟨imp, himp, hrun⟩
    rcases map_eq_ok.mp himp with ⟨gs, hgs, rfl⟩
    rw [if_pos ((groups_eq_nil hgs).mpr fun hsome ↦ h ⟨hsome, hsafe⟩)] at hrun
    cases hrun
  · rfl

end OpenWrtCompile.Subscribe
