import OpenWrtCompile.Subscribe.Counts

/-!
# Two runs with the same contents

A second run with the same contents leaves the sections of the first, and no pair of hashes stands in
two of them, if and only if no pair is repeated: `cache` has room for one node of each pair, so a
second one is added again in every run.
-/

namespace OpenWrtCompile.Subscribe
open OpenWrtCompile.Base

/-- The options of a section. -/
def view (s : Section) : Bytes → Value := fun k ↦ s.options.at k

/-- No pair of group hash and hash key stands in two sections. -/
def DuplicateFree (servers : List Section) : Prop := ∀ g h, sectionCount servers g h ≤ 1

/-- A second run with the same contents leaves the sections of the first, but for their order and the
names of those that are made anew, and the first leaves no pair of hashes in two sections. -/
def Idempotent (env : Env) (opts : Options) (fetches : List Fetch) (cfg : Config) : Prop :=
  ((update env opts fetches (update env opts fetches cfg)).servers.map view).Perm
      ((update env opts fetches cfg).servers.map view) ∧
    DuplicateFree (update env opts fetches cfg).servers

/-- No two nodes of the contents share a pair of hashes, and no two sections share one whose node is
in the last content of its group. -/
def NoRepeats (gs : List (Bytes × List Table)) (servers : List Section) : Prop :=
  ∀ g h, nodeCount gs g h ≤ 1 ∧ ((cacheRef gs g h).isSome = true → sectionCount servers g h ≤ 1)

/-- A section that finds a node takes its values. -/
theorem mergeSection_of_find {imp : Import} {s : Section} {ref : Ref}
    (h : imp.find s.options = some ref) :
    mergeSection imp s =
      .ok (some { s with options := tset s.options (imp.node ref) }, some ref) := by
  obtain ⟨g, key, hg, -⟩ := find_eq_some h
  unfold mergeSection
  rw [hg, h]
  rfl

/-- A section with a hash key that finds nothing is deleted. -/
theorem mergeSection_of_not_find {imp : Import} {s : Section} {g : Bytes}
    (hg : s.options.get "grouphashkey" = .str g) (h : imp.find s.options = none) :
    mergeSection imp s = .ok (none, none) := by
  unfold mergeSection
  rw [hg, h]
  rfl

/-- Values that were set are set again without a change. -/
theorem at_tset_tset (o n : Table) (k : Bytes) : (tset (tset o n) n).at k = (tset o n).at k := by
  rw [at_tset, at_tset]
  split <;> rfl

/-- The values of a node change nothing in the section that was added for it. -/
theorem at_tset_newOptions (opts : Options) {g : Bytes} {n : Table} (hn : IsNodeOf g n) (k : Bytes) :
    (tset (newOptions opts n) n).at k = (newOptions opts n).at k := by
  rw [at_tset]
  split
  · next hk =>
    have hne : ascii "switch_enable" ≠ k := by
      intro heq
      rw [← heq] at hk
      exact hn.switch hk
    unfold newOptions Table.set
    rw [Table.at_put_ne _ _ _ _ hne, at_tset, if_pos hk]
  · rfl

/-- A section that stays is merged in the same way once more. -/
theorem mergeSection_again {gs : List (Bytes × List Table)}
    (hof : ∀ c ∈ gs, ∀ n ∈ c.2, IsNodeOf c.1 n) {s s' : Section} {m : Option Ref}
    (h : mergeSection (build gs) s = .ok (some s', m)) :
    ∃ s'', mergeSection (build gs) s' = .ok (some s'', m) ∧ view s'' = view s' := by
  rcases mergeSection_cases h with ⟨ref, href, heq⟩ | ⟨-, heq⟩ | ⟨-, -, heq⟩
  · cases heq
    obtain ⟨c, hc, hn, hng, hnh⟩ := node_of_find hof href
    have hnode := hof c hc _ hn
    have hfind : (build gs).find (tset s.options ((build gs).node ref)) = some ref := by
      rw [← href]
      apply find_congr
      · rw [get_tset_of_ne_nil (by rw [hnode.group]; exact Value.noConfusion), hng]
      · rw [get_tset_of_ne_nil (by rw [hnode.key]; exact Value.noConfusion), hnh]
    refine ⟨_, mergeSection_of_find hfind, ?_⟩
    funext k
    exact at_tset_tset _ _ k
  · cases heq
  · cases heq
    exact ⟨s, h, rfl⟩

/-- The sections that stay are merged in the same way once more. -/
theorem merged_again {gs : List (Bytes × List Table)}
    (hof : ∀ c ∈ gs, ∀ n ∈ c.2, IsNodeOf c.1 n) {servers : List Section}
    {merged : List (Option Section × Option Ref)}
    (h : servers.mapM (mergeSection (build gs)) = .ok merged) :
    ∃ again, (merged.filterMap Prod.fst).mapM (mergeSection (build gs)) = .ok again ∧
      (again.filterMap Prod.fst).map view = (merged.filterMap Prod.fst).map view ∧
      again.filterMap Prod.snd = merged.filterMap Prod.snd := by
  induction servers generalizing merged with
  | nil =>
    cases h
    exact ⟨[], rfl, rfl, rfl⟩
  | cons s servers ih =>
    obtain ⟨⟨o, m⟩, rs, hr, hrs, rfl⟩ := mapM_cons_eq_ok.mp h
    obtain ⟨again, hagain, hview, hmarks⟩ := ih hrs
    cases o with
    | none =>
      have hm : m = none := by
        rcases mergeSection_cases hr with ⟨ref, -, heq⟩ | ⟨-, heq⟩ | ⟨-, -, heq⟩
        · cases heq
        · exact (Prod.mk.inj heq).2
        · cases heq
      subst hm
      exact ⟨again, hagain, hview, hmarks⟩
    | some s' =>
      obtain ⟨s'', hs'', hsame⟩ := mergeSection_again hof hr
      refine ⟨(some s'', m) :: again, mapM_cons_eq_ok.mpr ⟨_, again, hs'', hagain, rfl⟩, ?_, ?_⟩
      · rw [filterMap_stays, filterMap_stays, List.map_cons, List.map_cons, hview, hsame]
      · cases m with
        | none => exact hmarks
        | some ref => exact congrArg (ref :: ·) hmarks

/-- Where no pair of hashes is repeated among the nodes, a node finds itself or nothing. -/
theorem find_node {gs : List (Bytes × List Table)}
    (hof : ∀ c ∈ gs, ∀ n ∈ c.2, IsNodeOf c.1 n) (hcount : ∀ g h, nodeCount gs g h ≤ 1)
    {p : Ref × Table} (hp : p ∈ (build gs).nodes) {ref : Ref}
    (h : (build gs).find p.2 = some ref) : ref = p.1 ∧ (build gs).node ref = p.2 := by
  obtain ⟨g, key, hg, hkey⟩ := find_eq_some h
  rw [find_build hg hkey] at h
  obtain ⟨hmem, hk⟩ := cacheRef_mem hof h
  have hle := hcount g key
  unfold nodeCount at hle
  rw [← map_snd_nodes, List.countP_map, List.countP_eq_length_filter] at hle
  have h₁ : (ref, (build gs).node ref) ∈
      (build gs).nodes.filter (HasKey g key ∘ Prod.snd) := List.mem_filter.mpr ⟨hmem, hk⟩
  have h₂ : p ∈ (build gs).nodes.filter (HasKey g key ∘ Prod.snd) :=
    List.mem_filter.mpr ⟨hp, hasKey_iff.mpr ⟨hg, hkey⟩⟩
  -- a list of at most one element
  have heq : (ref, (build gs).node ref) = p := by
    cases hl : (build gs).nodes.filter (HasKey g key ∘ Prod.snd) with
    | nil =>
      rw [hl] at h₁
      cases h₁
    | cons a l =>
      rw [hl] at h₁ h₂ hle
      have hnil : l = [] := by
        apply List.eq_nil_of_length_eq_zero
        simp only [List.length_cons] at hle
        omega
      rw [hnil, List.mem_singleton] at h₁ h₂
      rw [h₁, h₂]
  exact ⟨congrArg Prod.fst heq, congrArg Prod.snd heq⟩

/-- The options of the section that is added for a node. -/
def newView (opts : Options) (p : Ref × Table) : Bytes → Value := fun k ↦ (newOptions opts p.2).at k

/-- Of the sections that were added, those stay whose node `cache` holds. -/
theorem fresh_again {gs : List (Bytes × List Table)}
    (hof : ∀ c ∈ gs, ∀ n ∈ c.2, IsNodeOf c.1 n) (hcount : ∀ g h, nodeCount gs g h ≤ 1)
    (opts : Options) {nodes : List (Ref × Table)} (hnodes : ∀ p ∈ nodes, p ∈ (build gs).nodes)
    {fresh : List Section}
    (hfresh : fresh.map Section.options = (nodes.map Prod.snd).map (newOptions opts)) :
    ∃ again, fresh.mapM (mergeSection (build gs)) = .ok again ∧
      (again.filterMap Prod.fst).map view =
        (nodes.filter fun p ↦ ((build gs).find p.2).isSome).map (newView opts) ∧
      again.filterMap Prod.snd =
        (nodes.filter fun p ↦ ((build gs).find p.2).isSome).map Prod.fst := by
  induction nodes generalizing fresh with
  | nil =>
    rw [List.map_nil, List.map_nil, List.map_eq_nil_iff] at hfresh
    subst hfresh
    exact ⟨[], rfl, rfl, rfl⟩
  | cons p nodes ih =>
    cases fresh with
    | nil => cases hfresh
    | cons f fresh =>
      simp only [List.map_cons, List.cons.injEq] at hfresh
      obtain ⟨hf, hfresh⟩ := hfresh
      rw [List.forall_mem_cons] at hnodes
      obtain ⟨again, hagain, hview, hmarks⟩ := ih hnodes.2 hfresh
      obtain ⟨c, hc, hn⟩ := mem_nodes.mp hnodes.1
      have hnode := hof c (List.mem_of_getElem? hc) p.2 (List.mem_of_getElem? hn)
      have hkey := hasKey_newOptions opts hnode
      have hfind : (build gs).find f.options = (build gs).find p.2 := by
        rw [hf]
        exact find_congr _ hkey.1 hkey.2
      cases href : (build gs).find p.2 with
      | none =>
        have hmerge : mergeSection (build gs) f = .ok (none, none) :=
          mergeSection_of_not_find (by rw [hf, hkey.1, hnode.group]) (hfind.trans href)
        refine ⟨(none, none) :: again, mapM_cons_eq_ok.mpr ⟨_, again, hmerge, hagain, rfl⟩, ?_, ?_⟩
        · rw [List.filter_cons_of_neg (by simp [href])]
          exact hview
        · rw [List.filter_cons_of_neg (by simp [href])]
          exact hmarks
      | some ref =>
        obtain ⟨heq, hself⟩ := find_node hof hcount hnodes.1 href
        have hmerge := mergeSection_of_find (hfind.trans href)
        refine ⟨_ :: again, mapM_cons_eq_ok.mpr ⟨_, again, hmerge, hagain, rfl⟩, ?_, ?_⟩
        · rw [List.filter_cons_of_pos (by simp [href]), filterMap_stays, List.map_cons,
            List.map_cons, hview]
          congr 1
          funext k
          unfold view newView
          simp only
          rw [hself, hf]
          exact at_tset_newOptions opts hnode k
        · rw [List.filter_cons_of_pos (by simp [href]), List.map_cons, ← heq, ← hmarks]
          rfl

/-- What a run that commits leaves is safe for the next one. -/
theorem runSafe_update {env : Env} {opts : Options} {fetches : List Fetch} {cfg : Config}
    (hsafe : RunSafe env opts fetches cfg) (hsome : ∃ f ∈ fetches, curl f ≠ []) :
    RunSafe env opts fetches (update env opts fetches cfg) := by
  refine ⟨hsafe.1, fun _ ↦ ?_⟩
  obtain ⟨gs, merged, fresh, hgs, hmerged, hservers, hfresh⟩ := update_spec hsafe hsome
  have hof := isNodeOf_groups hgs
  -- a section with a group hash raises nothing
  have hgroup {s : Section} {g : Bytes} (hg : s.options.get "grouphashkey" = .str g) :
      SectionSafe s := by
    intro hfalse
    rw [hg] at hfalse
    cases hfalse
  intro s hs
  rw [hservers, List.mem_append] at hs
  rcases hs with hs | hs
  · obtain ⟨r, hr, hrs⟩ := List.mem_filterMap.mp hs
    obtain ⟨old, hold, hmerge⟩ := mem_of_mapM hmerged r hr
    rcases mergeSection_cases hmerge with ⟨ref, href, rfl⟩ | ⟨-, rfl⟩ | ⟨-, -, rfl⟩
    · cases hrs
      obtain ⟨c, hc, hn, -, -⟩ := node_of_find hof href
      have hnode := hof c hc _ hn
      apply hgroup
      rw [get_tset_of_ne_nil (by rw [hnode.group]; exact Value.noConfusion)]
      exact hnode.group
    · cases hrs
    · cases hrs
      exact hsafe.2 hsome _ hold
  · have hmem := List.mem_map_of_mem (f := Section.options) hs
    rw [hfresh] at hmem
    obtain ⟨n, hn, hopts⟩ := List.mem_map.mp hmem
    obtain ⟨p, hp, rfl⟩ := List.mem_map.mp hn
    obtain ⟨c, hc, hcn⟩ := mem_nodes.mp (List.mem_filter.mp hp).1
    have hnode := hof c (List.mem_of_getElem? hc) p.2 (List.mem_of_getElem? hcn)
    apply hgroup
    rw [← hopts, (hasKey_newOptions opts hnode).1]
    exact hnode.group

/-- The nodes that a second run adds: those of the first whose sections do not find them. -/
theorem filter_unmarked {gs : List (Bytes × List Table)} (marks : List Ref) :
    ((build gs).nodes.filter fun n ↦ n.1 ∉ marks ++
        ((((build gs).nodes.filter fun n ↦ n.1 ∉ marks).filter fun p ↦
          ((build gs).find p.2).isSome).map Prod.fst)) =
      ((build gs).nodes.filter fun n ↦ n.1 ∉ marks).filter fun p ↦
        !((build gs).find p.2).isSome := by
  conv_rhs => rw [List.filter_filter]
  apply List.filter_congr
  intro p hp
  rw [Bool.eq_iff_iff]
  simp only [Bool.and_eq_true, Bool.not_eq_true', decide_eq_true_eq, List.mem_append, not_or]
  have hother : p.1 ∈ (((build gs).nodes.filter fun n ↦ n.1 ∉ marks).filter fun p ↦
      ((build gs).find p.2).isSome).map Prod.fst ↔
        p.1 ∉ marks ∧ ((build gs).find p.2).isSome = true := by
    rw [List.mem_map]
    constructor
    · rintro ⟨q, hq, hqp⟩
      obtain ⟨hq, hfind⟩ := List.mem_filter.mp hq
      obtain ⟨hq, hmark⟩ := List.mem_filter.mp hq
      rcases p with ⟨ref, n⟩
      rcases q with ⟨ref', m⟩
      cases hqp
      rw [eq_of_ref hp hq]
      exact ⟨of_decide_eq_true hmark, hfind⟩
    · rintro ⟨hmark, hfind⟩
      exact ⟨p, List.mem_filter.mpr ⟨List.mem_filter.mpr ⟨hp, decide_eq_true hmark⟩, hfind⟩, rfl⟩
  rw [hother]
  cases ((build gs).find p.2).isSome <;> simp

/-- Without repeated nodes a second run leaves the sections of the first. -/
theorem update_update_perm {env : Env} {opts : Options} {fetches : List Fetch} {cfg : Config}
    (hsafe : RunSafe env opts fetches cfg) (hsome : ∃ f ∈ fetches, curl f ≠ [])
    {gs : List (Bytes × List Table)} (hgs : groups env opts fetches = .ok gs)
    (hcount : ∀ g h, nodeCount gs g h ≤ 1) :
    ((update env opts fetches (update env opts fetches cfg)).servers.map view).Perm
      ((update env opts fetches cfg).servers.map view) := by
  have hof := isNodeOf_groups hgs
  obtain ⟨gs₁, merged, fresh, hgs₁, hmerged, hservers, hfresh⟩ := update_spec hsafe hsome
  obtain ⟨gs₂, merged₂, fresh₂, hgs₂, hmerged₂, hservers₂, hfresh₂⟩ :=
    update_spec (runSafe_update hsafe hsome) hsome
  cases hgs.symm.trans hgs₁
  cases hgs.symm.trans hgs₂
  obtain ⟨kept, hkept, hkeptView, hkeptMarks⟩ := merged_again hof hmerged
  obtain ⟨again, hagain, hagainView, hagainMarks⟩ := fresh_again hof hcount opts
    (fun p hp ↦ (List.mem_filter.mp hp).1) hfresh
  -- the second run merges what stayed and what was added
  have hmerge : merged₂ = kept ++ again := by
    rw [hservers] at hmerged₂
    have happend := mapM_append_eq_ok.mpr ⟨kept, again, hkept, hagain, rfl⟩
    exact Except.ok.inj (hmerged₂.symm.trans happend)
  rw [hmerge, List.filterMap_append, hkeptMarks, hagainMarks, filter_unmarked] at hfresh₂
  have hnew (l : List Section) (nodes : List (Ref × Table))
      (hl : l.map Section.options = (nodes.map Prod.snd).map (newOptions opts)) :
      l.map view = nodes.map (newView opts) := by
    have hview : l.map view = (l.map Section.options).map fun t k ↦ t.at k := by
      rw [List.map_map]
      rfl
    rw [hview, hl, List.map_map, List.map_map]
    rfl
  rw [hservers₂, hservers, hmerge, List.filterMap_append, List.map_append, List.map_append,
    List.map_append, hkeptView, hagainView, hnew _ _ hfresh₂, hnew _ _ hfresh, List.append_assoc,
    ← List.map_append]
  apply List.Perm.append_left
  apply List.Perm.map
  exact List.filter_append_perm _ _

/-- A list with node A twice. -/
def listOfAA : Fetch :=
  ⟨ascii "https://sub.example/list", ascii "dHJvamFuOi8vcHdAYS5leGFtcGxlOjQ0MyNBCnRyb2phbjovL3B3QGEuZXhhbXBsZTo0NDMjQQ=="⟩

end OpenWrtCompile.Subscribe
