import OpenWrtCompile.Subscribe.Merge
import Mathlib.Data.List.Nodup
import Mathlib.Data.List.Sigma

/-!
# How many sections carry a pair of hashes

The number of sections with a group hash and a hash key before and after a run, and the number of
nodes with them in the fetched contents.
-/

namespace OpenWrtCompile.Subscribe
open OpenWrtCompile.Base

/-- The table carries the two hash keys. -/
def HasKey (g h : Bytes) (t : Table) : Bool :=
  (t.get "grouphashkey").eqStr g && (t.get "hashkey").eqStr h

/-- What `HasKey` says. -/
theorem hasKey_iff {g h : Bytes} {t : Table} :
    HasKey g h t = true ↔ t.get "grouphashkey" = .str g ∧ t.get "hashkey" = .str h := by
  have heq (v : Value) (s : Bytes) : v.eqStr s = true ↔ v = .str s := by
    cases v <;> simp [Value.eqStr]
  unfold HasKey
  rw [Bool.and_eq_true, heq, heq]

/-- `HasKey` reads two fields only. -/
theorem hasKey_congr {t u : Table} (hg : t.get "grouphashkey" = u.get "grouphashkey")
    (hh : t.get "hashkey" = u.get "hashkey") (g h : Bytes) : HasKey g h t = HasKey g h u := by
  unfold HasKey
  rw [hg, hh]

/-- What is found depends on two fields only. -/
theorem find_congr (imp : Import) {t u : Table} (hg : t.get "grouphashkey" = u.get "grouphashkey")
    (hh : t.get "hashkey" = u.get "hashkey") : imp.find t = imp.find u := by
  unfold Import.find
  rw [hg, hh]

/-- The number of sections with a pair of hash keys. -/
def sectionCount (servers : List Section) (g h : Bytes) : Nat :=
  servers.countP fun s ↦ HasKey g h s.options

/-- The number of nodes with a pair of hash keys in the contents of a run. -/
def nodeCount (gs : List (Bytes × List Table)) (g h : Bytes) : Nat :=
  (gs.flatMap Prod.snd).countP (HasKey g h)

/-- The tables of `nodeResult` are the nodes of the contents, in order. -/
theorem map_snd_nodes (gs : List (Bytes × List Table)) :
    (build gs).nodes.map Prod.snd = gs.flatMap Prod.snd := by
  unfold Import.nodes
  rw [lists_build, List.map_flatMap]
  have hinner (l : List Table × Nat) :
      (l.1.zipIdx.map fun n ↦ ((l.2, n.2), n.1)).map Prod.snd = l.1 := by
    rw [List.map_map]
    exact List.zipIdx_map_fst 0 l.1
  simp only [hinner]
  have houter : (gs.map Prod.snd).zipIdx.flatMap Prod.fst =
      ((gs.map Prod.snd).zipIdx.map Prod.fst).flatMap id := by
    rw [List.flatMap_map]
    rfl
  rw [houter, List.zipIdx_map_fst, List.flatMap_map]
  rfl

/-- A reference with its table, in terms of the contents. -/
theorem mem_nodes {gs : List (Bytes × List Table)} {ref : Ref} {n : Table} :
    (ref, n) ∈ (build gs).nodes ↔ ∃ c, gs[ref.1]? = some c ∧ c.2[ref.2]? = some n := by
  unfold Import.nodes
  rw [lists_build, List.mem_flatMap]
  constructor
  · rintro ⟨⟨l, k⟩, hl, hn⟩
    obtain ⟨⟨m, i⟩, hm, heq⟩ := List.mem_map.mp hn
    cases heq
    rw [List.mk_mem_zipIdx_iff_getElem?, List.getElem?_map] at hl
    obtain ⟨c, hc, rfl⟩ := Option.map_eq_some_iff.mp hl
    exact ⟨c, hc, List.mk_mem_zipIdx_iff_getElem?.mp hm⟩
  · rintro ⟨c, hc, hn⟩
    refine ⟨(c.2, ref.1), ?_, List.mem_map.mpr ⟨(n, ref.2), ?_, rfl⟩⟩
    · rw [List.mk_mem_zipIdx_iff_getElem?, List.getElem?_map, hc]
      rfl
    · exact List.mk_mem_zipIdx_iff_getElem?.mpr hn

/-- No reference stands twice. -/
theorem nodup_refs (gs : List (Bytes × List Table)) : ((build gs).nodes.map Prod.fst).Nodup := by
  unfold Import.nodes
  rw [lists_build, List.map_flatMap]
  rw [List.nodup_flatMap]
  constructor
  · rintro ⟨l, k⟩ -
    have hinner : (l.zipIdx.map fun n ↦ (((k, n.2), n.1) : Ref × Table)).map Prod.fst =
        (l.zipIdx.map Prod.snd).map fun i ↦ (k, i) := by
      rw [List.map_map, List.map_map]
      rfl
    simp only
    rw [hinner]
    apply List.Nodup.map
    · intro i j hij
      exact (Prod.mk.inj hij).2
    · exact List.nodup_zipIdx_map_snd l
  · have hsnd := List.nodup_zipIdx_map_snd (gs.map Prod.snd)
    rw [List.nodup_iff_pairwise_ne, List.pairwise_map] at hsnd
    apply hsnd.imp
    intro a b hab
    apply List.disjoint_left.mpr
    intro ref ha hb
    simp only [List.map_map, List.mem_map, Function.comp_apply] at ha hb
    obtain ⟨n, -, rfl⟩ := ha
    obtain ⟨m, -, hm⟩ := hb
    exact hab (Prod.mk.inj hm).1.symm

/-- A reference stands for one table. -/
theorem eq_of_ref {gs : List (Bytes × List Table)} {ref : Ref} {n m : Table}
    (hn : (ref, n) ∈ (build gs).nodes) (hm : (ref, m) ∈ (build gs).nodes) : n = m := by
  obtain ⟨c, hc, hcn⟩ := mem_nodes.mp hn
  obtain ⟨d, hd, hdm⟩ := mem_nodes.mp hm
  cases hc.symm.trans hd
  exact Option.some.inj (hcn.symm.trans hdm)

/-- What `cache` holds is one of the tables, with the two hash keys. -/
theorem cacheRef_mem {gs : List (Bytes × List Table)}
    (hof : ∀ c ∈ gs, ∀ n ∈ c.2, IsNodeOf c.1 n) {g h : Bytes} {ref : Ref}
    (hr : cacheRef gs g h = some ref) :
    (ref, (build gs).node ref) ∈ (build gs).nodes ∧ HasKey g h ((build gs).node ref) = true := by
  obtain ⟨ns, hl, hn, hh⟩ := cacheRef_eq_some hr
  have hc := lastGroup_eq_some hl
  have hnode := hof _ (List.mem_of_getElem? hc) _ (List.mem_of_getElem? hn)
  refine ⟨mem_nodes.mpr ⟨_, hc, hn⟩, ?_⟩
  rw [hasKey_iff, ← hh]
  exact ⟨hnode.group, hnode.key⟩

/-- A section that stays is in front of the rest. -/
theorem filterMap_stays (s : Section) (m : Option Ref) (rs : List (Option Section × Option Ref)) :
    ((some s, m) :: rs).filterMap Prod.fst = s :: rs.filterMap Prod.fst := rfl

/-- The sections that stay after the first loop of `execute`: all with a pair of hashes that `cache`
holds, and none with another pair. -/
theorem sectionCount_merged {gs : List (Bytes × List Table)}
    (hof : ∀ c ∈ gs, ∀ n ∈ c.2, IsNodeOf c.1 n) {servers : List Section}
    {merged : List (Option Section × Option Ref)}
    (h : servers.mapM (mergeSection (build gs)) = .ok merged) (g key : Bytes) :
    sectionCount (merged.filterMap Prod.fst) g key =
      if (cacheRef gs g key).isSome then sectionCount servers g key else 0 := by
  induction servers generalizing merged with
  | nil =>
    cases h
    split <;> rfl
  | cons s servers ih =>
    obtain ⟨r, rs, hr, hrs, rfl⟩ := mapM_cons_eq_ok.mp h
    have hrest := ih hrs
    unfold sectionCount at hrest ⊢
    have hfound (hk : HasKey g key s.options = true) :
        (build gs).find s.options = cacheRef gs g key :=
      find_build (hasKey_iff.mp hk).1 (hasKey_iff.mp hk).2
    rcases mergeSection_cases hr with ⟨ref, href, rfl⟩ | ⟨hnone, rfl⟩ | ⟨hg, -, rfl⟩
    · -- the section takes the values of a node with its own two hash keys
      obtain ⟨c, hc, hn, hng, hnh⟩ := node_of_find hof href
      have hnode := hof c hc _ hn
      have hsame : HasKey g key (tset s.options ((build gs).node ref)) = HasKey g key s.options := by
        apply hasKey_congr
        · rw [get_tset_of_ne_nil (by rw [hnode.group]; exact Value.noConfusion), hng]
        · rw [get_tset_of_ne_nil (by rw [hnode.key]; exact Value.noConfusion), hnh]
      rw [filterMap_stays, List.countP_cons, List.countP_cons, hrest]
      simp only
      rw [hsame]
      by_cases hk : HasKey g key s.options = true
      · rw [hfound hk] at href
        simp only [href, Option.isSome_some, if_true]
      · simp only [hk, Bool.false_eq_true, if_false, Nat.add_zero]
    · rw [List.filterMap_cons_none rfl, List.countP_cons, hrest]
      by_cases hk : HasKey g key s.options = true
      · rw [hfound hk] at hnone
        simp only [hnone, Option.isSome_none, Bool.false_eq_true, if_false]
      · simp only [hk, Bool.false_eq_true, if_false, Nat.add_zero]
    · have hk : ¬ HasKey g key s.options = true := by
        intro hk
        rw [(hasKey_iff.mp hk).1] at hg
        cases hg
      rw [filterMap_stays, List.countP_cons, List.countP_cons, hrest]
      simp only [hk, Bool.false_eq_true, if_false, Nat.add_zero]

/-- A reference is marked if and only if a section finds it. -/
theorem mem_marks {imp : Import} {servers : List Section}
    {merged : List (Option Section × Option Ref)}
    (h : servers.mapM (mergeSection imp) = .ok merged) {ref : Ref} :
    ref ∈ merged.filterMap Prod.snd ↔ ∃ s ∈ servers, imp.find s.options = some ref := by
  rw [List.mem_filterMap]
  constructor
  · rintro ⟨r, hr, hmark⟩
    obtain ⟨s, hs, hmerge⟩ := mem_of_mapM h r hr
    rcases mergeSection_cases hmerge with ⟨ref', href, rfl⟩ | ⟨-, rfl⟩ | ⟨-, -, rfl⟩
    · cases hmark
      exact ⟨s, hs, href⟩
    · cases hmark
    · cases hmark
  · rintro ⟨s, hs, href⟩
    obtain ⟨r, hr, hmerge⟩ := exists_of_mapM h s hs
    refine ⟨r, hr, ?_⟩
    rcases mergeSection_cases hmerge with ⟨ref', href', rfl⟩ | ⟨hnone, -⟩ | ⟨hg, -, -⟩
    · exact href'.symm.trans href
    · rw [hnone] at href
      cases href
    · obtain ⟨g, key, hg', -⟩ := find_eq_some href
      rw [hg'] at hg
      cases hg

/-- A section that is added carries the hash keys of its node. -/
theorem hasKey_newOptions (opts : Options) {g : Bytes} {n : Table} (hn : IsNodeOf g n) :
    (newOptions opts n).get "grouphashkey" = n.get "grouphashkey" ∧
      (newOptions opts n).get "hashkey" = n.get "hashkey" := by
  unfold newOptions
  rw [Table.get_set_ne _ _ _ _ (by decide), Table.get_set_ne _ _ _ _ (by decide)]
  constructor
  · exact get_tset_of_ne_nil (by rw [hn.group]; exact Value.noConfusion)
  · exact get_tset_of_ne_nil (by rw [hn.key]; exact Value.noConfusion)

/-- A node is marked if and only if it is the one that `cache` holds for its pair of hashes, and some
section carries the pair. -/
theorem mem_marks_iff {gs : List (Bytes × List Table)}
    (hof : ∀ c ∈ gs, ∀ n ∈ c.2, IsNodeOf c.1 n) {servers : List Section}
    {merged : List (Option Section × Option Ref)}
    (h : servers.mapM (mergeSection (build gs)) = .ok merged) {p : Ref × Table}
    (hp : p ∈ (build gs).nodes) {g key : Bytes} (hk : HasKey g key p.2 = true) :
    p.1 ∈ merged.filterMap Prod.snd ↔
      cacheRef gs g key = some p.1 ∧ 0 < sectionCount servers g key := by
  rw [mem_marks h]
  unfold sectionCount
  rw [List.countP_pos_iff]
  constructor
  · rintro ⟨s, hs, hfind⟩
    obtain ⟨g', key', hg', hkey'⟩ := find_eq_some hfind
    have href := hfind
    rw [find_build hg' hkey'] at href
    obtain ⟨hmem, hk'⟩ := cacheRef_mem hof href
    rw [eq_of_ref hmem hp, hasKey_iff, (hasKey_iff.mp hk).1, (hasKey_iff.mp hk).2] at hk'
    cases hk'.1
    cases hk'.2
    exact ⟨href, s, hs, hasKey_iff.mpr ⟨hg', hkey'⟩⟩
  · rintro ⟨href, s, hs, hks⟩
    refine ⟨s, hs, ?_⟩
    rw [find_build (hasKey_iff.mp hks).1 (hasKey_iff.mp hks).2]
    exact href

/-- The nodes with a pair of hashes that are marked: one, if a section carries the pair and `cache`
holds it, and none otherwise. -/
theorem countP_marked {gs : List (Bytes × List Table)}
    (hof : ∀ c ∈ gs, ∀ n ∈ c.2, IsNodeOf c.1 n) {servers : List Section}
    {merged : List (Option Section × Option Ref)}
    (h : servers.mapM (mergeSection (build gs)) = .ok merged) (g key : Bytes) :
    (build gs).nodes.countP
        (fun p ↦ HasKey g key p.2 && decide (p.1 ∈ merged.filterMap Prod.snd)) =
      if (cacheRef gs g key).isSome ∧ 0 < sectionCount servers g key then 1 else 0 := by
  cases href : cacheRef gs g key with
  | none =>
    rw [if_neg (by simp), List.countP_eq_zero]
    intro p hp hmark
    rw [Bool.and_eq_true, decide_eq_true_eq] at hmark
    have := ((mem_marks_iff hof h hp hmark.1).mp hmark.2).1
    rw [href] at this
    cases this
  | some ref =>
    obtain ⟨hmem, hk⟩ := cacheRef_mem hof href
    by_cases hpos : 0 < sectionCount servers g key
    · rw [if_pos ⟨rfl, hpos⟩]
      have hcount : ((build gs).nodes.map Prod.fst).count ref = 1 :=
        List.count_eq_one_of_mem (nodup_refs gs) (List.mem_map.mpr ⟨_, hmem, rfl⟩)
      rw [List.count, List.countP_map] at hcount
      rw [← hcount]
      apply List.countP_congr
      rintro ⟨r, n⟩ hp
      simp only [Bool.and_eq_true, decide_eq_true_eq, Function.comp_apply, beq_iff_eq]
      constructor
      · rintro ⟨hkn, hmark⟩
        have := ((mem_marks_iff hof h hp hkn).mp hmark).1
        rw [href] at this
        exact (Option.some.inj this).symm
      · rintro rfl
        have hkn : HasKey g key n = true := by
          rw [eq_of_ref hp hmem]
          exact hk
        exact ⟨hkn, (mem_marks_iff hof h hp hkn).mpr ⟨href, hpos⟩⟩
    · rw [if_neg (fun hc ↦ hpos hc.2), List.countP_eq_zero]
      intro p hp hmark
      rw [Bool.and_eq_true, decide_eq_true_eq] at hmark
      exact hpos ((mem_marks_iff hof h hp hmark.1).mp hmark.2).2

/-- The sections that are added for a pair of hashes: one for each node, but for a marked one. -/
theorem sectionCount_fresh {gs : List (Bytes × List Table)}
    (hof : ∀ c ∈ gs, ∀ n ∈ c.2, IsNodeOf c.1 n) {opts : Options} {servers fresh : List Section}
    {merged : List (Option Section × Option Ref)}
    (h : servers.mapM (mergeSection (build gs)) = .ok merged)
    (hfresh : fresh.map Section.options =
      ((((build gs).nodes.filter fun n ↦ n.1 ∉ merged.filterMap Prod.snd).map Prod.snd).map
        (newOptions opts))) (g key : Bytes) :
    sectionCount fresh g key +
        (if (cacheRef gs g key).isSome ∧ 0 < sectionCount servers g key then 1 else 0) =
      nodeCount gs g key := by
  have hfreshCount : sectionCount fresh g key = (build gs).nodes.countP
      fun p ↦ HasKey g key p.2 && decide (p.1 ∉ merged.filterMap Prod.snd) := by
    have hmap : sectionCount fresh g key = (fresh.map Section.options).countP (HasKey g key) := by
      rw [List.countP_map]
      rfl
    rw [hmap, hfresh, List.countP_map, List.countP_map, List.countP_filter]
    apply List.countP_congr
    intro p hp
    obtain ⟨c, hc, hn⟩ := mem_nodes.mp hp
    have hnode := hof c (List.mem_of_getElem? hc) p.2 (List.mem_of_getElem? hn)
    have hkey := hasKey_newOptions opts hnode
    simp only [Function.comp_apply]
    rw [hasKey_congr hkey.1 hkey.2]
  have hnodes : nodeCount gs g key = (build gs).nodes.countP fun p ↦ HasKey g key p.2 := by
    unfold nodeCount
    rw [← map_snd_nodes, List.countP_map]
    rfl
  have hsplit := List.countP_eq_countP_filter_add (build gs).nodes
    (fun p : Ref × Table ↦ HasKey g key p.2) (fun p ↦ decide (p.1 ∉ merged.filterMap Prod.snd))
  rw [List.countP_filter, List.countP_filter] at hsplit
  rw [hfreshCount, hnodes, ← countP_marked hof h g key, hsplit]
  simp only [decide_not, Bool.not_not]

/-- The sections with a pair of hashes after a run that commits. -/
theorem sectionCount_update {env : Env} {opts : Options} {fetches : List Fetch} {cfg : Config}
    (hsafe : RunSafe env opts fetches cfg) (hsome : ∃ f ∈ fetches, curl f ≠ [])
    {gs : List (Bytes × List Table)} (hgs : groups env opts fetches = .ok gs) (g key : Bytes) :
    sectionCount (update env opts fetches cfg).servers g key +
        (if (cacheRef gs g key).isSome ∧ 0 < sectionCount cfg.servers g key then 1 else 0) =
      (if (cacheRef gs g key).isSome then sectionCount cfg.servers g key else 0) +
        nodeCount gs g key := by
  obtain ⟨gs', merged, fresh, hgs', hmerged, hservers, hfresh⟩ := update_spec hsafe hsome
  cases hgs.symm.trans hgs'
  have hof := isNodeOf_groups hgs
  rw [← sectionCount_merged hof hmerged, ← sectionCount_fresh hof hmerged hfresh, hservers]
  unfold sectionCount
  rw [List.countP_append]
  omega

/-- A pair of hashes that `cache` holds has a node. -/
theorem nodeCount_pos {gs : List (Bytes × List Table)}
    (hof : ∀ c ∈ gs, ∀ n ∈ c.2, IsNodeOf c.1 n) {g key : Bytes}
    (h : (cacheRef gs g key).isSome = true) : 0 < nodeCount gs g key := by
  obtain ⟨ref, href⟩ := Option.isSome_iff_exists.mp h
  obtain ⟨hmem, hk⟩ := cacheRef_mem hof href
  unfold nodeCount
  rw [← map_snd_nodes, List.countP_pos_iff]
  exact ⟨_, List.mem_map.mpr ⟨_, hmem, rfl⟩, hk⟩

end OpenWrtCompile.Subscribe
