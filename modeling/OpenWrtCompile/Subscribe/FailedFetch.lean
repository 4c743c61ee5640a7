import OpenWrtCompile.Subscribe.Merge

/-!
# Sections of a subscription that cannot be fetched

`parse_link` makes no group for a URL that yields nothing, so `execute` deletes its sections as soon
as another URL yields something.
-/

namespace OpenWrtCompile.Subscribe
open OpenWrtCompile.Base

/-- Some URL of the list has the group hash. -/
def Listed (env : Env) (fetches : List Fetch) (g : Bytes) : Prop :=
  ∃ f ∈ fetches, md5 env f.url = g

/-- The URL with the group hash is in the list, and every fetch of it yields nothing. -/
def Failed (env : Env) (fetches : List Fetch) (g : Bytes) : Prop :=
  Listed env fetches g ∧ ∀ f ∈ fetches, md5 env f.url = g → curl f = []

/-- The section is still there: one with its name and its two hash keys. -/
def Kept (cfg : Config) (s : Section) : Prop :=
  ∃ s' ∈ cfg.servers, s'.name = s.name ∧
    s'.options.get "grouphashkey" = s.options.get "grouphashkey" ∧
    s'.options.get "hashkey" = s.options.get "hashkey"

/-- After the run every section of a URL that failed is as it was, and an imported section is gone
only where its URL was fetched without its node, or is not in the list. -/
def NodesIntact (env : Env) (opts : Options) (fetches : List Fetch) (cfg : Config) : Prop :=
  (∀ s ∈ cfg.servers, ∀ g, s.options.get "grouphashkey" = .str g → Failed env fetches g →
      s ∈ (update env opts fetches cfg).servers) ∧
    ∀ s ∈ cfg.servers, ∀ g, s.options.get "grouphashkey" = .str g →
      ¬ Kept (update env opts fetches cfg) s →
        (∃ f ∈ fetches, md5 env f.url = g ∧ curl f ≠ [] ∧
            ∃ ns, contentNodes env opts f = .ok ns ∧
              ∀ n ∈ ns, .str (hashkey n) ≠ s.options.get "hashkey") ∨
          ¬ Listed env fetches g

/-- What a configuration that the run leaves alone keeps. -/
theorem nodesIntact_of_update_eq {env : Env} {opts : Options} {fetches : List Fetch} {cfg : Config}
    (h : update env opts fetches cfg = cfg) : NodesIntact env opts fetches cfg := by
  unfold NodesIntact
  rw [h]
  refine ⟨fun s hs g _ _ ↦ hs, ?_⟩
  intro s hs g _ hgone
  exact absurd ⟨s, hs, rfl, rfl, rfl⟩ hgone

/-- A section of the new configuration with a group hash carries that of a content of the run. -/
theorem group_of_mem_update {env : Env} {opts : Options} {fetches : List Fetch} {cfg : Config}
    (hsafe : RunSafe env opts fetches cfg) (hsome : ∃ f ∈ fetches, curl f ≠ []) {s : Section}
    (hs : s ∈ (update env opts fetches cfg).servers) {g : Bytes}
    (hg : s.options.get "grouphashkey" = .str g) : ¬ Failed env fetches g := by
  rcases update_spec hsafe hsome with ⟨gs, merged, fresh, hgs, hmerged, hservers, hfresh⟩
  -- a table of the run has the group of a fetch that yields something
  have hnode {c : Bytes × List Table} (hc : c ∈ gs) {n : Table} (hn : n ∈ c.2) {o : Table}
      (ho : (tset o n).get "grouphashkey" = .str g) : ¬ Failed env fetches g := by
    have hof := (isNodeOf_groups hgs c hc n hn).group
    rw [get_tset_of_ne_nil (by rw [hof]; exact Value.noConfusion), hof] at ho
    cases ho
    rcases fetch_of_mem_groups hgs c hc with ⟨f, hf, hne, hfg, -⟩
    exact fun hfail ↦ hne (hfail.2 f hf hfg)
  rw [hservers, List.mem_append] at hs
  rcases hs with hs | hs
  · obtain ⟨r, hr, hrs⟩ := List.mem_filterMap.mp hs
    obtain ⟨old, -, hold⟩ := mem_of_mapM hmerged r hr
    rcases mergeSection_cases hold with ⟨ref, href, rfl⟩ | ⟨-, rfl⟩ | ⟨hkey, -, rfl⟩
    · cases hrs
      obtain ⟨c, hc, hn, -, -⟩ := node_of_find (isNodeOf_groups hgs) href
      exact hnode hc hn hg
    · cases hrs
    · cases hrs
      rw [hg] at hkey
      cases hkey
  · have hmem := List.mem_map_of_mem (f := Section.options) hs
    rw [hfresh] at hmem
    rcases List.mem_map.mp hmem with ⟨n, hn, hopts⟩
    rcases List.mem_map.mp hn with ⟨p, hp, rfl⟩
    have hpnode := (List.mem_filter.mp hp).1
    unfold Import.nodes at hpnode
    rcases List.mem_flatMap.mp hpnode with ⟨l, hl, hp⟩
    rcases List.mem_map.mp hp with ⟨q, hq, rfl⟩
    have hlist := List.fst_mem_of_mem_zipIdx hl
    rw [lists_build] at hlist
    rcases List.mem_map.mp hlist with ⟨c, hc, hcl⟩
    rw [← hopts] at hg
    unfold newOptions at hg
    rw [Table.get_set_ne _ _ _ _ (by decide)] at hg
    refine hnode hc ?_ hg
    rw [hcl]
    exact List.fst_mem_of_mem_zipIdx hq

/-- A URL that yields nothing. -/
def downFetch : Fetch := ⟨ascii "https://down.example/list", []⟩

/-- A configuration with one section, imported from the URL that yields nothing. -/
def downConfig : Config where
  servers := [⟨ascii "cfg0a", [(ascii "alias", .str (ascii "C")),
    (ascii "grouphashkey", .str (md5 listEnv downFetch.url)), (ascii "hashkey", .str (ascii "c"))]⟩]
  globals := []
  others := []

end OpenWrtCompile.Subscribe
