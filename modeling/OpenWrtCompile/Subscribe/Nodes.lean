import OpenWrtCompile.Subscribe.Safety
import Mathlib.Data.List.ReduceOption

/-!
# The nodes of a run

`parse_link` as a function of the entries: the nodes that each fetched content gives, and what
`nodeResult` and `cache` hold of them.
-/

namespace OpenWrtCompile.Subscribe
open OpenWrtCompile.Base

/-- The nodes of a fetched content, in the order of its entries. -/
def contentNodes (env : Env) (opts : Options) (f : Fetch) : Except LuaError (List Table) := do
  let content ← readContent env (curl f)
  let nodes ← content.links.mapM (acceptLink env opts (md5 env f.url) content.extra)
  return nodes.reduceOption

/-- The fetches that yield something. -/
def fetched (fetches : List Fetch) : List Fetch := fetches.filter (curl · ≠ [])

/-- Group hash and nodes of each fetch that yields something. -/
def groups (env : Env) (opts : Options) (fetches : List Fetch) :
    Except LuaError (List (Bytes × List Table)) :=
  (fetched fetches).mapM fun f ↦ Prod.mk (md5 env f.url) <$> contentNodes env opts f

/-- One content in `nodeResult` and `cache`. -/
def Import.addGroup (imp : Import) (g : Bytes × List Table) : Import :=
  g.2.foldl (fun i n ↦ i.insert g.1 n) (imp.openGroup g.1)

/-- All contents in `nodeResult` and `cache`. -/
def build (gs : List (Bytes × List Table)) : Import := gs.foldl Import.addGroup Import.empty

/-- A loop that reads an element and then inserts what it found is all readings, and then all
insertions. -/
theorem foldlM_reduceOption {ε α β γ : Type} (read : α → Except ε (Option β)) (insert : γ → β → γ)
    (step : γ → α → Except ε γ)
    (hstep : ∀ c a, step c a = (fun o ↦ o.elim c (insert c)) <$> read a) (l : List α) (c : γ) :
    l.foldlM step c = (fun os ↦ os.reduceOption.foldl insert c) <$> l.mapM read := by
  induction l generalizing c with
  | nil => rfl
  | cons a l ih =>
    rw [List.foldlM_cons, List.mapM_cons, hstep]
    cases hread : read a with
    | error e => rfl
    | ok o =>
      have hrest : (fun o ↦ o.elim c (insert c)) <$> (Except.ok o : Except ε (Option β)) =
          .ok (o.elim c (insert c)) := rfl
      rw [hrest]
      change l.foldlM step (o.elim c (insert c)) = _
      rw [ih]
      cases hl : l.mapM read with
      | error e => rfl
      | ok os =>
        cases o with
        | none => rfl
        | some b => rfl

/-- One URL with a content: its nodes are inserted in order. -/
theorem importUrl_eq (env : Env) (opts : Options) (imp : Import) (f : Fetch) (hf : curl f ≠ []) :
    importUrl env opts imp f =
      (fun ns ↦ imp.addGroup (md5 env f.url, ns)) <$> contentNodes env opts f := by
  unfold importUrl contentNodes
  rw [if_neg hf]
  simp only
  cases hc : readContent env (curl f) with
  | error e => rfl
  | ok content =>
    have hloop := foldlM_reduceOption
      (acceptLink env opts (md5 env f.url) content.extra)
      (fun imp n ↦ imp.insert (md5 env f.url) n)
      (importLink env opts (md5 env f.url) content.extra)
      (fun c a ↦ by
        unfold importLink
        cases acceptLink env opts (md5 env f.url) content.extra a with
        | error e => rfl
        | ok o => cases o <;> rfl)
      content.links (imp.openGroup (md5 env f.url))
    change content.links.foldlM _ _ = _ <$>
      (content.links.mapM (acceptLink env opts (md5 env f.url) content.extra) >>=
        fun nodes ↦ pure nodes.reduceOption)
    rw [hloop]
    cases content.links.mapM (acceptLink env opts (md5 env f.url) content.extra) <;> rfl

/-- `parse_link` builds what the contents give. -/
theorem parseLink_eq (env : Env) (opts : Options) (fetches : List Fetch) :
    parseLink env opts fetches = build <$> groups env opts fetches := by
  unfold parseLink groups build
  generalize Import.empty = imp
  induction fetches generalizing imp with
  | nil => rfl
  | cons f fetches ih =>
    rw [List.foldlM_cons]
    by_cases hf : curl f = []
    · have hskip : importUrl env opts imp f = .ok imp := if_pos hf
      have hfilter : fetched (f :: fetches) = fetched fetches :=
        List.filter_cons_of_neg (by simpa using hf)
      rw [hskip, hfilter]
      exact ih imp
    · have hfilter : fetched (f :: fetches) = f :: fetched fetches :=
        List.filter_cons_of_pos (by simpa using hf)
      rw [importUrl_eq env opts imp f hf, hfilter, List.mapM_cons]
      cases contentNodes env opts f with
      | error e => rfl
      | ok ns =>
        change fetches.foldlM (importUrl env opts) (imp.addGroup (md5 env f.url, ns)) = _
        rw [ih]
        cases (fetched fetches).mapM fun f ↦ Prod.mk (md5 env f.url) <$> contentNodes env opts f <;>
          rfl

/-- A content gives its nodes if and only if it is safe. -/
theorem returns_contentNodes (env : Env) (opts : Options) (f : Fetch) :
    Returns (contentNodes env opts f) ↔ ContentSafe env opts (curl f) := by
  unfold contentNodes ContentSafe
  rw [← returns_readContent, returns_bind]
  constructor
  · rintro ⟨c, hc, hend⟩
    refine ⟨⟨c, hc⟩, ?_⟩
    intro c' hc' link hlink
    cases hc.symm.trans hc'
    rcases returns_bind.mp hend with ⟨os, hos, -⟩
    rw [← returns_acceptLink env opts (md5 env f.url)]
    exact (returns_mapM _).mp ⟨os, hos⟩ link hlink
  · rintro ⟨⟨c, hc⟩, hsafe⟩
    refine ⟨c, hc, ?_⟩
    rcases (returns_mapM (f := acceptLink env opts (md5 env f.url) c.extra) c.links).mpr
      (fun link hlink ↦ (returns_acceptLink env opts _ _ link).mpr (hsafe c hc link hlink))
      with ⟨os, hos⟩
    exact returns_bind.mpr ⟨os, hos, returns_pure _⟩

/-- All contents are read if and only if each of them is safe. -/
theorem returns_groups (env : Env) (opts : Options) (fetches : List Fetch) :
    Returns (groups env opts fetches) ↔
      ∀ f ∈ fetches, curl f ≠ [] → ContentSafe env opts (curl f) := by
  unfold groups fetched
  rw [returns_mapM]
  simp only [returns_map, returns_contentNodes, List.mem_filter, decide_eq_true_eq, and_imp]

/-- The place of the last node with a hash. -/
def lastPos (h : Bytes) (ns : List Table) : Option Nat :=
  ns.zipIdx.foldl (fun o p ↦ if hashkey p.1 = h then some p.2 else o) none

/-- One more node is the last one with its hash. -/
theorem lastPos_concat (h : Bytes) (ns : List Table) (n : Table) :
    lastPos h (ns ++ [n]) = if hashkey n = h then some ns.length else lastPos h ns := by
  unfold lastPos
  rw [List.zipIdx_append, List.foldl_append]
  simp

/-- The last node with a hash has it. -/
theorem lastPos_eq_some {h : Bytes} {ns : List Table} {i : Nat} (hi : lastPos h ns = some i) :
    ∃ n, ns[i]? = some n ∧ hashkey n = h := by
  induction ns using List.reverseRecOn with
  | nil => cases hi
  | append_singleton ns n ih =>
    rw [lastPos_concat] at hi
    split at hi
    · next hn =>
      cases hi
      exact ⟨n, by simp, hn⟩
    · rcases ih hi with ⟨m, hm, hh⟩
      exact ⟨m, by rw [List.getElem?_append_left (List.getElem?_eq_some_iff.mp hm).1]; exact hm, hh⟩

/-- Without a place no node has the hash. -/
theorem lastPos_eq_none {h : Bytes} {ns : List Table} :
    lastPos h ns = none ↔ ∀ n ∈ ns, hashkey n ≠ h := by
  induction ns using List.reverseRecOn with
  | nil => exact iff_of_true rfl (by simp)
  | append_singleton ns n ih =>
    rw [lastPos_concat]
    split
    · next hn =>
      refine iff_of_false (by simp) (fun hall ↦ ?_)
      exact hall n (by simp) hn
    · next hn =>
      rw [ih]
      simp only [List.mem_append, List.mem_singleton]
      constructor
      · rintro hall m (hm | hm)
        · exact hall m hm
        · rw [hm]
          exact hn
      · intro hall m hm
        exact hall m (.inl hm)

/-- One node more in the last list. -/
theorem lists_insert (imp : Import) (g : Bytes) (n : Table) :
    (imp.insert g n).lists = imp.lists.dropLast ++ [imp.lists.getLastD [] ++ [n]] := rfl

/-- One content adds its list of nodes. -/
theorem lists_addGroup (imp : Import) (g : Bytes × List Table) :
    (imp.addGroup g).lists = imp.lists ++ [g.2] := by
  rcases g with ⟨g, ns⟩
  unfold Import.addGroup
  simp only
  induction ns using List.reverseRecOn with
  | nil => rfl
  | append_singleton ns n ih =>
    rw [List.foldl_append, List.foldl_cons, List.foldl_nil, lists_insert, ih]
    simp

/-- One content fills the cache of its own group, and no other. -/
theorem cache_addGroup (imp : Import) (g : Bytes × List Table) :
    (imp.addGroup g).cache =
      Function.update imp.cache g.1
        (some fun h ↦ (lastPos h g.2).map fun i ↦ (imp.lists.length, i)) := by
  rcases g with ⟨g, ns⟩
  induction ns using List.reverseRecOn with
  | nil => rfl
  | append_singleton ns n ih =>
    have hlists := lists_addGroup imp (g, ns)
    have hstep : imp.addGroup (g, ns ++ [n]) = (imp.addGroup (g, ns)).insert g n := by
      unfold Import.addGroup
      simp only [List.foldl_append, List.foldl_cons, List.foldl_nil]
    rw [hstep]
    unfold Import.insert
    simp only
    rw [ih, hlists]
    simp only [Function.update_idem, Function.update_self, Option.getD_some]
    congr 2
    funext h
    rw [lastPos_concat]
    by_cases hn : hashkey n = h
    · rw [if_pos hn, ← hn, Function.update_self]
      simp
    · rw [if_neg hn, Function.update_of_ne (Ne.symm hn)]

/-- `nodeResult` holds the nodes of each content. -/
theorem lists_build (gs : List (Bytes × List Table)) : (build gs).lists = gs.map Prod.snd := by
  induction gs using List.reverseRecOn with
  | nil => rfl
  | append_singleton gs g ih =>
    unfold build at ih ⊢
    rw [List.foldl_append, List.foldl_cons, List.foldl_nil, lists_addGroup, ih, List.map_append]
    rfl

/-- The last content of a group in a list of contents, with its index. -/
def lastGroup (g : Bytes) (gs : List (Bytes × List Table)) : Option (Nat × List Table) :=
  gs.zipIdx.foldl (fun o p ↦ if p.1.1 = g then some (p.2, p.1.2) else o) none

/-- One more content is the last one of its group. -/
theorem lastGroup_concat (g : Bytes) (gs : List (Bytes × List Table)) (c : Bytes × List Table) :
    lastGroup g (gs ++ [c]) = if c.1 = g then some (gs.length, c.2) else lastGroup g gs := by
  unfold lastGroup
  rw [List.zipIdx_append, List.foldl_append]
  simp

/-- `cache` holds the last content of each group. -/
theorem cache_build (gs : List (Bytes × List Table)) (g : Bytes) :
    (build gs).cache g =
      (lastGroup g gs).map fun l h ↦ (lastPos h l.2).map fun i ↦ (l.1, i) := by
  induction gs using List.reverseRecOn with
  | nil => rfl
  | append_singleton gs c ih =>
    have hstep : build (gs ++ [c]) = (build gs).addGroup c := by
      unfold build
      rw [List.foldl_append, List.foldl_cons, List.foldl_nil]
    rw [hstep, cache_addGroup, lastGroup_concat, lists_build]
    by_cases hc : c.1 = g
    · rw [if_pos hc, ← hc, Function.update_self, List.length_map]
      rfl
    · rw [if_neg hc, Function.update_of_ne (Ne.symm hc), ih]

/-- The last content of a group is one of the contents. -/
theorem lastGroup_eq_some {g : Bytes} {gs : List (Bytes × List Table)} {k : Nat} {ns : List Table}
    (h : lastGroup g gs = some (k, ns)) : gs[k]? = some (g, ns) := by
  induction gs using List.reverseRecOn with
  | nil => cases h
  | append_singleton gs c ih =>
    rw [lastGroup_concat] at h
    split at h
    · next hc =>
      cases h
      rw [← hc]
      simp
    · have hk := ih h
      rw [List.getElem?_append_left (List.getElem?_eq_some_iff.mp hk).1]
      exact hk

/-- A group without a last content has none. -/
theorem lastGroup_eq_none {g : Bytes} {gs : List (Bytes × List Table)} :
    lastGroup g gs = none ↔ ∀ c ∈ gs, c.1 ≠ g := by
  induction gs using List.reverseRecOn with
  | nil => exact iff_of_true rfl (by simp)
  | append_singleton gs c ih =>
    rw [lastGroup_concat]
    split
    · next hc =>
      refine iff_of_false (by simp) (fun hall ↦ ?_)
      exact hall c (by simp) hc
    · next hc =>
      rw [ih]
      simp only [List.mem_append, List.mem_singleton]
      constructor
      · rintro hall m (hm | hm)
        · exact hall m hm
        · rw [hm]
          exact hc
      · intro hall m hm
        exact hall m (.inl hm)

end OpenWrtCompile.Subscribe
