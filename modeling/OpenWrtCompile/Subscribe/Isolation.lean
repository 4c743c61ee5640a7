import OpenWrtCompile.Subscribe.Nodes

/-!
# Isolation of a faulty entry

An entry inserted into a fetched content leaves the import of all others as it was if and only if
nothing in the run raises an error: `parse_link` and `execute` have no other way to stop.
-/

namespace OpenWrtCompile.Subscribe
open OpenWrtCompile.Base

/-- A manual section without an alias has a server and a port, or neither. -/
def SectionSafe (s : Section) : Prop :=
  (s.options.get "grouphashkey").truthy = false → (s.options.get "hashkey").truthy = false →
    (s.options.get "alias").truthy = false →
      ((s.options.get "server").truthy || (s.options.get "server_port").truthy) = true →
        (s.options.get "server").isText = true ∧ (s.options.get "server_port").isText = true

/-- A run raises nothing: every content that is fetched is safe, and, if there is one, every
section. -/
def RunSafe (env : Env) (opts : Options) (fetches : List Fetch) (cfg : Config) : Prop :=
  (∀ f ∈ fetches, curl f ≠ [] → ContentSafe env opts (curl f)) ∧
    ((∃ f ∈ fetches, curl f ≠ []) → ∀ s ∈ cfg.servers, SectionSafe s)

/-- The merge of a section returns if and only if the section is safe. -/
theorem returns_mergeSection (imp : Import) (s : Section) :
    Returns (mergeSection imp s) ↔ SectionSafe s := by
  unfold mergeSection SectionSafe
  split
  · next hkey =>
    constructor
    · intro _ hg hh
      rw [hg, hh] at hkey
      cases hkey
    · intro _
      cases imp.find s.options <;> exact returns_ok _
  · next hkey =>
    split
    · next ha => exact iff_of_true (returns_ok _) (fun _ _ hna ↦ absurd ha (by rw [hna]; simp))
    · next ha =>
      rw [Bool.not_eq_true] at ha hkey
      rw [Bool.or_eq_false_iff] at hkey
      split
      · next hsp =>
        simp only [returns_bind, returns_pure, and_true, hkey.1, hkey.2, ha, hsp, true_implies]
        rw [← returns_text, ← returns_text]
        constructor
        · rintro ⟨server, hs, port, hp⟩
          exact ⟨⟨server, hs⟩, ⟨port, hp⟩⟩
        · rintro ⟨⟨server, hs⟩, ⟨port, hp⟩⟩
          exact ⟨server, hs, port, hp⟩
      · next hsp => exact iff_of_true (returns_ok _) (fun _ _ _ h ↦ absurd h hsp)

/-- The merge returns if and only if every section is safe. -/
theorem returns_mergeServers (env : Env) (opts : Options) (imp : Import) (cfg : Config) :
    Returns (mergeServers env opts imp cfg) ↔ ∀ s ∈ cfg.servers, SectionSafe s := by
  unfold mergeServers
  simp only [returns_bind, returns_pure, and_true]
  change Returns (cfg.servers.mapM (mergeSection imp)) ↔ _
  rw [returns_mapM]
  simp only [returns_mergeSection]

/-- There is a content if and only if some fetch yields one. -/
theorem groups_eq_nil {env : Env} {opts : Options} {fetches : List Fetch}
    {gs : List (Bytes × List Table)} (h : groups env opts fetches = .ok gs) :
    (build gs).lists = [] ↔ ¬ ∃ f ∈ fetches, curl f ≠ [] := by
  rw [lists_build, List.map_eq_nil_iff]
  unfold groups at h
  have hfetched : fetched fetches = [] ↔ ¬ ∃ f ∈ fetches, curl f ≠ [] := by
    unfold fetched
    rw [List.filter_eq_nil_iff]
    simp
  rw [← hfetched]
  cases hl : fetched fetches with
  | nil =>
    rw [hl] at h
    cases h
    exact iff_of_true rfl rfl
  | cons f fs =>
    rw [hl] at h
    rcases mapM_cons_eq_ok.mp h with ⟨b, bs, -, -, rfl⟩
    exact iff_of_false (by simp) (by simp)

/-- A run returns if and only if it is safe. -/
theorem returns_execute (env : Env) (opts : Options) (fetches : List Fetch) (cfg : Config) :
    Returns (execute env opts fetches cfg) ↔ RunSafe env opts fetches cfg := by
  unfold execute RunSafe
  rw [parseLink_eq, returns_bind, ← returns_groups]
  constructor
  · rintro ⟨imp, himp, hend⟩
    rcases map_eq_ok.mp himp with ⟨gs, hgs, rfl⟩
    refine ⟨⟨gs, hgs⟩, ?_⟩
    intro hsome
    rw [if_neg (fun hnil ↦ (groups_eq_nil hgs).mp hnil hsome)] at hend
    rcases returns_bind.mp hend with ⟨servers, hservers, -⟩
    exact (returns_mergeServers env opts _ cfg).mp ⟨servers, hservers⟩
  · rintro ⟨⟨gs, hgs⟩, hsections⟩
    refine ⟨build gs, map_eq_ok.mpr ⟨gs, hgs, rfl⟩, ?_⟩
    split
    · exact returns_pure _
    · next hne =>
      rw [groups_eq_nil hgs, not_not] at hne
      rcases (returns_mergeServers env opts (build gs) cfg).mpr (hsections hne)
        with ⟨servers, hservers⟩
      exact returns_bind.mpr ⟨servers, hservers, returns_pure _⟩

/-- The content that `f'` fetches is that of `f` with the entry `e` between `before` and `after`. -/
structure Inserted (env : Env) (f f' : Fetch) (extra : Option Table) (before after : List Link)
    (e : Link) : Prop where
  url : f'.url = f.url
  without : curl f ≠ [] ∧ readContent env (curl f) = .ok ⟨extra, before ++ after⟩
  inserted : curl f' ≠ [] ∧ readContent env (curl f') = .ok ⟨extra, before ++ e :: after⟩

/-- Isolation of the entry `e` in the content of `f'`, between the fetches `fs` and `gs`: neither run
raises an error, the nodes of all other entries are the same with and without it, and where the entry
gives no node the configuration is the same too. -/
def Isolated (env : Env) (opts : Options) (cfg : Config) (fs gs : List Fetch) (f f' : Fetch)
    (extra : Option Table) (e : Link) : Prop :=
  ∃ imp imp' node cfg₁ cfg₁',
    parseLink env opts (fs ++ f :: gs) = .ok imp ∧ parseLink env opts (fs ++ f' :: gs) = .ok imp' ∧
    acceptLink env opts (md5 env f.url) extra e = .ok node ∧
    (∃ ls x y rs, imp.lists = ls ++ (x ++ y) :: rs ∧
      imp'.lists = ls ++ (x ++ node.toList ++ y) :: rs) ∧
    execute env opts (fs ++ f :: gs) cfg = .ok cfg₁ ∧
    execute env opts (fs ++ f' :: gs) cfg = .ok cfg₁' ∧
    (node = none → cfg₁' = cfg₁)

/-- The groups around one fetch that yields something. -/
theorem groups_append_cons {env : Env} {opts : Options} {fs gs : List Fetch} {f : Fetch}
    (hf : curl f ≠ []) {r : List (Bytes × List Table)} :
    groups env opts (fs ++ f :: gs) = .ok r ↔
      ∃ ls ns rs, groups env opts fs = .ok ls ∧ contentNodes env opts f = .ok ns ∧
        groups env opts gs = .ok rs ∧ r = ls ++ (md5 env f.url, ns) :: rs := by
  have hfetched : fetched (fs ++ f :: gs) = fetched fs ++ f :: fetched gs := by
    unfold fetched
    rw [List.filter_append, List.filter_cons_of_pos (by simpa using hf)]
  unfold groups
  rw [hfetched, mapM_append_eq_ok]
  constructor
  · rintro ⟨ls, rs, hls, hrs, rfl⟩
    rcases mapM_cons_eq_ok.mp hrs with ⟨b, bs, hb, hbs, rfl⟩
    rcases map_eq_ok.mp hb with ⟨ns, hns, rfl⟩
    exact ⟨ls, ns, bs, hls, hns, hbs, rfl⟩
  · rintro ⟨ls, ns, rs, hls, hns, hrs, rfl⟩
    exact ⟨ls, _, hls, mapM_cons_eq_ok.mpr ⟨_, rs, map_eq_ok.mpr ⟨ns, hns, rfl⟩, hrs, rfl⟩, rfl⟩

/-- The nodes of the content with the entry are those of the content without it, and its own. -/
theorem contentNodes_inserted {env : Env} {opts : Options} {f f' : Fetch} {extra : Option Table}
    {before after : List Link} {e : Link} (h : Inserted env f f' extra before after e)
    {ns' : List Table} (hns : contentNodes env opts f' = .ok ns') :
    ∃ x node y, acceptLink env opts (md5 env f.url) extra e = .ok node ∧
      ns' = x ++ node.toList ++ y ∧ contentNodes env opts f = .ok (x ++ y) := by
  unfold contentNodes at hns ⊢
  rw [h.inserted.2] at hns
  rcases bind_eq_ok.mp hns with ⟨c, hc, hns⟩
  cases hc
  rcases bind_eq_ok.mp hns with ⟨os, hos, hns⟩
  cases hns
  rw [h.url] at hos
  rcases mapM_append_eq_ok.mp hos with ⟨p, q, hp, hq, rfl⟩
  rcases mapM_cons_eq_ok.mp hq with ⟨node, q', hnode, hq', rfl⟩
  refine ⟨p.reduceOption, node, q'.reduceOption, hnode, ?_, ?_⟩
  · rw [List.reduceOption_append, List.append_assoc]
    cases node <;> rfl
  · rw [h.without.2]
    refine bind_eq_ok.mpr ⟨_, rfl, bind_eq_ok.mpr ⟨p ++ q', ?_, ?_⟩⟩
    · exact mapM_append_eq_ok.mpr ⟨p, q', hp, hq', rfl⟩
    · rw [List.reduceOption_append]
      rfl

/-- Surroundings in which the given texts are base64 of lists, filter words are plain text and
a checksum is the text itself. -/
def listEnv : Env where
  b64decode text :=
    if text = ascii "dHJvamFuOi8vcHdAYS5leGFtcGxlOjQ0MyNB====" then
      some (ascii "trojan://pw@a.example:443#A")
    else if text = ascii "dHJvamFuOi8vcHdAYS5leGFtcGxlOjQ0MyNBCnRyb2phbjovL3B3QA======" then
      some (ascii "trojan://pw@a.example:443#A\ntrojan://pw@")
    else if text =
        ascii "dHJvamFuOi8vcHdAYS5leGFtcGxlOjQ0MyNBCnRyb2phbjovL3B3QGIuZXhhbXBsZTo0NDMjQg======" then
      some (ascii "trojan://pw@a.example:443#A\ntrojan://pw@b.example:443#B")
    else if text =
        ascii "dHJvamFuOi8vcHdAYS5leGFtcGxlOjQ0MyNBCnRyb2phbjovL3B3QGEuZXhhbXBsZTo0NDMjQQ======" then
      some (ascii "trojan://pw@a.example:443#A\ntrojan://pw@a.example:443#A")
    else none
  jsonParse _ := .nil
  jsonStringify t := t.flatMap fun p ↦ p.1 ++ 0x3A :: p.2.shown ++ [0x2C]
  md5sum text := text
  find s word := .ok (Search.find? word s).isSome
  host s := s ≠ []
  addName names := ascii "cfg" ++ names.flatten

/-- The default options. -/
def listOptions : Options := ⟨ascii "expired/left", ascii "0", ascii "0"⟩

/-- A list with the one node A. -/
def listOfA : Fetch := ⟨ascii "https://sub.example/list", ascii "dHJvamFuOi8vcHdAYS5leGFtcGxlOjQ0MyNB"⟩

/-- The list with the entry `trojan://pw@` behind node A. -/
def listWithCut : Fetch :=
  ⟨ascii "https://sub.example/list", ascii "dHJvamFuOi8vcHdAYS5leGFtcGxlOjQ0MyNBCnRyb2phbjovL3B3QA=="⟩

/-- The list with node B behind node A. -/
def listWithB : Fetch :=
  ⟨ascii "https://sub.example/list",
    ascii "dHJvamFuOi8vcHdAYS5leGFtcGxlOjQ0MyNBCnRyb2phbjovL3B3QGIuZXhhbXBsZTo0NDMjQg=="⟩

/-- How a list without `ssd://` is cut into lines. -/
theorem readContent_lines {env : Env} {raw : Bytes} (lines : List Bytes)
    (hssd : Search.find? (ascii "ssd://") raw = none)
    (hlines : split (some (gsubByte 0x20 0x0A (base64Decode env (some raw)))) (ascii "\n") = lines) :
    readContent env raw = .ok ⟨none, lines.map .line⟩ := by
  unfold readContent
  rw [hssd, ← hlines]

/-- `trojan://pw@` is inserted behind node A. -/
theorem inserted_cut :
    Inserted listEnv listOfA listWithCut none [.line (ascii "trojan://pw@a.example:443#A")] []
      (.line (ascii "trojan://pw@")) where
  url := rfl
  without := ⟨by decide, readContent_lines [ascii "trojan://pw@a.example:443#A"]
    (by decide) (by decide)⟩
  inserted := ⟨by decide, readContent_lines
    [ascii "trojan://pw@a.example:443#A", ascii "trojan://pw@"]
    (by decide) (by decide)⟩

/-- Node B is inserted behind node A. -/
theorem inserted_B :
    Inserted listEnv listOfA listWithB none [.line (ascii "trojan://pw@a.example:443#A")] []
      (.line (ascii "trojan://pw@b.example:443#B")) where
  url := rfl
  without := ⟨by decide, readContent_lines [ascii "trojan://pw@a.example:443#A"]
    (by decide) (by decide)⟩
  inserted := ⟨by decide, readContent_lines
    [ascii "trojan://pw@a.example:443#A", ascii "trojan://pw@b.example:443#B"]
    (by decide +kernel) (by decide +kernel)⟩

/-- The computation raises nothing. -/
def returned {α : Type} : Except LuaError α → Bool
  | .ok _ => true
  | .error _ => false

/-- What `returned` says. -/
theorem returned_iff {α : Type} (x : Except LuaError α) : returned x = true ↔ Returns x := by
  cases x with
  | ok a => exact iff_of_true rfl (returns_ok a)
  | error e => exact iff_of_false Bool.false_ne_true (not_returns_error e)

end OpenWrtCompile.Subscribe
