import OpenWrtCompile.Base.Returns
import OpenWrtCompile.Subscribe.Link

/-!
# Well-formed links

For each grammar of `processData` the condition on the text under which nothing is raised, and the
three fields of the node on which its import turns.
-/

namespace OpenWrtCompile.Subscribe
open OpenWrtCompile.Base

/-- The alias, the server and the port of a node. -/
structure Names where
  nodeAlias : Value
  server : Value
  port : Value

/-- The three fields, and the one that the script puts aside while it hashes a node. -/
structure Core where
  names : Names
  switchEnable : Value

/-- The four fields of a table. -/
def Table.core (t : Table) : Core :=
  ⟨⟨t.get "alias", t.get "server", t.get "server_port"⟩, t.get "switch_enable"⟩

/-- The three fields of a table. -/
def Table.names (t : Table) : Names := t.core.names

/-- Every item of a query has something in it. -/
def HasKeys (query : Option Bytes) : Prop := ∀ v ∈ split query (ascii "&"), v ≠ []

/-- Behind the `@` stands something, and its query has no empty item. -/
def InfoSafe (info : Option Bytes) : Prop :=
  info.getD [] ≠ [] ∧ HasKeys (split (some (gsubSlash (info.getD []))) (ascii "?"))[1]?

/-- What a separator leaves nothing of is empty but for zero bytes. -/
theorem split_eq_nil_iff {sep : Bytes} (hs : sep ≠ []) (x : Bytes) :
    split (some x) sep = [] ↔ stripNul x = [] := Search.split_eq_nil_iff hs (stripNul x)

/-- The pieces of a split have no zero byte. -/
theorem zero_not_mem_of_mem_split {full : Option Bytes} {sep v : Bytes} (hs : sep ≠ [])
    (h : v ∈ split full sep) : 0 ∉ v := by
  cases full with
  | none => cases h
  | some full =>
    intro hz
    have hmem := Search.subset_of_mem_split hs h hz
    have := (List.mem_filter.mp hmem).2
    simp at this

/-- Without zero bytes nothing is stripped. -/
theorem stripNul_eq_self {x : Bytes} (h : 0 ∉ x) : stripNul x = x := by
  unfold stripNul
  rw [List.filter_eq_self]
  intro c hc
  simp only [decide_eq_true_eq]
  rintro rfl
  exact h hc

/-- One item of a query has a key if and only if it is not empty. -/
theorem returns_readParam {key value : Bytes → Bytes} {params : Table} {v : Bytes} (hz : 0 ∉ v) :
    Returns (readParam key value params v) ↔ v ≠ [] := by
  have hnil : split (some v) (ascii "=") = [] ↔ v = [] := by
    rw [split_eq_nil_iff (by decide), stripNul_eq_self hz]
  unfold readParam
  split
  · next h => simpa using hnil.mp h
  · next h =>
    refine iff_of_true (returns_ok _) (fun hv ↦ ?_)
    rw [hnil.mpr hv] at h
    cases h

/-- A query is read if and only if each item has a key. -/
theorem returns_readParams (key value : Bytes → Bytes) (query : Option Bytes) :
    Returns (readParams key value query) ↔ HasKeys query := by
  have hzero : ∀ v ∈ split query (ascii "&"), 0 ∉ v :=
    fun v hv ↦ zero_not_mem_of_mem_split (by decide) hv
  unfold readParams HasKeys
  exact returns_foldlM (P := fun v ↦ v ≠ []) (split query (ascii "&"))
    (fun params v hv ↦ returns_readParam (hzero v hv)) []

/-- `gsubSlash` brings in no zero byte. -/
theorem zero_not_mem_gsubSlash {x : Bytes} (h : 0 ∉ x) : 0 ∉ gsubSlash x := by
  fun_induction gsubSlash x with
  | case1 => exact h
  | case2 c => exact h
  | case3 c x r hc ih =>
    simp only [List.mem_cons, not_or] at h ⊢
    exact ⟨by decide, ih h.2.2⟩
  | case4 c x r hc ih =>
    rw [List.mem_cons, not_or] at h ⊢
    exact ⟨h.1, ih h.2⟩

/-- `gsubSlash` leaves something of what is not empty. -/
theorem gsubSlash_eq_nil {x : Bytes} : gsubSlash x = [] ↔ x = [] := by
  fun_cases gsubSlash x <;> simp

/-- Host and query are found if and only if something stands there. -/
theorem returns_hostQuery {info : Option Bytes} (hz : 0 ∉ info.getD []) :
    Returns (hostQuery info) ↔ info.getD [] ≠ [] := by
  have hnil : split (some (gsubSlash (info.getD []))) (ascii "?") = [] ↔ info.getD [] = [] := by
    rw [split_eq_nil_iff (by decide), stripNul_eq_self (zero_not_mem_gsubSlash hz), gsubSlash_eq_nil]
  unfold hostQuery
  split
  · next h => simpa using hnil.mp h
  · next h =>
    refine iff_of_true (returns_ok _) (fun hv ↦ ?_)
    rw [hnil.mpr hv] at h
    cases h

/-- The pieces that `hostQuery` returns. -/
theorem hostQuery_eq_ok {info : Option Bytes} {hostPort : Bytes} {query : Option Bytes}
    (h : hostQuery info = .ok (hostPort, query)) :
    hostPort = (split (some (gsubSlash (info.getD []))) (ascii "?")).headD [] ∧
      query = (split (some (gsubSlash (info.getD []))) (ascii "?"))[1]? := by
  unfold hostQuery at h
  split at h
  · cases h
  · next hs =>
    rw [hs]
    cases h
    exact ⟨rfl, List.head?_eq_getElem?⟩

/-- The four fields after an assignment to another one. -/
theorem core_set (t : Table) (k : String) (v : Value) (ha : ascii k ≠ ascii "alias")
    (hs : ascii k ≠ ascii "server") (hp : ascii k ≠ ascii "server_port")
    (he : ascii k ≠ ascii "switch_enable") : (t.set k v).core = t.core := by
  unfold Table.core
  rw [Table.get_set_ne t _ _ _ ha, Table.get_set_ne t _ _ _ hs, Table.get_set_ne t _ _ _ hp,
    Table.get_set_ne t _ _ _ he]

/-- The four fields after an assignment to the alias. -/
theorem core_set_alias (t : Table) (v : Value) :
    (t.set "alias" v).core = { t.core with names := { t.core.names with nodeAlias := v } } := by
  unfold Table.core
  rw [Table.get_set_self, Table.get_set_ne t _ _ _ (by decide), Table.get_set_ne t _ _ _ (by decide),
    Table.get_set_ne t _ _ _ (by decide)]

/-- The four fields after an assignment to the server. -/
theorem core_set_server (t : Table) (v : Value) :
    (t.set "server" v).core = { t.core with names := { t.core.names with server := v } } := by
  unfold Table.core
  rw [Table.get_set_self, Table.get_set_ne t _ _ _ (by decide), Table.get_set_ne t _ _ _ (by decide),
    Table.get_set_ne t _ _ _ (by decide)]

/-- The four fields after an assignment to the port. -/
theorem core_set_port (t : Table) (v : Value) :
    (t.set "server_port" v).core = { t.core with names := { t.core.names with port := v } } := by
  unfold Table.core
  rw [Table.get_set_self, Table.get_set_ne t _ _ _ (by decide), Table.get_set_ne t _ _ _ (by decide),
    Table.get_set_ne t _ _ _ (by decide)]

/-- The four fields after an assignment to the fourth. -/
theorem core_set_switch (t : Table) (v : Value) :
    (t.set "switch_enable" v).core = ⟨t.names, v⟩ := by
  unfold Table.names Table.core
  rw [Table.get_set_self, Table.get_set_ne t _ _ _ (by decide), Table.get_set_ne t _ _ _ (by decide),
    Table.get_set_ne t _ _ _ (by decide)]

/-- The transport leaves the four fields. -/
theorem core_setTransport (params t : Table) : (setTransport params t).1.core = t.core := by
  unfold setTransport setKcp
  simp only
  split_ifs <;> simp (disch := decide) only [core_set]

/-- The encryption leaves the four fields. -/
theorem core_setEncryption (A : Bytes) (params t : Table) :
    (setEncryption A params t).core = t.core := by
  unfold setEncryption
  simp only
  split_ifs <;> simp (disch := decide) only [core_set]

/-- The network of a `vmess` node leaves the four fields. -/
theorem core_setNet (info t : Table) : (setNet info t).core = t.core := by
  unfold setNet setKcp
  simp only
  split_ifs <;> simp (disch := decide) only [core_set]

/-- The security of a `vmess` node leaves the four fields. -/
theorem core_setTls (info t : Table) : (setTls info t).core = t.core := by
  unfold setTls
  simp only
  split_ifs <;> simp (disch := decide) only [core_set]

/-- The security settings leave the four fields. -/
theorem core_setSecurity (params t : Table) : (setSecurity params t).core = t.core := by
  unfold setSecurity
  simp only
  split_ifs <;> simp (disch := decide) only [core_set]

/-- The server name of a `trojan` node leaves the four fields. -/
theorem core_setSni (params t : Table) : (setSni params t).core = t.core := by
  unfold setSni
  simp only
  split_ifs <;> simp (disch := decide) only [core_set]

/-- The plugin leaves the four fields. -/
theorem core_setPlugin (params t : Table) : (setPlugin params t).core = t.core := by
  unfold setPlugin
  simp only
  split_ifs <;> split <;> (try split) <;> simp (disch := decide) only [core_set]

/-- What stands behind the first `@` of a link without its alias. -/
def urlInfo (content : Bytes) : Option Bytes :=
  (split (some (splitAlias content).1) (ascii "@"))[1]?

/-- The three fields of a link `…@host:port?query#alias`. -/
def urlNames (content : Bytes) : Names :=
  let hostPort := (split (some (gsubSlash ((urlInfo content).getD []))) (ascii "?")).headD []
  ⟨.str (urlDecode (splitAlias content).2), (authority (ascii "443") hostPort).1,
    (authority (ascii "443") hostPort).2⟩

/-- What stands behind the `@` has no zero byte. -/
theorem zero_not_mem_urlInfo (content : Bytes) : 0 ∉ (urlInfo content).getD [] := by
  cases h : urlInfo content with
  | none => simp
  | some x => exact zero_not_mem_of_mem_split (by decide) (List.mem_of_getElem? h)

/-- Host and query of a link, and its parameters, are read if and only if it is safe. -/
theorem hostQuery_readParams (key value : Bytes → Bytes) (content : Bytes) :
    InfoSafe (urlInfo content) ↔
      ∃ hostPort query, hostQuery (urlInfo content) = .ok (hostPort, query) ∧
        Returns (readParams key value query) := by
  unfold InfoSafe
  rw [← returns_hostQuery (zero_not_mem_urlInfo content)]
  constructor
  · rintro ⟨⟨⟨hostPort, query⟩, hok⟩, hkeys⟩
    refine ⟨hostPort, query, hok, (returns_readParams key value query).mpr ?_⟩
    rw [(hostQuery_eq_ok hok).2]
    exact hkeys
  · rintro ⟨hostPort, query, hok, hread⟩
    refine ⟨⟨_, hok⟩, ?_⟩
    rw [← (hostQuery_eq_ok hok).2]
    exact (returns_readParams key value query).mp hread

/-- `parseNodeUrl` returns if and only if the link is safe. -/
theorem returns_parseNodeUrl (A B : Bytes) (result : Table) :
    Returns (parseNodeUrl A B result) ↔ InfoSafe (urlInfo B) := by
  rw [hostQuery_readParams id urlDecode B]
  unfold parseNodeUrl
  simp only [returns_bind, returns_pure, and_true]
  constructor
  · rintro ⟨⟨hostPort, query⟩, hok, params, hparams⟩
    exact ⟨hostPort, query, hok, params, hparams⟩
  · rintro ⟨hostPort, query, hok, params, hparams⟩
    exact ⟨(hostPort, query), hok, params, hparams⟩

/-- The four fields that `parseNodeUrl` sets. -/
theorem core_parseNodeUrl {A B : Bytes} {result t : Table} (h : parseNodeUrl A B result = .ok t) :
    t.core = ⟨urlNames B, result.core.switchEnable⟩ := by
  unfold parseNodeUrl at h
  simp only [bind_eq_ok] at h
  rcases h with ⟨⟨hostPort, query⟩, hok, params, -, ht⟩
  cases ht
  have hp := (hostQuery_eq_ok hok).1
  unfold urlNames
  simp (disch := decide) only [core_set_port, core_setSecurity, core_setEncryption, core_set,
    core_setTransport, core_set_server, core_set_alias]
  rw [hp]
  rfl

/-- No field is set. -/
def Names.none : Names := ⟨.nil, .nil, .nil⟩

/-- A `trojan` link is safe without an `@`, or where its host and its query are. -/
def TrojanSafe (content : Bytes) : Prop :=
  0x40 ∈ (splitAlias content).1 → InfoSafe (urlInfo content)

/-- The three fields of a `trojan` link. -/
def trojanNames (content : Bytes) : Names :=
  if 0x40 ∈ (splitAlias content).1 then urlNames content else .none

/-- The branch `trojan` returns if and only if the link is safe. -/
theorem returns_trojanNode (content : Bytes) (result : Table) :
    Returns (trojanNode content result) ↔ TrojanSafe content := by
  unfold trojanNode TrojanSafe
  simp only
  by_cases hat : 0x40 ∈ (splitAlias content).1
  · rw [if_neg (not_not.mpr hat), hostQuery_readParams lower urlDecode content]
    simp only [returns_bind, returns_pure, and_true, hat, true_implies]
    constructor
    · rintro ⟨⟨hostPort, query⟩, hok, params, hparams⟩
      exact ⟨hostPort, query, hok, params, hparams⟩
    · rintro ⟨hostPort, query, hok, params, hparams⟩
      exact ⟨(hostPort, query), hok, params, hparams⟩
  · rw [if_pos hat]
    exact iff_of_true (returns_pure _) (fun h ↦ absurd h hat)

/-- The four fields that the branch `trojan` sets. -/
theorem core_trojanNode {content : Bytes} {result t : Table} (hr : result.names = .none)
    (h : trojanNode content result = .ok t) :
    t.core = ⟨trojanNames content, result.core.switchEnable⟩ := by
  unfold trojanNode at h
  unfold trojanNames
  simp only at h
  by_cases hat : 0x40 ∈ (splitAlias content).1
  · rw [if_neg (not_not.mpr hat)] at h
    simp only [bind_eq_ok] at h
    rcases h with ⟨⟨hostPort, query⟩, hok, params, -, ht⟩
    cases ht
    have hp := (hostQuery_eq_ok hok).1
    rw [if_pos hat]
    unfold urlNames
    simp (disch := decide) only [core_set_port, core_setSni, core_set, core_set_server,
      core_set_alias]
    rw [hp]
    rfl
  · rw [if_pos hat] at h
    cases h
    rw [if_neg hat, ← hr]
    rfl

/-- The parameters of a query, an item without a key left out. -/
def paramsOf (key value : Bytes → Bytes) (query : Option Bytes) : Table :=
  (split query (ascii "&")).foldl (fun params v ↦
    match split (some v) (ascii "=") with
    | [] => params
    | k :: r => params.put (key k) (.ofOption (r.head?.map value))) []

/-- What `readParams` returns. -/
theorem readParams_eq_ok {key value : Bytes → Bytes} {query : Option Bytes} {params : Table}
    (h : readParams key value query = .ok params) : params = paramsOf key value query := by
  unfold readParams at h
  unfold paramsOf
  generalize split query (ascii "&") = items at *
  generalize ([] : Table) = start at *
  induction items generalizing start with
  | nil => exact (Except.ok.inj h).symm
  | cons v items ih =>
    rw [List.foldlM_cons, bind_eq_ok] at h
    rcases h with ⟨next, hnext, h⟩
    rw [List.foldl_cons, ih next h]
    unfold readParam at hnext
    cases hs : split (some v) (ascii "=") with
    | nil =>
      rw [hs] at hnext
      cases hnext
    | cons k r =>
      rw [hs] at hnext
      cases hnext
      rfl

/-- An `ssr` link is safe where it is not empty and its query has no empty item. -/
def SsrSafe (content : Bytes) : Prop :=
  stripNul content ≠ [] ∧ HasKeys (split (some content) (ascii "/?"))[1]?

/-- The three fields of an `ssr` link. -/
def ssrNames (env : Env) (content : Bytes) : Names :=
  let dat := split (some content) (ascii "/?")
  let hostInfo := split dat[0]? (ascii ":")
  ⟨.str (ssrAlias env (paramsOf id id dat[1]?)),
    .ofOption ((bracketed (dat.headD [])).or hostInfo[0]?), fromEnd hostInfo 4⟩

/-- The branch `ssr` returns if and only if the link is safe. -/
theorem returns_ssrNode (env : Env) (content : Bytes) (result : Table) :
    Returns (ssrNode env content result) ↔ SsrSafe content := by
  have hnil := @split_eq_nil_iff (ascii "/?") (by decide) content
  unfold ssrNode SsrSafe
  rw [← returns_readParams id id, ne_eq, ← hnil]
  simp only
  cases hdat : split (some content) (ascii "/?") with
  | nil => simp
  | cons head dat =>
    simp only [List.getElem?_cons_zero, returns_bind, returns_pure, and_true, reduceCtorEq,
      not_false_eq_true, true_and]
    rfl

/-- The four fields that the branch `ssr` sets. -/
theorem core_ssrNode {env : Env} {content : Bytes} {result t : Table}
    (h : ssrNode env content result = .ok t) :
    t.core = ⟨ssrNames env content, result.core.switchEnable⟩ := by
  unfold ssrNode at h
  unfold ssrNames
  simp only at h ⊢
  cases hdat : split (some content) (ascii "/?") with
  | nil =>
    rw [hdat] at h
    cases h
  | cons head dat =>
    rw [hdat] at h
    simp only [List.getElem?_cons_zero, bind_eq_ok] at h
    rcases h with ⟨params, hparams, ht⟩
    cases ht
    rw [← readParams_eq_ok hparams]
    simp (disch := decide) only [core_set, core_set_server, core_set_alias, core_set_port]
    rfl

/-- An `ss` link without its alias and its plugin. -/
def ssInfo (content : Bytes) : Bytes :=
  let info := (splitAlias content).1
  match Search.find? (ascii "/?") info with
  | some i => info.take i
  | none => info

/-- The decoded pieces of an `ss` link around `@`. -/
def ssHostInfo (env : Env) (content : Bytes) : List Bytes :=
  split (some (base64Decode env (some (ssInfo content)))) (ascii "@")

/-- An `ss` link is safe where its query has no empty item, and its user information, if the link
says anything, has a `:`. -/
def SsSafe (env : Env) (content : Bytes) : Prop :=
  (Search.find? (ascii "/?") (splitAlias content).1 ≠ none →
      HasKeys (split (some (splitAlias content).1) (ascii "/?"))[1]?) ∧
    (ssHostInfo env content ≠ [] → 0x3A ∈ ssUserinfo env (ssHostInfo env content))

/-- The three fields of an `ss` link. -/
def ssNames (env : Env) (content : Bytes) : Names :=
  match (ssHostInfo env content).getLast? with
  | some hostPort =>
    ⟨.str (urlDecode (splitAlias content).2), (authority (ascii "1080") hostPort).1,
      (authority (ascii "1080") hostPort).2⟩
  | none => .none

/-- The first `:` is found where there is one. -/
theorem cut_isSome {c : UInt8} {text : Bytes} : (cut c text).isSome ↔ c ∈ text := by
  unfold cut
  rw [Option.isSome_map, List.isSome_idxOf?]

/-- The end of the branch `ss`: server, port, method, password and alias. -/
theorem returns_ssHost (env : Env) (info remark : Bytes) (result : Table) :
    Returns (ssHost env info remark result) ↔
      (split (some (base64Decode env (some info))) (ascii "@") ≠ [] →
        0x3A ∈ ssUserinfo env (split (some (base64Decode env (some info))) (ascii "@"))) := by
  unfold ssHost
  simp only
  cases hlast : (split (some (base64Decode env (some info))) (ascii "@")).getLast? with
  | none =>
    rw [List.getLast?_eq_none_iff] at hlast
    exact iff_of_true (returns_pure _) (fun h ↦ absurd hlast h)
  | some hostPort =>
    have hne : split (some (base64Decode env (some info))) (ascii "@") ≠ [] := by
      intro hnil
      rw [hnil] at hlast
      cases hlast
    simp only
    rw [← cut_isSome]
    cases cut 0x3A (ssUserinfo env (split (some (base64Decode env (some info))) (ascii "@"))) with
    | none => exact iff_of_false (not_returns_error _) (fun h ↦ absurd (h hne) Bool.false_ne_true)
    | some p => exact iff_of_true (returns_pure _) (fun _ ↦ rfl)

/-- The branch `ss` returns if and only if the link is safe. -/
theorem returns_ssNode (env : Env) (content : Bytes) (result : Table) :
    Returns (ssNode env content result) ↔ SsSafe env content := by
  unfold ssNode SsSafe ssHostInfo ssInfo ssQuery
  simp only
  rw [returns_bind]
  cases hfind : Search.find? (ascii "/?") (splitAlias content).1 with
  | none =>
    simp only [ne_eq, not_true_eq_false, false_implies, true_and]
    constructor
    · rintro ⟨p, hp, hend⟩
      cases hp
      exact (returns_ssHost env _ _ _).mp hend
    · intro h
      exact ⟨_, rfl, (returns_ssHost env _ _ result).mpr h⟩
  | some i =>
    simp only [ne_eq, reduceCtorEq, not_false_eq_true, true_implies]
    rw [← returns_readParams id id]
    constructor
    · rintro ⟨p, hp, hend⟩
      rcases bind_eq_ok.mp hp with ⟨params, hparams, hp⟩
      cases hp
      exact ⟨⟨params, hparams⟩, (returns_ssHost env _ _ _).mp hend⟩
    · rintro ⟨⟨params, hparams⟩, h⟩
      exact ⟨_, bind_eq_ok.mpr ⟨params, hparams, rfl⟩, (returns_ssHost env _ _ _).mpr h⟩

/-- The four fields that the end of the branch `ss` sets. -/
theorem core_ssHost {env : Env} {info remark : Bytes} {result t : Table}
    (hr : result.names = .none) (h : ssHost env info remark result = .ok t) :
    t.core =
      ⟨match (split (some (base64Decode env (some info))) (ascii "@")).getLast? with
        | some hostPort => ⟨.str (urlDecode remark), (authority (ascii "1080") hostPort).1,
            (authority (ascii "1080") hostPort).2⟩
        | none => .none, result.core.switchEnable⟩ := by
  unfold ssHost at h
  simp only at h
  cases hlast : (split (some (base64Decode env (some info))) (ascii "@")).getLast? with
  | none =>
    rw [hlast] at h
    cases h
    simp only
    rw [← hr]
    rfl
  | some hostPort =>
    rw [hlast] at h
    simp only at h
    split at h
    · cases h
    · cases h
      simp (disch := decide) only [core_set, core_set_server, core_set_alias, core_set_port]

/-- The four fields that the branch `ss` sets. -/
theorem core_ssNode {env : Env} {content : Bytes} {result t : Table} (hr : result.names = .none)
    (h : ssNode env content result = .ok t) :
    t.core = ⟨ssNames env content, result.core.switchEnable⟩ := by
  unfold ssNode ssQuery at h
  unfold ssNames ssHostInfo ssInfo
  simp only at h ⊢
  rcases bind_eq_ok.mp h with ⟨p, hp, hend⟩
  cases hfind : Search.find? (ascii "/?") (splitAlias content).1 with
  | none =>
    rw [hfind] at hp
    cases hp
    exact core_ssHost hr hend
  | some i =>
    rw [hfind] at hp
    rcases bind_eq_ok.mp hp with ⟨params, -, hp⟩
    cases hp
    have hkeep := core_setPlugin params result
    rw [← hkeep]
    exact core_ssHost ((congrArg Core.names hkeep).trans hr) hend

end OpenWrtCompile.Subscribe
