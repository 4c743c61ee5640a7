import OpenWrtCompile.Subscribe.Wellformed
import OpenWrtCompile.Subscribe.Import

/-!
# Safe entries, contents and runs

When one entry, one content and a whole run raise nothing: the grammars of the links, the filter and
the log of `parse_link`, and the manual sections that `execute` names.
-/

namespace OpenWrtCompile.Subscribe
open OpenWrtCompile.Base

/-- A string or a number. -/
def Value.isText : Value → Bool
  | num _ => true
  | str _ => true
  | _ => false

/-- What a string or a number is concatenated as. -/
def Value.shown : Value → Bytes
  | num t => t
  | str s => s
  | _ => []

/-- Only strings and numbers are concatenated. -/
theorem returns_text (v : Value) : Returns v.text ↔ v.isText = true := by
  cases v <;> simp [Value.text, Value.isText]

/-- The three fields of an `ssd` server. -/
def ssdNames (content : Table) : Names :=
  ⟨.str (ascii "[" ++ (content.get "airport").shown ++ ascii "] " ++ (content.get "remarks").shown),
    content.get "server", content.get "port"⟩

/-- An `ssd` server is safe where its airport and its remarks are text. -/
def SsdSafe (content : Table) : Prop :=
  (content.get "airport").isText = true ∧ (content.get "remarks").isText = true

/-- The branch `ssd` returns if and only if the server is safe. -/
theorem returns_ssdNode (content result : Table) :
    Returns (ssdNode content result) ↔ SsdSafe content := by
  unfold ssdNode SsdSafe
  simp only [returns_bind, returns_pure, and_true]
  rw [← returns_text, ← returns_text]
  constructor
  · rintro ⟨airport, ha, remarks, hr⟩
    exact ⟨⟨airport, ha⟩, ⟨remarks, hr⟩⟩
  · rintro ⟨⟨airport, ha⟩, ⟨remarks, hr⟩⟩
    exact ⟨airport, ha, remarks, hr⟩

/-- What is concatenated is what is shown. -/
theorem text_eq_ok {v : Value} {s : Bytes} (h : v.text = .ok s) : v.isText = true ∧ v.shown = s := by
  cases v <;> cases h <;> exact ⟨rfl, rfl⟩

/-- The four fields that the branch `ssd` sets. -/
theorem core_ssdNode {content result t : Table} (h : ssdNode content result = .ok t) :
    t.core = ⟨ssdNames content, result.core.switchEnable⟩ := by
  unfold ssdNode at h
  simp only [bind_eq_ok] at h
  rcases h with ⟨airport, ha, remarks, hr, ht⟩
  cases ht
  unfold ssdNames
  rw [(text_eq_ok ha).2, (text_eq_ok hr).2]
  simp (disch := decide) only [core_set, core_set_server, core_set_alias, core_set_port]

/-- A value that can be indexed. -/
def Value.indexable : Value → Bool
  | table _ _ => true
  | str _ => true
  | _ => false

/-- A `vmess` link is safe where its JSON can be indexed, or where it is no JSON and its host and
query are safe if an `@` stands behind an id. -/
def VmessSafe (env : Env) (content : Bytes) : Prop :=
  if (env.jsonParse content).truthy then (env.jsonParse content).indexable = true
  else content.idxOf? 0x40 = some 36 → InfoSafe (urlInfo content)

/-- The three fields of a `vmess` link; `none` where it is skipped. -/
def vmessNames (env : Env) (content : Bytes) : Option Names :=
  if (env.jsonParse content).truthy then
    match env.jsonParse content with
    | .table _ fields =>
      some ⟨Table.get fields "ps", Table.get fields "add", Table.get fields "port"⟩
    | _ => some .none
  else if content.idxOf? 0x40 = some 36 then some (urlNames content)
  else none

/-- The four fields that the branch `vmess` sets from JSON. -/
theorem core_vmessNode (fields result : Table) :
    (vmessNode fields result).core =
      ⟨⟨fields.get "ps", fields.get "add", fields.get "port"⟩, result.core.switchEnable⟩ := by
  unfold vmessNode
  simp (disch := decide) only [core_setTls, core_setNet, core_set, core_set_server,
    core_set_alias, core_set_port]

/-- The branch `vmess` returns if and only if the link is safe. -/
theorem returns_vmessText (env : Env) (content : Bytes) (result : Table) :
    Returns (vmessText env content result) ↔ VmessSafe env content := by
  unfold vmessText VmessSafe
  simp only
  split
  · rw [returns_bind]
    cases env.jsonParse content <;> simp [Value.fields, Value.indexable]
  · split
    · next hat =>
      rw [returns_map, returns_parseNodeUrl]
      exact ⟨fun h _ ↦ h, fun h ↦ h hat⟩
    · next hat => exact iff_of_true (returns_ok _) (fun h ↦ absurd h hat)

/-- The four fields that the branch `vmess` sets. -/
theorem core_vmessText {env : Env} {content : Bytes} {result : Table} {o : Option Table}
    (h : vmessText env content result = .ok o) :
    o.map Table.core = (vmessNames env content).map (⟨·, result.core.switchEnable⟩) := by
  unfold vmessText at h
  unfold vmessNames
  simp only at h
  split at h
  · next ht =>
    rw [if_pos ht]
    rcases bind_eq_ok.mp h with ⟨fields, hfields, ho⟩
    cases ho
    rw [Option.map_some, core_vmessNode]
    cases hinfo : env.jsonParse content with
    | table items fields' =>
      rw [hinfo] at hfields
      cases hfields
      rfl
    | str s =>
      rw [hinfo] at hfields
      cases hfields
      rfl
    | _ =>
      rw [hinfo] at hfields
      cases hfields
  · next ht =>
    rw [if_neg ht]
    split at h
    · next hat =>
      rcases map_eq_ok.mp h with ⟨t, htext, rfl⟩
      rw [if_pos hat, Option.map_some, core_parseNodeUrl htext, Option.map_some]
    · next hat =>
      cases h
      rw [if_neg hat]
      rfl

/-- A `vless` link is safe without an `@`, or where its host and its query are. -/
def VlessSafe (content : Bytes) : Prop := 0x40 ∈ content → InfoSafe (urlInfo content)

/-- The three fields of a `vless` link; `none` where it is skipped. -/
def vlessNames (content : Bytes) : Option Names :=
  if 0x40 ∈ content then some (urlNames content) else none

/-- The branch `vless` returns if and only if the link is safe. -/
theorem returns_vlessText (content : Bytes) (result : Table) :
    Returns (vlessText content result) ↔ VlessSafe content := by
  unfold vlessText VlessSafe
  split
  · next hat =>
    rw [returns_map, returns_parseNodeUrl]
    exact ⟨fun h _ ↦ h, fun h ↦ h hat⟩
  · next hat => exact iff_of_true (returns_ok _) (fun h ↦ absurd h hat)

/-- The four fields that the branch `vless` sets. -/
theorem core_vlessText {content : Bytes} {result : Table} {o : Option Table}
    (h : vlessText content result = .ok o) :
    o.map Table.core = (vlessNames content).map (⟨·, result.core.switchEnable⟩) := by
  unfold vlessText at h
  unfold vlessNames
  split at h
  · next hat =>
    rcases map_eq_ok.mp h with ⟨t, htext, rfl⟩
    rw [if_pos hat, Option.map_some, core_parseNodeUrl htext, Option.map_some]
  · next hat =>
    cases h
    rw [if_neg hat]
    rfl

/-- The text of a link of type `szType` raises nothing in its own branch. -/
def TextSafe (env : Env) (szType content : Bytes) : Prop :=
  if szType = ascii "ssr" then SsrSafe content
  else if szType = ascii "ss" then SsSafe env content
  else if szType = ascii "ssd" then False
  else if szType = ascii "trojan" then TrojanSafe content
  else if szType = ascii "vmess" then VmessSafe env content
  else if szType = ascii "vless" then VlessSafe content
  else True

/-- The three fields of a link of type `szType`; `none` where `processData` returns `nil`. -/
def textNames (env : Env) (szType content : Bytes) : Option Names :=
  if szType = ascii "ssr" then some (ssrNames env content)
  else if szType = ascii "ss" then some (ssNames env content)
  else if szType = ascii "ssd" then some (ssdNames [])
  else if szType = ascii "trojan" then some (trojanNames content)
  else if szType = ascii "vmess" then vmessNames env content
  else if szType = ascii "vless" then vlessNames content
  else none

/-- A text link never passes for an `ssd` server. -/
theorem not_ssdSafe_nil : ¬ SsdSafe [] := fun h ↦ Bool.false_ne_true h.1

/-- The branches return if and only if the text is safe. -/
theorem returns_parseText (env : Env) (szType content : Bytes) (result : Table) :
    Returns (parseText env szType content result) ↔ TextSafe env szType content := by
  unfold parseText TextSafe
  split_ifs
  · rw [returns_map, returns_ssrNode]
  · rw [returns_map, returns_ssNode]
  · rw [returns_map, returns_ssdNode]
    exact iff_of_false not_ssdSafe_nil id
  · rw [returns_map, returns_trojanNode]
  · exact returns_vmessText env content result
  · exact returns_vlessText content result
  · exact iff_of_true (returns_ok _) trivial

/-- The four fields that the branches set. -/
theorem core_parseText {env : Env} {szType content : Bytes} {result : Table} {o : Option Table}
    (hr : result.names = .none) (h : parseText env szType content result = .ok o) :
    o.map Table.core = (textNames env szType content).map (⟨·, result.core.switchEnable⟩) := by
  unfold parseText at h
  unfold textNames
  split_ifs at h ⊢
  · rcases map_eq_ok.mp h with ⟨t, ht, rfl⟩
    rw [Option.map_some, core_ssrNode ht, Option.map_some]
  · rcases map_eq_ok.mp h with ⟨t, ht, rfl⟩
    rw [Option.map_some, core_ssNode hr ht, Option.map_some]
  · rcases map_eq_ok.mp h with ⟨t, ht, rfl⟩
    rw [Option.map_some, core_ssdNode ht, Option.map_some]
  · rcases map_eq_ok.mp h with ⟨t, ht, rfl⟩
    rw [Option.map_some, core_trojanNode hr ht, Option.map_some]
  · exact core_vmessText h
  · exact core_vlessText h
  · cases h
    rfl

/-- The alias that a node without one gets. -/
def Names.withAlias (n : Names) : Names :=
  if n.nodeAlias.truthy then n
  else if n.server.truthy && n.port.truthy then
    { n with nodeAlias := .str (n.server.shown ++ ascii ":" ++ n.port.shown) }
  else { n with nodeAlias := .str (ascii "NULL") }

/-- Server and port, where they become the alias, are text. -/
def AliasSafe (n : Names) : Prop :=
  n.nodeAlias.truthy = false → n.server.truthy = true → n.port.truthy = true →
    n.server.isText = true ∧ n.port.isText = true

/-- The alias is set if and only if it is safe. -/
theorem returns_setAlias (t : Table) : Returns (setAlias t) ↔ AliasSafe t.names := by
  unfold setAlias AliasSafe Table.names Table.core
  simp only
  by_cases ha : (t.get "alias").truthy = true
  · rw [if_pos ha]
    exact iff_of_true (returns_ok _) (fun h ↦ absurd ha (by rw [h]; exact Bool.false_ne_true))
  · rw [if_neg ha]
    rw [Bool.not_eq_true] at ha
    by_cases hsp : ((t.get "server").truthy && (t.get "server_port").truthy) = true
    · rw [if_pos hsp]
      rw [Bool.and_eq_true] at hsp
      simp only [returns_bind, returns_pure, and_true, ha, hsp.1, hsp.2, true_implies]
      rw [← returns_text, ← returns_text]
      constructor
      · rintro ⟨server, hs, port, hp⟩
        exact ⟨⟨server, hs⟩, ⟨port, hp⟩⟩
      · rintro ⟨⟨server, hs⟩, ⟨port, hp⟩⟩
        exact ⟨server, hs, port, hp⟩
    · rw [if_neg hsp]
      refine iff_of_true (returns_ok _) (fun _ hs hp ↦ absurd ?_ hsp)
      rw [Bool.and_eq_true]
      exact ⟨hs, hp⟩

/-- The four fields once the alias is set. -/
theorem core_setAlias {t u : Table} (h : setAlias t = .ok u) :
    u.core = ⟨t.names.withAlias, t.core.switchEnable⟩ := by
  unfold setAlias at h
  unfold Names.withAlias
  split at h
  · next ha =>
    cases h
    have hnames : t.names.nodeAlias.truthy = true := ha
    rw [if_pos hnames]
    rfl
  · next ha =>
    have hnames : ¬ t.names.nodeAlias.truthy = true := ha
    rw [if_neg hnames]
    split at h
    · next hsp =>
      have hboth : (t.names.server.truthy && t.names.port.truthy) = true := hsp
      simp only [bind_eq_ok] at h
      obtain ⟨server, hs, port, hp, hu⟩ := h
      cases hu
      rw [if_pos hboth, core_set_alias, ← (text_eq_ok hs).2, ← (text_eq_ok hp).2]
      rfl
    · next hsp =>
      have hboth : ¬ (t.names.server.truthy && t.names.port.truthy) = true := hsp
      cases h
      rw [if_neg hboth, core_set_alias]
      rfl

/-- The end of `processData` returns if and only if the alias is safe. -/
theorem returns_finish (env : Env) (t : Table) : Returns (finish env t) ↔ AliasSafe t.names := by
  unfold finish
  simp only [returns_bind, returns_pure, and_true]
  exact returns_setAlias t

/-- The four fields at the end of `processData`. -/
theorem core_finish {env : Env} {t u : Table} (h : finish env t = .ok u) :
    u.core = ⟨t.names.withAlias, t.core.switchEnable⟩ := by
  unfold finish at h
  simp only [bind_eq_ok] at h
  obtain ⟨v, hv, hu⟩ := h
  cases hu
  rw [core_set_switch, ← core_setAlias hv]
  unfold Table.names
  rw [core_set _ _ _ (by decide) (by decide) (by decide) (by decide), core_set_switch]
  rfl

/-- The table that `processData` begins with has none of the four fields. -/
theorem core_start (v : Value) : Table.core [(ascii "type", v)] = ⟨.none, .nil⟩ := by
  have hget (k : String) (hk : ascii "type" ≠ ascii k) :
      Table.get [(ascii "type", v)] k = .nil := by
    unfold Table.get
    rw [Table.at_cons, if_neg hk, Table.at_nil]
  unfold Table.core
  rw [hget _ (by decide), hget _ (by decide), hget _ (by decide), hget _ (by decide)]
  rfl

/-- The fields of what the branches make of the table that `processData` begins with. -/
theorem core_parseText_start {env : Env} {szType content : Bytes} {o : Option Table}
    (h : parseText env szType content [(ascii "type", .str szType)] = .ok o) :
    o.map Table.core = (textNames env szType content).map (⟨·, .nil⟩) := by
  have hcore := core_start (.str szType)
  rw [core_parseText (congrArg Core.names hcore) h, hcore]

/-- `processData` returns if and only if the text is safe, and then the alias. -/
theorem returns_processData (env : Env) (szType content : Bytes) :
    Returns (processData env szType content) ↔
      TextSafe env szType content ∧ ∀ n, textNames env szType content = some n → AliasSafe n := by
  rw [← returns_parseText env szType content [(ascii "type", .str szType)]]
  unfold processData
  rw [returns_bind]
  constructor
  · rintro ⟨o, ho, hend⟩
    refine ⟨⟨o, ho⟩, ?_⟩
    intro n hn
    have hcore := core_parseText_start ho
    rw [hn] at hcore
    cases o with
    | none => cases hcore
    | some t =>
      have hnames : t.names = n := congrArg Core.names (Option.some.inj hcore)
      rw [← hnames]
      exact (returns_finish env t).mp (returns_map.mp hend)
  · rintro ⟨⟨o, ho⟩, hsafe⟩
    refine ⟨o, ho, ?_⟩
    have hcore := core_parseText_start ho
    cases o with
    | none => exact returns_pure _
    | some t =>
      cases hn : textNames env szType content with
      | none =>
        rw [hn] at hcore
        cases hcore
      | some n =>
        rw [hn] at hcore
        have hnames : t.names = n := congrArg Core.names (Option.some.inj hcore)
        apply returns_map.mpr
        apply (returns_finish env t).mpr
        rw [hnames]
        exact hsafe n hn

/-- The fields of the node that `processData` returns. -/
theorem core_processData {env : Env} {szType content : Bytes} {o : Option Table}
    (h : processData env szType content = .ok o) :
    o.map Table.core = (textNames env szType content).map fun n ↦ ⟨n.withAlias, .nil⟩ := by
  unfold processData at h
  obtain ⟨p, hp, hend⟩ := bind_eq_ok.mp h
  have hcore := core_parseText_start hp
  cases p with
  | none =>
    cases hend
    cases hn : textNames env szType content with
    | none => rfl
    | some n =>
      rw [hn] at hcore
      cases hcore
  | some t =>
    obtain ⟨u, hu, rfl⟩ := map_eq_ok.mp hend
    cases hn : textNames env szType content with
    | none =>
      rw [hn] at hcore
      cases hcore
    | some n =>
      rw [hn] at hcore
      have ht : t.core = ⟨n, .nil⟩ := Option.some.inj hcore
      have hnames : t.names = n := congrArg Core.names ht
      rw [Option.map_some, Option.map_some, core_finish hu, hnames, ht]

/-- The fields of what the branch `ssd` makes of the table that `processData` begins with. -/
theorem core_ssdNode_start {content t : Table}
    (h : ssdNode content [(ascii "type", .str (ascii "ssd"))] = .ok t) :
    t.core = ⟨ssdNames content, .nil⟩ := by
  rw [core_ssdNode h, core_start]

/-- `processData` for a server returns if and only if the server is safe, and then the alias. -/
theorem returns_processServer (env : Env) (content : Table) :
    Returns (processServer env content) ↔ SsdSafe content ∧ AliasSafe (ssdNames content) := by
  rw [← returns_ssdNode content [(ascii "type", .str (ascii "ssd"))]]
  unfold processServer
  rw [returns_bind]
  constructor
  · rintro ⟨t, ht, hend⟩
    have hnames : t.names = ssdNames content := congrArg Core.names (core_ssdNode_start ht)
    refine ⟨⟨t, ht⟩, ?_⟩
    rw [← hnames]
    exact (returns_finish env t).mp hend
  · rintro ⟨⟨t, ht⟩, hsafe⟩
    have hnames : t.names = ssdNames content := congrArg Core.names (core_ssdNode_start ht)
    refine ⟨t, ht, (returns_finish env t).mpr ?_⟩
    rw [hnames]
    exact hsafe

/-- The fields of the node that `processData` returns for a server. -/
theorem core_processServer {env : Env} {content t : Table} (h : processServer env content = .ok t) :
    t.core = ⟨(ssdNames content).withAlias, .nil⟩ := by
  unfold processServer at h
  obtain ⟨u, hu, hend⟩ := bind_eq_ok.mp h
  have hcore := core_ssdNode_start hu
  have hnames : u.names = ssdNames content := congrArg Core.names hcore
  rw [core_finish hend, hnames, hcore]

/-- A node with these fields passes the filter, the test of its server and the log without an error:
the filter words read its alias, the test its server, and the log the alias of a dropped node. -/
def AcceptSafe (env : Env) (opts : Options) (n : Names) : Prop :=
  if !n.server.truthy || !n.port.truthy || n.nodeAlias.eqStr (ascii "NULL") then
    n.nodeAlias.isText = true
  else
    match checkWords env opts.filterMode n.nodeAlias (split (some opts.filterWords) (ascii "/")) with
    | .error _ => False
    | .ok true => n.nodeAlias.isText = true
    | .ok false => ∃ s, n.server = .str s ∧ (env.host s = false → n.nodeAlias.isText = true)

/-- A dropped node is logged if and only if its alias is text. -/
theorem returns_dropped {env : Env} {opts : Options} {group : Bytes} {t : Table}
    (h : isInvalid env opts t = .ok true) :
    Returns (acceptNode env opts group t) ↔ (t.get "alias").isText = true := by
  unfold acceptNode
  rw [h, ← returns_text]
  constructor
  · intro hr
    rcases returns_bind.mp hr with ⟨b, hb, hr⟩
    cases hb
    rcases returns_bind.mp hr with ⟨s, hs, -⟩
    exact ⟨s, hs⟩
  · rintro ⟨s, hs⟩
    exact returns_bind.mpr ⟨true, rfl, returns_bind.mpr ⟨s, hs, returns_pure _⟩⟩

/-- The step of `parse_link` for a node returns if and only if its fields are safe there. -/
theorem returns_acceptNode (env : Env) (opts : Options) (group : Bytes) (t : Table) :
    Returns (acceptNode env opts group t) ↔ AcceptSafe env opts t.names := by
  have hraise {e : LuaError} (h : isInvalid env opts t = .error e) :
      ¬ Returns (acceptNode env opts group t) := by
    unfold acceptNode
    rw [h]
    exact not_returns_error e
  unfold AcceptSafe
  split
  · next hearly => exact returns_dropped (if_pos hearly)
  · next hlate =>
    have hinv : isInvalid env opts t = do
        if ← checkFiler env opts t then return true
        else return !env.host (← (t.get "server").self) := if_neg hlate
    have hfilter : checkFiler env opts t = checkWords env opts.filterMode t.names.nodeAlias
        (split (some opts.filterWords) (ascii "/")) := rfl
    rw [← hfilter]
    cases hf : checkFiler env opts t with
    | error e =>
      rw [hf] at hinv
      exact iff_of_false (hraise hinv) id
    | ok b =>
      rw [hf] at hinv
      cases b with
      | true => exact returns_dropped hinv
      | false =>
        have hserver : isInvalid env opts t = do
            return !env.host (← (t.get "server").self) := hinv
        cases hs : t.get "server" with
        | str s =>
          rw [hs] at hserver
          cases hhost : env.host s with
          | true =>
            have hok : isInvalid env opts t = .ok false := by
              rw [hserver]
              exact congrArg (fun b ↦ Except.ok !b) hhost
            refine iff_of_true ?_ ⟨s, hs, fun hc ↦ by rw [hhost] at hc; cases hc⟩
            unfold acceptNode
            rw [hok]
            exact returns_ok _
          | false =>
            have hok : isInvalid env opts t = .ok true := by
              rw [hserver]
              exact congrArg (fun b ↦ Except.ok !b) hhost
            rw [returns_dropped hok]
            constructor
            · intro htext
              exact ⟨s, hs, fun _ ↦ htext⟩
            · rintro ⟨s', hs', hsafe⟩
              cases hs.symm.trans hs'
              exact hsafe hhost
        | _ =>
          rw [hs] at hserver
          refine iff_of_false (hraise hserver) ?_
          rintro ⟨s', hs', -⟩
          cases hs.symm.trans hs'

/-- The three fields of a node raise nothing from the alias on. -/
def NamesSafe (env : Env) (opts : Options) (n : Names) : Prop :=
  AliasSafe n ∧ AcceptSafe env opts n.withAlias

/-- Type and text that `parse_link` takes from a line. -/
def lineText (env : Env) (v : Bytes) : Option (Bytes × Bytes) :=
  match split (some (trim v)) (ascii "://") with
  | szType :: rest :: _ =>
    if szType = ascii "ss" ∨ szType = ascii "trojan" then some (szType, rest)
    else some (szType, base64Decode env (some rest))
  | _ => none

/-- An entry raises nothing: a line by the grammar of its type, a server by its fields. -/
def LinkSafe (env : Env) (opts : Options) (extra : Option Table) : Link → Prop
  | .line v =>
    match lineText env v with
    | some (szType, content) => TextSafe env szType content ∧
        ∀ n, textNames env szType content = some n → NamesSafe env opts n
    | none => True
  | .server v => ∃ items fields, v = .table items fields ∧
      SsdSafe (fields ++ extra.getD []) ∧ NamesSafe env opts (ssdNames (fields ++ extra.getD []))

/-- A line is read as its type says. -/
theorem readLink_line (env : Env) (extra : Option Table) (v : Bytes) :
    readLink env extra (.line v) =
      match lineText env v with
      | some (szType, content) => processData env szType content
      | none => .ok none := by
  unfold readLink lineText
  simp only
  cases split (some (trim v)) (ascii "://") with
  | nil => rfl
  | cons szType rest =>
    cases rest with
    | nil => rfl
    | cons rest tail =>
      simp only
      split_ifs <;> rfl

/-- A node of an entry: what reading it returns, and its acceptance. -/
theorem returns_acceptLink_iff (env : Env) (opts : Options) (group : Bytes) (extra : Option Table)
    (link : Link) :
    Returns (acceptLink env opts group extra link) ↔
      ∃ o, readLink env extra link = .ok o ∧ ∀ t, o = some t → AcceptSafe env opts t.names := by
  unfold acceptLink
  rw [returns_bind]
  constructor
  · rintro ⟨o, ho, hend⟩
    refine ⟨o, ho, ?_⟩
    rintro t rfl
    exact (returns_acceptNode env opts group t).mp hend
  · rintro ⟨o, ho, hsafe⟩
    refine ⟨o, ho, ?_⟩
    cases o with
    | none => exact returns_pure _
    | some t => exact (returns_acceptNode env opts group t).mpr (hsafe t rfl)

/-- An entry returns if and only if it is safe. -/
theorem returns_acceptLink (env : Env) (opts : Options) (group : Bytes) (extra : Option Table)
    (link : Link) :
    Returns (acceptLink env opts group extra link) ↔ LinkSafe env opts extra link := by
  rw [returns_acceptLink_iff]
  cases link with
  | line v =>
    rw [readLink_line]
    simp only [LinkSafe]
    cases lineText env v with
    | none => exact iff_of_true ⟨none, rfl, fun t ht ↦ by cases ht⟩ trivial
    | some p =>
      rcases p with ⟨szType, content⟩
      simp only
      constructor
      · rintro ⟨o, ho, hsafe⟩
        have htext := (returns_processData env szType content).mp ⟨o, ho⟩
        refine ⟨htext.1, ?_⟩
        intro n hn
        refine ⟨htext.2 n hn, ?_⟩
        have hcore := core_processData ho
        rw [hn] at hcore
        cases o with
        | none => cases hcore
        | some t =>
          have hnames : t.names = n.withAlias := congrArg Core.names (Option.some.inj hcore)
          rw [← hnames]
          exact hsafe t rfl
      · rintro ⟨htext, hn⟩
        rcases (returns_processData env szType content).mpr ⟨htext, fun n h ↦ (hn n h).1⟩
          with ⟨o, ho⟩
        refine ⟨o, ho, ?_⟩
        rintro t rfl
        have hcore := core_processData ho
        cases htn : textNames env szType content with
        | none =>
          rw [htn] at hcore
          cases hcore
        | some n =>
          rw [htn] at hcore
          have hnames : t.names = n.withAlias := congrArg Core.names (Option.some.inj hcore)
          rw [hnames]
          exact (hn n htn).2
  | server v =>
    simp only [LinkSafe]
    cases v with
    | table items fields =>
      have hread : readLink env extra (.server (.table items fields)) =
          some <$> processServer env (fields ++ extra.getD []) := rfl
      rw [hread]
      constructor
      · rintro ⟨o, ho, hsafe⟩
        rcases map_eq_ok.mp ho with ⟨t, ht, rfl⟩
        have hserver := (returns_processServer env _).mp ⟨t, ht⟩
        refine ⟨items, fields, rfl, hserver.1, hserver.2, ?_⟩
        have hnames : t.names = (ssdNames (fields ++ extra.getD [])).withAlias :=
          congrArg Core.names (core_processServer ht)
        rw [← hnames]
        exact hsafe t rfl
      · rintro ⟨items', fields', heq, hssd, hn⟩
        cases heq
        rcases (returns_processServer env _).mpr ⟨hssd, hn.1⟩ with ⟨t, ht⟩
        refine ⟨some t, map_eq_ok.mpr ⟨t, ht, rfl⟩, ?_⟩
        rintro u hu
        cases hu
        have hnames : t.names = (ssdNames (fields ++ extra.getD [])).withAlias :=
          congrArg Core.names (core_processServer ht)
        rw [hnames]
        exact hn.2
    | _ =>
      refine iff_of_false ?_ ?_
      · rintro ⟨o, ho, -⟩
        cases ho
      · rintro ⟨items, fields, heq, -⟩
        cases heq

/-- The JSON of an `ssd` list is a table with a table of servers. -/
def HeadSafe (json : Value) : Prop :=
  ∃ items fields items' fields', json = .table items fields ∧
    Table.get fields "servers" = .table items' fields'

/-- A fetched content raises nothing: the JSON of an `ssd` list is one, and every entry is safe. -/
def ContentSafe (env : Env) (opts : Options) (raw : Bytes) : Prop :=
  (∀ i, Search.find? (ascii "ssd://") raw = some i →
      HeadSafe (env.jsonParse (base64Decode env (some (raw.drop (i + 6)))))) ∧
    ∀ c, readContent env raw = .ok c → ∀ link ∈ c.links, LinkSafe env opts c.extra link

/-- A content is cut into entries if and only if an `ssd` list has its tables. -/
theorem returns_readContent (env : Env) (raw : Bytes) :
    Returns (readContent env raw) ↔
      ∀ i, Search.find? (ascii "ssd://") raw = some i →
        HeadSafe (env.jsonParse (base64Decode env (some (raw.drop (i + 6))))) := by
  unfold readContent
  cases hfind : Search.find? (ascii "ssd://") raw with
  | none => exact iff_of_true (returns_ok _) (fun i hi ↦ by cases hi)
  | some i =>
    simp only [Option.some.injEq, forall_eq']
    simp only [returns_bind, returns_pure, and_true]
    constructor
    · rintro ⟨fields, hfields, servers, hservers⟩
      cases hjson : env.jsonParse (base64Decode env (some (raw.drop (i + 6)))) with
      | table items fields' =>
        rw [hjson] at hfields
        cases hfields
        cases hs : Table.get fields "servers" with
        | table items' fields' => exact ⟨items, fields, items', fields', rfl, hs⟩
        | _ =>
          rw [hs] at hservers
          cases hservers
      | str s =>
        rw [hjson] at hfields
        cases hfields
        cases hservers
      | _ =>
        rw [hjson] at hfields
        cases hfields
    · rintro ⟨items, fields, items', fields', hjson, hs⟩
      rw [hjson]
      exact ⟨fields, rfl, _, by rw [hs]; rfl⟩

end OpenWrtCompile.Subscribe
