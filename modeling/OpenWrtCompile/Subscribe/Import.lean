import OpenWrtCompile.Subscribe.Link
import Mathlib.Logic.Function.Basic

/-!
# Import of the subscriptions

`check_filer`, `parse_link` and `execute` of `root/usr/share/overwall/subscribe:386–560`: the nodes of
every fetched content, and their merge into the sections of the configuration.
-/

namespace OpenWrtCompile.Subscribe
open OpenWrtCompile.Base

/-- The options of the section `server_subscribe`. -/
structure Options where
  filterWords : Bytes
  filterMode : Bytes
  switch : Bytes

/-- One URL of the subscription list, and what `curl` prints for it. -/
structure Fetch where
  url : Bytes
  stdout : Bytes

/-- `curl(url)`. -/
def curl (f : Fetch) : Bytes := trim f.stdout

/-- The loop of `check_filer` over the filter words. -/
def checkWords (env : Env) (mode : Bytes) (nodeAlias : Value) : List Bytes → Except LuaError Bool
  | [] => .ok (mode = ascii "1")
  | v :: vs => do
    let s ← nodeAlias.self
    if ← env.find s v then return mode = ascii "0"
    checkWords env mode nodeAlias vs

/-- `check_filer(result)`. -/
def checkFiler (env : Env) (opts : Options) (result : Table) : Except LuaError Bool :=
  checkWords env opts.filterMode (result.get "alias") (split (some opts.filterWords) (ascii "/"))

/-- The condition under which `parse_link` drops a node. -/
def isInvalid (env : Env) (opts : Options) (result : Table) : Except LuaError Bool :=
  if !(result.get "server").truthy || !(result.get "server_port").truthy ||
      (result.get "alias").eqStr (ascii "NULL") then .ok true
  else do
    if ← checkFiler env opts result then return true
    else return !env.host (← (result.get "server").self)

/-- One entry of a content: a line, or a server of an `ssd` list. -/
inductive Link
  | line (text : Bytes)
  | server (v : Value)

/-- A fetched content: the entries, and for an `ssd` list the table behind its servers. -/
structure Content where
  extra : Option Table
  links : List Link

/-- `nodes` of `parse_link`. -/
def readContent (env : Env) (raw : Bytes) : Except LuaError Content :=
  match Search.find? (ascii "ssd://") raw with
  | some i => do
    let nodes := env.jsonParse (base64Decode env (some (raw.drop (i + 6))))
    let fields ← nodes.fields
    let extra := (((Table.set [] "airport" (fields.get "airport")).set
      "port" (fields.get "port")).set "encryption" (fields.get "encryption")).set
      "password" (fields.get "password")
    let servers ← (fields.get "servers").ipairs
    return ⟨some extra, servers.map .server⟩
  | none =>
    let lines := split (some (gsubByte 0x20 0x0A (base64Decode env (some raw)))) (ascii "\n")
    .ok ⟨none, lines.map .line⟩

/-- The table that `setmetatable(server,{__index=extra})` makes of a server. -/
def withExtra (extra : Table) : Value → Except LuaError Table
  | .table _ fields => .ok (fields ++ extra)
  | _ => .error .argument

/-- `result` of `parse_link` for one entry. -/
def readLink (env : Env) (extra : Option Table) : Link → Except LuaError (Option Table)
  | .server v => do
    let content ← withExtra (extra.getD []) v
    some <$> processServer env content
  | .line v =>
    match split (some (trim v)) (ascii "://") with
    | szType :: rest :: _ =>
      if szType = ascii "ss" ∨ szType = ascii "trojan" then processData env szType rest
      else processData env szType (base64Decode env (some rest))
    | _ => .ok none

/-- What `parse_link` does with a node: `none` where it is dropped. -/
def acceptNode (env : Env) (opts : Options) (group : Bytes) (result : Table) :
    Except LuaError (Option Table) := do
  if ← isInvalid env opts result then
    -- the line of the log is a concatenation
    let _ ← (result.get "alias").text
    return none
  else return some (result.set "grouphashkey" (.str group))

/-- The node that `parse_link` takes from one entry: `none` where it is skipped or dropped. -/
def acceptLink (env : Env) (opts : Options) (group : Bytes) (extra : Option Table) (link : Link) :
    Except LuaError (Option Table) := do
  match ← readLink env extra link with
  | none => return none
  | some result => acceptNode env opts group result

/-- A node table in `nodeResult`: the index of its list, and its place there. -/
abbrev Ref := Nat × Nat

/-- `nodeResult` and `cache`. -/
structure Import where
  lists : List (List Table)
  cache : Bytes → Option (Bytes → Option Ref)

/-- Before the first URL. -/
def Import.empty : Import := ⟨[], fun _ ↦ none⟩

/-- `result.hashkey`. -/
def hashkey (result : Table) : Bytes :=
  match result.get "hashkey" with
  | .str s => s
  | _ => []

/-- `cache[groupHash]={}` and `tinsert(nodeResult,{})`. -/
def Import.openGroup (imp : Import) (group : Bytes) : Import :=
  ⟨imp.lists ++ [[]], Function.update imp.cache group (some fun _ ↦ none)⟩

/-- `tinsert(nodeResult[index],result)` and `cache[groupHash][result.hashkey]=…` for the last list. -/
def Import.insert (imp : Import) (group : Bytes) (result : Table) : Import :=
  let last := imp.lists.getLastD []
  let ref := (imp.lists.length - 1, last.length)
  let entries := (imp.cache group).getD fun _ ↦ none
  ⟨imp.lists.dropLast ++ [last ++ [result]],
    Function.update imp.cache group (some (Function.update entries (hashkey result) (some ref)))⟩

/-- The step of `parse_link` for one entry. -/
def importLink (env : Env) (opts : Options) (group : Bytes) (extra : Option Table) (imp : Import)
    (link : Link) : Except LuaError Import := do
  match ← acceptLink env opts group extra link with
  | none => return imp
  | some result => return imp.insert group result

/-- The step of `parse_link` for one URL. -/
def importUrl (env : Env) (opts : Options) (imp : Import) (f : Fetch) : Except LuaError Import :=
  if curl f = [] then .ok imp
  else do
    let group := md5 env f.url
    let imp := imp.openGroup group
    let content ← readContent env (curl f)
    content.links.foldlM (importLink env opts group content.extra) imp

/-- `parse_link()`. -/
def parseLink (env : Env) (opts : Options) (fetches : List Fetch) : Except LuaError Import :=
  fetches.foldlM (importUrl env opts) Import.empty

/-- A section of the configuration. -/
structure Section where
  name : Bytes
  options : Table

/-- What the script reads and writes of the configuration: the sections `servers` and `global`, and
the names of all others. -/
structure Config where
  servers : List Section
  globals : List Section
  others : List Bytes

/-- `ucic:tset(name,section,values)`; where a key stood twice its first entry would count. -/
def tset (options values : Table) : Table := values.foldr (fun p o ↦ o.put p.1 p.2) options

/-- `nodeResult[old.grouphashkey][old.hashkey]`. -/
def Import.find (imp : Import) (old : Table) : Option Ref :=
  match old.get "grouphashkey", old.get "hashkey" with
  | .str g, .str h => (imp.cache g).bind fun entries ↦ entries h
  | _, _ => none

/-- The table of a reference. -/
def Import.node (imp : Import) (ref : Ref) : Table := ((imp.lists[ref.1]?.getD [])[ref.2]?).getD []

/-- The step of the first loop of `execute`: the section that stays, and the mark `_ignore`. -/
def mergeSection (imp : Import) (old : Section) : Except LuaError (Option Section × Option Ref) :=
  if (old.options.get "grouphashkey").truthy || (old.options.get "hashkey").truthy then
    match imp.find old.options with
    | none => .ok (none, none)
    | some ref => .ok (some { old with options := tset old.options (imp.node ref) }, some ref)
  else if (old.options.get "alias").truthy then .ok (some old, none)
  else if (old.options.get "server").truthy || (old.options.get "server_port").truthy then do
    let _ ← (old.options.get "server").text
    let _ ← (old.options.get "server_port").text
    return (some old, none)
  else .ok (none, none)

/-- The tables of `nodeResult` in order, with their references. -/
def Import.nodes (imp : Import) : List (Ref × Table) :=
  imp.lists.zipIdx.flatMap fun l ↦ l.1.zipIdx.map fun n ↦ ((l.2, n.2), n.1)

/-- The step of the second loop of `execute` for a table that carries no mark. -/
def addSection (env : Env) (opts : Options) (others : List Bytes) (servers : List Section)
    (node : Table) : List Section :=
  servers ++ [⟨env.addName (others ++ servers.map Section.name),
    (tset [] node).set "switch_enable" (.str opts.switch)⟩]

/-- `ucic:get_first(name,'global','global_server')`. -/
def globalServer (cfg : Config) : Option Value :=
  (cfg.globals.map fun s ↦ s.options.get "global_server").find? fun v ↦ match v with
    | .nil => false
    | _ => true

/-- An update of the first section `global`. -/
def Config.setGlobal (cfg : Config) (f : Table → Table) : Config :=
  match cfg.globals with
  | [] => cfg
  | s :: r => { cfg with globals := { s with options := f s.options } :: r }

/-- The names of all sections. -/
def Config.names (cfg : Config) : List Bytes :=
  cfg.others ++ cfg.globals.map Section.name ++ cfg.servers.map Section.name

/-- The choice of the main server at the end of `execute`. -/
def updateGlobal (cfg : Config) : Config :=
  match globalServer cfg, cfg.servers with
  | none, _ => cfg
  | some (.str s), first :: _ =>
    if s ∈ cfg.names then cfg else cfg.setGlobal fun o ↦ o.set "global_server" (.str first.name)
  | some _, first :: _ => cfg.setGlobal fun o ↦ o.set "global_server" (.str first.name)
  | some _, [] =>
    cfg.setGlobal fun o ↦ (((((o.set "global_server" .nil).set "udp_relay_server" .nil).set
      "yb_server" .nil).set "nf_server" .nil).set "cu_server" .nil).set "tg_server" .nil

/-- The two loops of `execute`. -/
def mergeServers (env : Env) (opts : Options) (imp : Import) (cfg : Config) :
    Except LuaError (List Section) := do
  let merged ← cfg.servers.mapM (mergeSection imp)
  let marks := merged.filterMap Prod.snd
  let fresh := imp.nodes.filter fun n ↦ n.1 ∉ marks
  return (fresh.map Prod.snd).foldl
    (addSection env opts (cfg.others ++ cfg.globals.map Section.name)) (merged.filterMap Prod.fst)

/-- `execute()`: the configuration it commits, if it commits one. -/
def execute (env : Env) (opts : Options) (fetches : List Fetch) (cfg : Config) :
    Except LuaError (Option Config) := do
  let imp ← parseLink env opts fetches
  if imp.lists = [] then return none
  let servers ← mergeServers env opts imp cfg
  return some (updateGlobal { cfg with servers })

/-- The script under its `xpcall`: what is not committed does not change the configuration. -/
def update (env : Env) (opts : Options) (fetches : List Fetch) (cfg : Config) : Config :=
  match execute env opts fetches cfg with
  | .ok (some cfg') => cfg'
  | _ => cfg

end OpenWrtCompile.Subscribe
