import OpenWrtCompile.Subscribe.Lua

/-!
# One link of a subscription

`base64Decode`, `md5`, `parseNodeUrl` and `processData` of `root/usr/share/overwall/subscribe:72–379`:
from the text of a link, or the JSON value of an `ssd` server, to the table of a node.
-/

namespace OpenWrtCompile.Subscribe
open OpenWrtCompile.Base

/-- What the script calls: `nixio.bin.b64decode`, `luci.jsonc`, `md5sum`, `string.find` with a filter
word as its pattern, `luci.cbi.datatypes.host` on a string, and the name `uci add` gives. -/
structure Env where
  b64decode : Bytes → Option Bytes
  jsonParse : Bytes → Value
  jsonStringify : Table → Bytes
  md5sum : Bytes → Bytes
  find : Bytes → Bytes → Except LuaError Bool
  host : Bytes → Bool
  addName : List Bytes → Bytes

/-- `md5(content)`. -/
def md5 (env : Env) (content : Bytes) : Bytes := trim (env.md5sum (urlEncode content))

/-- `base64Decode(text)`; what cannot be decoded is returned as it is. -/
def base64Decode (env : Env) (text : Option Bytes) : Bytes :=
  match text with
  | none => []
  | some raw =>
    let text := gsubByte 0x2D 0x2B (gsubByte 0x5F 0x2F (stripNul raw))
    match env.b64decode (text ++ (ascii "====").drop (text.length % 4)) with
    | some result => stripNul result
    | none => raw

/-- One `params[key(t[1])]=value(t[2])` for an item `v` of a query. -/
def readParam (key value : Bytes → Bytes) (params : Table) (v : Bytes) : Except LuaError Table :=
  match split (some v) (ascii "=") with
  | [] => .error .key
  | k :: r => .ok (params.put (key k) (.ofOption (r.head?.map value)))

/-- The loop over `split(query,'&')`. -/
def readParams (key value : Bytes → Bytes) (query : Option Bytes) : Except LuaError Table :=
  (split query (ascii "&")).foldlM (readParam key value) []

/-- Server and port of a `host:port`, where a missing port is `port`. -/
def authority (port hostPort : Bytes) : Value × Value :=
  if 0x3A ∈ hostPort then
    let sp := split (some hostPort) (ascii ":")
    (.ofOption ((bracketed hostPort).or sp.head?), .ofOption sp.getLast?)
  else (.str hostPort, .str port)

/-- The text before a `#`, and the alias behind it. -/
def splitAlias (text : Bytes) : Bytes × Bytes :=
  match cut 0x23 text with
  | some (before, after) => (before, after)
  | none => (text, [])

/-- Host with port, and query, of what stands behind the `@` of a link: `Info[2]`. -/
def hostQuery (info : Option Bytes) : Except LuaError (Bytes × Option Bytes) :=
  match split (some (gsubSlash (info.getD []))) (ascii "?") with
  | [] => .error .index
  | hostPort :: r => .ok (hostPort, r.head?)

/-- `cond and '1'`. -/
def oneIf (cond : Bool) : Value := if cond then .str (ascii "1") else .bool false

/-- The settings of the `kcp` transport. -/
def setKcp (result : Table) : Table :=
  ((((((result.set "mtu" (.num (ascii "1350"))).set "tti" (.num (ascii "50"))).set
    "uplink_capacity" (.num (ascii "5"))).set "downlink_capacity" (.num (ascii "20"))).set
    "read_buffer_size" (.num (ascii "2"))).set "write_buffer_size" (.num (ascii "2")))

/-- The `if params.type==…` of `parseNodeUrl`, and the transport it leaves. -/
def setTransport (params result : Table) : Table × Value :=
  let type := if (params.get "type").truthy then params.get "type" else .str (ascii "tcp")
  let htype := params.get "headerType"
  if type.eqStr (ascii "ws") then
    ((result.set "ws_host" (params.get "host")).set "ws_path" (params.get "path"), type)
  else if type.eqStr (ascii "tcp") && htype.eqStr (ascii "http") then
    (((result.set "tcp_guise" htype).set "http_host" (params.get "host")).set
      "http_path" (params.get "path"), type)
  else if type.eqStr (ascii "kcp") || type.eqStr (ascii "mkcp") then
    let guise := if htype.truthy then htype else .str (ascii "none")
    ((setKcp (result.set "kcp_guise" guise)).set "seed" (params.get "seed"), .str (ascii "kcp"))
  else if type.eqStr (ascii "grpc") then
    ((result.set "grpc_serviceName" (params.get "serviceName")).set
      "grpc_authority" (params.get "authority"), type)
  else if type.eqStr (ascii "httpupgrade") then
    ((result.set "httpupgrade_host" (params.get "host")).set
      "httpupgrade_path" (params.get "path"), type)
  else (result, type)

/-- The encryption that `parseNodeUrl` takes from `params.encryption`. -/
def setEncryption (A : Bytes) (params result : Table) : Table :=
  let encryption := params.get "encryption"
  if A = ascii "vmess" then
    if encryption.truthy && !encryption.eqStr (ascii "auto") then result.set "security" encryption
    else result
  else
    result.set "vless_encryption" (if encryption.truthy then encryption else .str (ascii "none"))

/-- The `params.security` block of `parseNodeUrl`. -/
def setSecurity (params result : Table) : Table :=
  let security := params.get "security"
  if security.eqStr (ascii "tls") || security.eqStr (ascii "reality") then
    let result :=
      if security.eqStr (ascii "tls") then
        ((result.set "tls" (.str (ascii "1"))).set "fingerprint" (params.get "fp")).set
          "insecure" (oneIf ((params.get "allowInsecure").eqStr (ascii "1")))
      else
        ((((result.set "reality" (.str (ascii "1"))).set "publickey" (params.get "pbk")).set
          "finger_real" (params.get "fp")).set "shortid" (params.get "sid")).set
          "spiderx" (params.get "spx")
    (result.set "vless_flow" (params.get "flow")).set "sni" (params.get "sni")
  else result

/-- `parseNodeUrl(A,B)`, on the table that `processData` has begun. -/
def parseNodeUrl (A B : Bytes) (result : Table) : Except LuaError Table := do
  let (B, remark) := splitAlias B
  let info := split (some B) (ascii "@")
  let result := ((result.set "alias" (.str (urlDecode remark))).set "type" (.str A)).set
    "uuid" (.ofOption (info[0]?.map urlDecode))
  let (hostPort, query) ← hostQuery info[1]?
  let (server, port) := authority (ascii "443") hostPort
  let result := result.set "server" server
  let params ← readParams id urlDecode query
  let (result, type) := setTransport params result
  let result := result.set "transport" type
  let result := setEncryption A params result
  return (setSecurity params result).set "server_port" port

/-- The element `k` before the last one. -/
def fromEnd (l : List Bytes) (k : Nat) : Value := .ofOption l.reverse[k]?

/-- A parameter that is base64 text. -/
def decodeParam (env : Env) (params : Table) (k : String) : Bytes :=
  base64Decode env (match params.get k with | .str s => some s | _ => none)

/-- The alias of an `ssr` link: `[group] remarks`. -/
def ssrAlias (env : Env) (params : Table) : Bytes :=
  let group := decodeParam env params "group"
  (if group ≠ [] then ascii "[" ++ group ++ ascii "] " else []) ++ decodeParam env params "remarks"

/-- The branch `ssr` of `processData`. -/
def ssrNode (env : Env) (content : Bytes) (result : Table) : Except LuaError Table := do
  let dat := split (some content) (ascii "/?")
  let hostInfo := split dat[0]? (ascii ":")
  match dat[0]? with
  | none => .error .index
  | some head =>
    let result := result.set "server" (.ofOption ((bracketed head).or hostInfo[0]?))
    let result := (((result.set "server_port" (fromEnd hostInfo 4)).set
      "protocol" (fromEnd hostInfo 3)).set "encrypt_method" (fromEnd hostInfo 2)).set
      "obfs" (fromEnd hostInfo 1)
    let result := result.set "password" (.str (base64Decode env hostInfo.getLast?))
    let params ← readParams id id dat[1]?
    let result := (result.set "obfs_param" (.str (decodeParam env params "obfsparam"))).set
      "protocol_param" (.str (decodeParam env params "protoparam"))
    return result.set "alias" (.str (ssrAlias env params))

/-- The plugin of the branch `ss`. -/
def setPlugin (params result : Table) : Table :=
  let result :=
    match params.get "plugin" with
    | .str plugin =>
      let info := urlDecode plugin
      match cut 0x3B info with
      | some (name, opts) => (result.set "plugin" (.str name)).set "plugin_opts" (.str opts)
      | none => result.set "plugin" (.str info)
    | _ => result
  if (result.get "plugin").eqStr (ascii "simple-obfs") then
    result.set "plugin" (.str (ascii "obfs-local"))
  else result

/-- The user information of the branch `ss`, from the pieces around `@`. -/
def ssUserinfo (env : Env) (hostInfo : List Bytes) : Bytes :=
  if 2 < hostInfo.length then List.intercalate (ascii "@") hostInfo.dropLast
  else base64Decode env hostInfo[0]?

/-- The end of the branch `ss`: server, port, method, password and alias. -/
def ssHost (env : Env) (info remark : Bytes) (result : Table) : Except LuaError Table :=
  let hostInfo := split (some (base64Decode env (some info))) (ascii "@")
  match hostInfo.getLast? with
  | none => .ok result
  | some hostPort =>
    let (server, port) := authority (ascii "1080") hostPort
    let result := (result.set "server_port" port).set "server" server
    match cut 0x3A (ssUserinfo env hostInfo) with
    | none => .error .arith
    | some (method, password) =>
      .ok <| ((result.set "encrypt_method_ss" (.str method)).set "password" (.str password)).set
        "alias" (.str (urlDecode remark))

/-- The `/?` of the branch `ss`: the text before it, and the plugin behind it. -/
def ssQuery (info : Bytes) (result : Table) : Except LuaError (Bytes × Table) :=
  match Search.find? (ascii "/?") info with
  | none => .ok (info, result)
  | some i => do
    let params ← readParams id id (split (some info) (ascii "/?"))[1]?
    return (info.take i, setPlugin params result)

/-- The branch `ss` of `processData`. -/
def ssNode (env : Env) (content : Bytes) (result : Table) : Except LuaError Table := do
  let (info, remark) := splitAlias content
  let (info, result) ← ssQuery info result
  ssHost env info remark result

/-- The branch `ssd` of `processData`, on the fields that indexing its content gives. -/
def ssdNode (content result : Table) : Except LuaError Table := do
  let result := ((((((result.set "type" (.str (ascii "ss"))).set
    "server" (content.get "server")).set "server_port" (content.get "port")).set
    "password" (content.get "password")).set "encrypt_method_ss" (content.get "encryption")).set
    "plugin" (content.get "plugin")).set "plugin_opts" (content.get "plugin_options")
  let airport ← (content.get "airport").text
  let remarks ← (content.get "remarks").text
  return result.set "alias" (.str (ascii "[" ++ airport ++ ascii "] " ++ remarks))

/-- The server name of a `trojan` link: `params.peer or params.sni`. -/
def setSni (params result : Table) : Table :=
  let peer := params.get "peer"
  let sni := if peer.truthy then peer else params.get "sni"
  if sni.truthy then (result.set "tls" (.str (ascii "1"))).set "sni" sni else result

/-- The branch `trojan` of `processData`. -/
def trojanNode (content : Bytes) (result : Table) : Except LuaError Table := do
  let (content, remark) := splitAlias content
  if 0x40 ∉ content then return result
  let info := split (some content) (ascii "@")
  let result := (result.set "alias" (.str (urlDecode remark))).set
    "password" (.ofOption (info[0]?.map urlDecode))
  let (hostPort, query) ← hostQuery info[1]?
  let (server, port) := authority (ascii "443") hostPort
  let result := result.set "server" server
  let params ← readParams lower urlDecode query
  let result := setSni params result
  return (result.set "insecure" (oneIf ((params.get "allowinsecure").eqStr (ascii "1")))).set
    "server_port" port

/-- The `if info.net==…` of the branch `vmess`. -/
def setNet (info result : Table) : Table :=
  let net := info.get "net"
  if net.eqStr (ascii "ws") then
    (result.set "ws_host" (info.get "host")).set "ws_path" (info.get "path")
  else if net.eqStr (ascii "tcp") && (info.get "type").eqStr (ascii "http") then
    ((result.set "tcp_guise" (info.get "type")).set "http_host" (info.get "host")).set
      "http_path" (info.get "path")
  else if net.eqStr (ascii "kcp") || net.eqStr (ascii "mkcp") then
    setKcp ((result.set "transport" (.str (ascii "kcp"))).set "kcp_guise" (info.get "type"))
  else if net.eqStr (ascii "grpc") then
    (result.set "grpc_serviceName" (info.get "serviceName")).set
      "grpc_authority" (info.get "authority")
  else if net.eqStr (ascii "httpupgrade") then
    (result.set "httpupgrade_host" (info.get "host")).set "httpupgrade_path" (info.get "path")
  else result

/-- The end of the branch `vmess`: `security` and `tls`. -/
def setTls (info result : Table) : Table :=
  let security := info.get "security"
  let result :=
    if security.truthy && !security.eqStr (ascii "auto") then result.set "security" security
    else result
  let tls := info.get "tls"
  if tls.eqStr (ascii "tls") || tls.eqStr (ascii "1") then
    (((result.set "tls" (.str (ascii "1"))).set "sni" (info.get "sni")).set
      "fingerprint" (info.get "fp")).set
      "insecure" (oneIf ((info.get "allowInsecure").eqStr (ascii "1")))
  else result

/-- The branch `vmess` of `processData` for a content that is JSON. -/
def vmessNode (info result : Table) : Table :=
  let result := ((((result.set "server" (info.get "add")).set "server_port" (info.get "port")).set
    "transport" (info.get "net")).set "uuid" (info.get "id")).set "alias" (info.get "ps")
  setTls info (setNet info result)

/-- The branch `vmess` of `processData`; `none` is its `return nil`. -/
def vmessText (env : Env) (content : Bytes) (result : Table) : Except LuaError (Option Table) :=
  let info := env.jsonParse content
  if info.truthy then do
    let fields ← info.fields
    return some (vmessNode fields result)
  else if content.idxOf? 0x40 = some 36 then some <$> parseNodeUrl (ascii "vmess") content result
  else .ok none

/-- The branch `vless` of `processData`; `none` is its `return nil`. -/
def vlessText (content : Bytes) (result : Table) : Except LuaError (Option Table) :=
  if 0x40 ∈ content then some <$> parseNodeUrl (ascii "vless") content result else .ok none

/-- The branches of `processData` for the text of a link; `none` is its `return nil`. -/
def parseText (env : Env) (szType content : Bytes) (result : Table) :
    Except LuaError (Option Table) :=
  if szType = ascii "ssr" then some <$> ssrNode env content result
  else if szType = ascii "ss" then some <$> ssNode env content result
  else if szType = ascii "ssd" then some <$> ssdNode [] result
  else if szType = ascii "trojan" then some <$> trojanNode content result
  else if szType = ascii "vmess" then vmessText env content result
  else if szType = ascii "vless" then vlessText content result
  else .ok none

/-- The alias of a node without one. -/
def setAlias (result : Table) : Except LuaError Table :=
  if (result.get "alias").truthy then .ok result
  else if (result.get "server").truthy && (result.get "server_port").truthy then do
    let server ← (result.get "server").text
    let port ← (result.get "server_port").text
    return result.set "alias" (.str (server ++ ascii ":" ++ port))
  else .ok (result.set "alias" (.str (ascii "NULL")))

/-- The end of `processData`: the alias, and the hash of the table so far. -/
def finish (env : Env) (result : Table) : Except LuaError Table := do
  let result ← setAlias result
  let hashed := result.set "switch_enable" .nil
  let hashed := hashed.set "hashkey" (.str (md5 env (env.jsonStringify hashed)))
  return hashed.set "switch_enable" (result.get "switch_enable")

/-- `processData(szType,content)` for the text of a link. -/
def processData (env : Env) (szType content : Bytes) : Except LuaError (Option Table) := do
  match ← parseText env szType content [(ascii "type", .str szType)] with
  | none => return none
  | some result => some <$> finish env result

/-- `processData('ssd',content)` for a table. -/
def processServer (env : Env) (content : Table) : Except LuaError Table := do
  let result ← ssdNode content [(ascii "type", .str (ascii "ssd"))]
  finish env result

end OpenWrtCompile.Subscribe
