import OpenWrtCompile.Subscribe.Browser
import OpenWrtCompile.Subscribe.Import

/-!
# Export of a node as a link

`buildUrl` of `luasrc/view/overwall/url.htm:69–310`: the link of the node in the form, for the five
types that have one. `exported` lists what the link says, under the names that the importer uses.
-/

namespace OpenWrtCompile.Subscribe
open OpenWrtCompile.Base

/-- The types of nodes that have a link. -/
inductive LinkType
  | ss
  | ssr
  | vmess
  | vless
  | trojan
  deriving DecidableEq, Repr

/-- `v_type`. -/
def LinkType.name : LinkType → String
  | ss => "ss"
  | ssr => "ssr"
  | vmess => "vmess"
  | vless => "vless"
  | trojan => "trojan"

/-- The fields of the form that `buildUrl` reads. -/
structure Form where
  type : LinkType
  nodeAlias : Text := []
  server : Text := []
  serverPort : Text := []
  encryptMethodSs : Text := []
  password : Text := []
  plugin : Text := []
  pluginOpts : Text := []
  protocol : Text := []
  encryptMethod : Text := []
  obfs : Text := []
  obfsParam : Text := []
  protocolParam : Text := []
  uuid : Text := []
  transport : Text := []
  wsHost : Text := []
  wsPath : Text := []
  tcpGuise : Text := []
  httpHost : Text := []
  httpPath : Text := []
  kcpGuise : Text := []
  seed : Text := []
  grpcServiceName : Text := []
  grpcAuthority : Text := []
  httpupgradeHost : Text := []
  httpupgradePath : Text := []
  security : Text := []
  vlessEncryption : Text := []
  tls : Bool := false
  reality : Bool := false
  insecure : Bool := false
  sni : Text := []
  fingerprint : Text := []
  publickey : Text := []
  fingerReal : Text := []
  shortid : Text := []
  spiderx : Text := []
  vlessFlow : Text := []
  deriving DecidableEq

/-- `v_add`: a server with a `:` stands in brackets. -/
def Form.address (f : Form) : Text :=
  if ':' ∈ f.server then '[' :: f.server ++ [']'] else f.server

/-- `opt.query(param,src)` of a field that is no checkbox. -/
def query (param : String) (value : Text) : Text :=
  text "&" ++ text param ++ text "=" ++ encodeURIComponent value

/-- `if (params[0]=="&") params=params.substring(1)`. -/
def dropAmp : Text → Text
  | '&' :: params => params
  | params => params

/-- The parameters of a link, and behind them its alias. -/
def Form.withAlias (f : Form) (params : Text) : Text :=
  dropAmp (params ++ text "#" ++ encodeURI f.nodeAlias)

/-- The plugin of an `ss` link. -/
def Form.pluginParam (f : Form) : Text :=
  if f.plugin = [] then []
  else
    let opts := if f.pluginOpts = [] then [] else encodeURI (text ";" ++ f.pluginOpts)
    text "&plugin=" ++ encodeURI (f.plugin ++ opts)

/-- `case "ss"`. -/
def Form.ssUrl (f : Form) : Option Text := do
  let user ← b64encsafe (f.encryptMethodSs ++ text ":" ++ f.password)
  return user ++ text "@" ++ f.address ++ text ":" ++ f.serverPort ++ text "/?" ++
    f.withAlias f.pluginParam

/-- `case "ssr"`. -/
def Form.ssrUrl (f : Form) : Option Text := do
  let password ← b64encsafe f.password
  let obfsParam ← b64encsafe f.obfsParam
  let protocolParam ← b64encsafe f.protocolParam
  let remarks ← b64encutf8safe f.nodeAlias
  b64encsafe (f.address ++ text ":" ++ f.serverPort ++ text ":" ++ f.protocol ++ text ":" ++
    f.encryptMethod ++ text ":" ++ f.obfs ++ text ":" ++ password ++ text "/?obfsparam=" ++
    obfsParam ++ text "&protoparam=" ++ protocolParam ++ text "&remarks=" ++ remarks)

/-- What `info` says of the transport. -/
def Form.transportInfo (f : Form) : List (String × Text) :=
  if f.transport = text "ws" then [("host", f.wsHost), ("path", encodeURI f.wsPath)]
  else if f.transport = text "tcp" ∧ f.tcpGuise = text "http" then
    [("type", f.tcpGuise), ("host", f.httpHost), ("path", encodeURI f.httpPath)]
  else if f.transport = text "kcp" then [("type", f.kcpGuise), ("seed", f.seed)]
  else if f.transport = text "grpc" then
    [("serviceName", f.grpcServiceName), ("authority", f.grpcAuthority)]
  else if f.transport = text "httpupgrade" then
    [("host", f.httpupgradeHost), ("path", encodeURI f.httpupgradePath)]
  else []

/-- What `info` says of TLS. -/
def Form.tlsInfo (f : Form) : List (String × Text) :=
  if f.tls then
    [("tls", text "tls"), ("sni", f.sni),
      ("fp", if f.fingerprint = [] then text "random" else f.fingerprint)] ++
      if f.insecure then [("allowInsecure", text "1")] else []
  else []

/-- The object `info` of `case "vmess"`. -/
def Form.info (f : Form) : List (String × Text) :=
  [("v", text "2"), ("ps", f.nodeAlias), ("add", f.server), ("port", f.serverPort), ("id", f.uuid),
    ("aid", text "0")] ++ f.transportInfo ++
    [("net", f.transport), ("security", if f.security = [] then text "auto" else f.security)] ++
    f.tlsInfo

/-- `case "vmess"`. -/
def Form.vmessUrl (f : Form) : Option Text := b64EncodeUnicode (stringify f.info)

/-- What the parameters of a `vless` link say of the transport. -/
def Form.transportParams (f : Form) : Text :=
  if f.transport = text "ws" then query "host" f.wsHost ++ query "path" f.wsPath
  else if f.transport = text "tcp" ∧ f.tcpGuise = text "http" then
    query "headerType" f.tcpGuise ++ query "host" f.httpHost ++ query "path" f.httpPath
  else if f.transport = text "kcp" then query "headerType" f.kcpGuise ++ query "seed" f.seed
  else if f.transport = text "grpc" then
    query "serviceName" f.grpcServiceName ++ query "authority" f.grpcAuthority
  else if f.transport = text "httpupgrade" then
    query "host" f.httpupgradeHost ++ query "path" f.httpupgradePath
  else []

/-- A parameter that is left out where its field is empty. -/
def queryUnlessEmpty (param : String) (value : Text) : Text :=
  if value = [] then [] else query param value

/-- What the parameters of a `vless` link say of TLS and REALITY, up to the server name. -/
def Form.securityParams (f : Form) : Text :=
  (if f.reality then
    text "&security=reality" ++ query "pbk" f.publickey ++ query "fp" f.fingerReal ++
      queryUnlessEmpty "sid" f.shortid ++ queryUnlessEmpty "spx" f.spiderx
  else
    text "&security=tls" ++
      (if f.fingerprint = [] then text "&fp=random" else query "fp" f.fingerprint) ++
      (if f.insecure then text "&allowInsecure=1" else [])) ++
    queryUnlessEmpty "sni" f.sni

/-- The parameter `flow`, which is not encoded. -/
def Form.flowParam (f : Form) : Text :=
  if f.vlessFlow = [] then [] else text "&flow=" ++ f.vlessFlow

/-- The parameters of a `vless` link. -/
def Form.vlessParams (f : Form) : Text :=
  f.transportParams ++ text "&type=" ++ f.transport ++ query "encryption" f.vlessEncryption ++
    if f.tls || f.reality then f.securityParams ++ f.flowParam else []

/-- `case "vless"`. -/
def Form.vlessUrl (f : Form) : Text :=
  encodeURIComponent f.uuid ++ text "@" ++ f.address ++ text ":" ++ f.serverPort ++ text "?" ++
    f.withAlias f.vlessParams

/-- The parameters of a `trojan` link. -/
def Form.trojanParams (f : Form) : Text :=
  queryUnlessEmpty "sni" f.sni ++ if f.insecure then text "&allowinsecure=1" else []

/-- `case "trojan"`. -/
def Form.trojanUrl (f : Form) : Text :=
  encodeURIComponent f.password ++ text "@" ++ f.address ++ text ":" ++ f.serverPort ++ text "/?" ++
    f.withAlias f.trojanParams

/-- The link that `buildUrl` copies; `none` where `btoa` throws. -/
def buildUrl (f : Form) : Option Text := do
  let url ←
    match f.type with
    | .ss => f.ssUrl
    | .ssr => f.ssrUrl
    | .vmess => f.vmessUrl
    | .vless => some f.vlessUrl
    | .trojan => some f.trojanUrl
  return text f.type.name ++ text "://" ++ url

/-- A field of the form, as the script keeps it. -/
def field (name : String) (value : Text) : String × Value := (name, .str (utf8 value))

/-- A field that is exported unless it is empty. -/
def fieldUnlessEmpty (name : String) (value : Text) : List (String × Value) :=
  if value = [] then [] else [field name value]

/-- A box that is checked. -/
def checked (name : String) : String × Value := (name, .str (ascii "1"))

/-- The fields of the transport. -/
def Form.transportFields (f : Form) : List (String × Value) :=
  if f.transport = text "ws" then [field "ws_host" f.wsHost, field "ws_path" f.wsPath]
  else if f.transport = text "tcp" ∧ f.tcpGuise = text "http" then
    [field "tcp_guise" f.tcpGuise, field "http_host" f.httpHost, field "http_path" f.httpPath]
  else if f.transport = text "kcp" then [field "kcp_guise" f.kcpGuise, field "seed" f.seed]
  else if f.transport = text "grpc" then
    [field "grpc_serviceName" f.grpcServiceName, field "grpc_authority" f.grpcAuthority]
  else if f.transport = text "httpupgrade" then
    [field "httpupgrade_host" f.httpupgradeHost, field "httpupgrade_path" f.httpupgradePath]
  else []

/-- The box for certificates that are not checked. -/
def Form.insecureField (f : Form) : List (String × Value) :=
  if f.insecure then [checked "insecure"] else []

/-- The fields of TLS and REALITY that a `vless` link has. -/
def Form.securityFields (f : Form) : List (String × Value) :=
  if f.tls || f.reality then
    (if f.reality then
      [checked "reality", field "publickey" f.publickey, field "finger_real" f.fingerReal] ++
        fieldUnlessEmpty "shortid" f.shortid ++ fieldUnlessEmpty "spiderx" f.spiderx
    else [checked "tls", field "fingerprint" f.fingerprint] ++ f.insecureField) ++
      fieldUnlessEmpty "sni" f.sni ++ fieldUnlessEmpty "vless_flow" f.vlessFlow
  else []

/-- The fields that `buildUrl` exports. -/
def exported (f : Form) : List (String × Value) :=
  [field "alias" f.nodeAlias, field "server" f.server, field "server_port" f.serverPort] ++
    match f.type with
    | .ss =>
      [field "encrypt_method_ss" f.encryptMethodSs, field "password" f.password] ++
        if f.plugin = [] then []
        else field "plugin" f.plugin :: fieldUnlessEmpty "plugin_opts" f.pluginOpts
    | .ssr =>
      [field "protocol" f.protocol, field "encrypt_method" f.encryptMethod, field "obfs" f.obfs,
        field "password" f.password, field "obfs_param" f.obfsParam,
        field "protocol_param" f.protocolParam]
    | .vmess =>
      [field "uuid" f.uuid, field "transport" f.transport, field "security" f.security] ++
        f.transportFields ++
        if f.tls then
          [checked "tls", field "sni" f.sni, field "fingerprint" f.fingerprint] ++ f.insecureField
        else []
    | .vless =>
      [field "uuid" f.uuid, field "transport" f.transport,
        field "vless_encryption" f.vlessEncryption] ++ f.transportFields ++ f.securityFields
    | .trojan => field "password" f.password :: fieldUnlessEmpty "sni" f.sni ++ f.insecureField

/-- No exported field is empty. -/
def Filled (f : Form) : Prop := ∀ p ∈ exported f, p.2 ≠ .str []

/-- The importer reads the link of the form, and each exported field comes out as it was. -/
def RoundTrips (env : Env) (f : Form) : Prop :=
  ∃ link result, buildUrl f = some link ∧
    readLink env none (.line (utf8 link)) = .ok (some result) ∧
    ∀ p ∈ exported f, result.get p.1 = p.2

end OpenWrtCompile.Subscribe
