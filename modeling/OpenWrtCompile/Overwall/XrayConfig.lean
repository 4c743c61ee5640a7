import OpenWrtCompile.Base.Gsub
import OpenWrtCompile.Base.Json
import OpenWrtCompile.Subscribe.Lua

/-!
# The configuration of Xray

`luci-app-overwall/root/usr/share/overwall/genxrayconfig`: a table is built from the section of a
server and from two lists of domains, turned into JSON, and edited as text before it is printed.

`luci.jsonc` and `tonumber` are a parameter: a number is what is printed for it, the members of a table
come in the order in which `next` finds them, and the JSON text is the one that json-c prints with the
flags for spaces and for lines.
-/

namespace OpenWrtCompile.Overwall.Xray
open OpenWrtCompile.Base

/-! ## Tables and their text -/

/-- The keys of the table. -/
inductive Key
  | inbounds | outbounds | port | protocol | settings | network | followRedirect | sniffing | enabled
  | destOverride | domainsExcluded | auth | udp | ip | vnext | address | users | id | security
  | encryption | flow | streamSettings | tlsSettings | allowInsecure | fingerprint | serverName
  | certificates | usage | certificateFile | realitySettings | publicKey | shortId | spiderX
  | rawSettings | header | type | request | path | headers | Host | kcpSettings | mtu | tti
  | uplinkCapacity | downlinkCapacity | congestion | readBufferSize | writeBufferSize | seed
  | wsSettings | UA | grpcSettings | serviceName | authority | httpupgradeSettings | host | mux
  | concurrency | servers | method | password | tag | domainStrategy | sockopt | mark | routing
  | rules | inboundTag | outboundTag | domain | dns
  deriving DecidableEq, Repr

/-- The text of a key. -/
def Key.name : Key → Bytes
  | .inbounds => ascii "inbounds" | .outbounds => ascii "outbounds" | .port => ascii "port"
  | .protocol => ascii "protocol" | .settings => ascii "settings" | .network => ascii "network"
  | .followRedirect => ascii "followRedirect" | .sniffing => ascii "sniffing"
  | .enabled => ascii "enabled" | .destOverride => ascii "destOverride"
  | .domainsExcluded => ascii "domainsExcluded" | .auth => ascii "auth" | .udp => ascii "udp"
  | .ip => ascii "ip" | .vnext => ascii "vnext" | .address => ascii "address"
  | .users => ascii "users" | .id => ascii "id" | .security => ascii "security"
  | .encryption => ascii "encryption" | .flow => ascii "flow"
  | .streamSettings => ascii "streamSettings" | .tlsSettings => ascii "tlsSettings"
  | .allowInsecure => ascii "allowInsecure" | .fingerprint => ascii "fingerprint"
  | .serverName => ascii "serverName" | .certificates => ascii "certificates"
  | .usage => ascii "usage" | .certificateFile => ascii "certificateFile"
  | .realitySettings => ascii "realitySettings" | .publicKey => ascii "publicKey"
  | .shortId => ascii "shortId" | .spiderX => ascii "spiderX" | .rawSettings => ascii "rawSettings"
  | .header => ascii "header" | .type => ascii "type" | .request => ascii "request"
  | .path => ascii "path" | .headers => ascii "headers" | .Host => ascii "Host"
  | .kcpSettings => ascii "kcpSettings" | .mtu => ascii "mtu" | .tti => ascii "tti"
  | .uplinkCapacity => ascii "uplinkCapacity" | .downlinkCapacity => ascii "downlinkCapacity"
  | .congestion => ascii "congestion" | .readBufferSize => ascii "readBufferSize"
  | .writeBufferSize => ascii "writeBufferSize" | .seed => ascii "seed"
  | .wsSettings => ascii "wsSettings" | .UA => ascii "UA" | .grpcSettings => ascii "grpcSettings"
  | .serviceName => ascii "serviceName" | .authority => ascii "authority"
  | .httpupgradeSettings => ascii "httpupgradeSettings" | .host => ascii "host" | .mux => ascii "mux"
  | .concurrency => ascii "concurrency" | .servers => ascii "servers" | .method => ascii "method"
  | .password => ascii "password" | .tag => ascii "tag" | .domainStrategy => ascii "domainStrategy"
  | .sockopt => ascii "sockopt" | .mark => ascii "mark" | .routing => ascii "routing"
  | .rules => ascii "rules" | .inboundTag => ascii "inboundTag"
  | .outboundTag => ascii "outboundTag" | .domain => ascii "domain" | .dns => ascii "dns"

/-- The text of a key in the file: `UA` is renamed. -/
def Key.renamed (k : Key) : Bytes := if k = .UA then ascii "User-Agent" else k.name

/-- A Lua value. A list has a number of holes in front of each item, a table its members in the order of
`next`. -/
inductive Value
  | bool (b : Bool)
  | num (n : JsonNumber)
  | str (s : Bytes)
  | list (items : List (Nat × Value))
  | table (members : List (Key × Value))

/-- What stands on a line of the JSON text behind its key. -/
inductive LineBody
  | openArr | closeArr | openObj | closeObj | empty
  | bool (b : Bool)
  | num (n : JsonNumber)
  | str (s : Bytes)

/-- A line of the JSON text: a hole, or an indentation, the key of a member, a body and a comma. -/
inductive JsonLine
  | hole (n : Nat)
  | line (n : Nat) (key : Option Key) (body : LineBody) (comma : Bool)

mutual

/-- The lines of a value. An empty table is an empty array. -/
def Value.lines (n : Nat) (key : Option Key) (comma : Bool) : Value → List JsonLine
  | .bool b => [.line n key (.bool b) comma]
  | .num x => [.line n key (.num x) comma]
  | .str s => [.line n key (.str s) comma]
  | .list items =>
    if items.isEmpty then [.line n key .empty comma]
    else .line n key .openArr false :: (itemLines (n + 1) items ++ [.line n none .closeArr comma])
  | .table members =>
    if members.isEmpty then [.line n key .empty comma]
    else
      .line n key .openObj false :: (memberLines (n + 1) members ++ [.line n none .closeObj comma])

/-- The lines of items. -/
def itemLines (n : Nat) : List (Nat × Value) → List JsonLine
  | [] => []
  | (holes, v) :: items =>
    List.replicate holes (.hole n) ++ (v.lines n none (!items.isEmpty) ++ itemLines n items)

/-- The lines of members. -/
def memberLines (n : Nat) : List (Key × Value) → List JsonLine
  | [] => []
  | (k, v) :: members => v.lines n (some k) (!members.isEmpty) ++ memberLines n members

end

/-- The text of a body, in terms of that of a string. -/
def LineBody.text (str : Bytes → Bytes) : LineBody → Bytes
  | .openArr => [0x5B]
  | .closeArr => [0x5D]
  | .openObj => [0x7B]
  | .closeObj => [0x7D]
  | .empty => [0x5B, 0x5D]
  | .bool b => ascii (if b then "true" else "false")
  | .num x => x.text
  | .str s => 0x22 :: (str s ++ [0x22])

/-- The text of a key, with the colon behind it. -/
def keyText (name : Key → Bytes) : Option Key → Bytes
  | none => []
  | some k => 0x22 :: (name k ++ ascii "\": ")

/-- The text of a line. -/
def JsonLine.text (indent : Nat → Nat) (name : Key → Bytes) (str : Bytes → Bytes) :
    JsonLine → Bytes
  | .hole n => List.replicate (indent n) 0x20 ++ ascii "null,"
  | .line n key body comma =>
    List.replicate (indent n) 0x20 ++
      (keyText name key ++ (body.text str ++ if comma then [0x2C] else []))

/-- A string as json-c prints it: a slash is escaped as well. -/
def jsoncString (s : Bytes) : Bytes :=
  s.flatMap fun c ↦ if c = 0x2F then [0x5C, 0x2F] else escapeByte c

/-- The lines of a text, each behind the end of the one before. -/
def linesText (text : JsonLine → Bytes) (ls : List JsonLine) : Bytes :=
  ls.flatMap fun l ↦ 0x0A :: text l

/-- What a value is printed as. -/
def pretty (indent : Nat → Nat) (v : Value) : Bytes :=
  (linesText (JsonLine.text indent Key.name jsoncString) (v.lines 0 none false)).drop 1

/-- What the script calls: `tonumber` with the text of its result, the order of `next`, and
`luci.jsonc.stringify(v, 1)`. -/
structure LuaEnv where
  tonumber : Bytes → Option JsonNumber
  order : List (Key × Value) → List (Key × Value)
  order_perm : ∀ members, (order members).Perm members
  indent : Nat → Nat
  stringify : Value → Bytes
  stringify_eq : ∀ v, stringify v = pretty indent v

/-! ## The table -/

/-- The options of the server section that the script reads. -/
structure Section where
  type : Option Bytes := none
  server : Option Bytes := none
  server_port : Option Bytes := none
  uuid : Option Bytes := none
  security : Option Bytes := none
  vless_encryption : Option Bytes := none
  vless_flow : Option Bytes := none
  transport : Option Bytes := none
  reality : Option Bytes := none
  tls : Option Bytes := none
  insecure : Option Bytes := none
  fingerprint : Option Bytes := none
  certificate : Option Bytes := none
  certpath : Option Bytes := none
  finger_real : Option Bytes := none
  publickey : Option Bytes := none
  shortid : Option Bytes := none
  spiderx : Option Bytes := none
  tcp_guise : Option Bytes := none
  http_path : Option Bytes := none
  http_host : Option Bytes := none
  mtu : Option Bytes := none
  tti : Option Bytes := none
  uplink_capacity : Option Bytes := none
  downlink_capacity : Option Bytes := none
  congestion : Option Bytes := none
  read_buffer_size : Option Bytes := none
  write_buffer_size : Option Bytes := none
  kcp_guise : Option Bytes := none
  seed : Option Bytes := none
  ws_path : Option Bytes := none
  ws_host : Option Bytes := none
  ws_ua : Option Bytes := none
  h2_host : Option Bytes := none
  grpc_serviceName : Option Bytes := none
  grpc_authority : Option Bytes := none
  httpupgrade_path : Option Bytes := none
  httpupgrade_host : Option Bytes := none
  httpupgrade_ua : Option Bytes := none
  sni : Option Bytes := none
  mux : Option Bytes := none
  concurrency : Option Bytes := none
  encrypt_method_ss : Option Bytes := none
  password : Option Bytes := none

/-- What the script starts from: its arguments, the section, and the contents of the two lists, if the
files are there. -/
structure Inputs where
  proto : Bytes
  local_port : Bytes
  socks_port : Bytes
  ip_addr : Bytes
  udp_addr : Option Bytes
  server : Section
  excluded : Option Bytes
  direct : Option Bytes

/-- The entries of a list, each behind a prefix: `[^\n]+`, trimmed, without empty ones and without
comments. -/
def hosts (pre content : Bytes) : Option (List Bytes) :=
  let hosts := ((content.splitOnP (· = 0x0A)).filter (· ≠ [])).filterMap fun w ↦
    let s := pre ++ Subscribe.trim w
    if s = [] then none else if s.head? = some 0x23 then none else some s
  if hosts = [] then none else some hosts

/-- The value, if the condition holds. -/
def optional (c : Prop) [Decidable c] (v : Value) : Option Value := if c then some v else none

/-- An option that is copied. -/
def copy (o : Option Bytes) : Option Value := o.map .str

/-- A fixed string. -/
def fixed (s : String) : Option Value := some (.str (ascii s))

/-- The items of a list constructor, with the holes in front of each. -/
def holes : Nat → List (Option Value) → List (Nat × Value)
  | _, [] => []
  | n, none :: items => holes (n + 1) items
  | n, some v :: items => (n, v) :: holes 0 items

/-- A list constructor. -/
def list (items : List (Option Value)) : Option Value := some (.list (holes 0 items))

/-- The strings of a list. -/
def strings (l : List Bytes) : Option Value := list (l.map fun s ↦ some (.str s))

/-- The text of a fixed number. -/
theorem mark_valid : ((ascii "1912").all isNumberByte && isJsonNumber (ascii "1912")) = true := by
  decide

/-- The mark of direct traffic. -/
def markNumber : JsonNumber := ⟨ascii "1912", mark_valid⟩

/-- The text of a fixed number. -/
theorem dns_valid : ((ascii "5336").all isNumberByte && isJsonNumber (ascii "5336")) = true := by
  decide

/-- The port of the DNS server. -/
def dnsNumber : JsonNumber := ⟨ascii "5336", dns_valid⟩

namespace Inputs

variable (env : LuaEnv) (c : Inputs)

/-- The value of a table constructor: a member that is `nil` is none. -/
def tableOf (members : List (Key × Option Value)) : Value :=
  .table (env.order (members.filterMap fun m ↦ m.2.map fun v ↦ (m.1, v)))

/-- A table constructor. -/
def table (members : List (Key × Option Value)) : Option Value :=
  some (tableOf env members)

/-- `tonumber` of an option. -/
def number (o : Option Bytes) : Option Value := (o.bind env.tonumber).map .num

/-- `get_domain_excluded`. -/
def get_domain_excluded : Option (List Bytes) := c.excluded.bind (hosts [])

/-- `get_domain_direct`. -/
def get_domain_direct : Option (List Bytes) := c.direct.bind (hosts (ascii "domain:"))

/-- The name of the server in the TLS handshake. -/
def sni : Option Bytes :=
  c.server.sni <|> c.server.http_host <|> c.server.ws_host <|> c.server.h2_host <|>
    c.server.httpupgrade_host <|> c.server.server

/-- The value of the header `User-Agent`. -/
def user_agent : Bytes :=
  (c.server.ws_ua <|> c.server.httpupgrade_ua).getD
    (ascii "Mozilla/5.0 (iPhone; CPU iPhone OS 18_2 like Mac OS X) AppleWebKit/605.1.15 " ++
      ascii "(KHTML, like Gecko) Version/18.2 Mobile/15E148 Safari/604.1")

/-- The method of the user, which TLS replaces. -/
def security : Option Bytes :=
  if c.server.tls = some (ascii "1") then some (ascii "zero") else c.server.security

/-- The part on sniffing of an inbound. -/
def sniffing : Option Value :=
  table env [
    (.enabled, some (.bool true)),
    (.destOverride, strings [ascii "http", ascii "tls"]),
    (.domainsExcluded, c.get_domain_excluded.bind strings)]

/-- The two inbounds. -/
def inbounds : Option Value :=
  list [
    if c.local_port ≠ ascii "0" then table env [
      (.port, number env (some c.local_port)),
      (.protocol, fixed "dokodemo-door"),
      (.settings, table env [(.network, copy (some c.proto)), (.followRedirect, some (.bool true))]),
      (.sniffing, c.sniffing env)] else none,
    if c.socks_port ≠ ascii "0" then table env [
      (.port, number env (some c.socks_port)),
      (.protocol, fixed "socks"),
      (.settings, table env [
        (.auth, fixed "noauth"),
        (.udp, some (.bool true)),
        (.ip, copy (some (c.udp_addr.getD (ascii "127.0.0.1"))))]),
      (.sniffing, c.sniffing env)] else none]

/-- The user of `vmess` or `vless`. -/
def user : Option Value :=
  table env [
    (.id, copy c.server.uuid),
    (.security, if c.server.type = some (ascii "vmess") then copy c.security else none),
    (.encryption,
      if c.server.type = some (ascii "vless") then copy c.server.vless_encryption else none),
    (.flow, copy c.server.vless_flow)]

/-- `tlsSettings`. -/
def tlsSettings : Option Value :=
  if c.server.tls = some (ascii "1") then table env [
    (.allowInsecure, optional (c.server.insecure = some (ascii "1")) (.bool true)),
    (.fingerprint, copy (some (c.server.fingerprint.getD (ascii "random")))),
    (.serverName, copy c.sni),
    (.certificates, if c.server.certificate = some (ascii "1") then
      list [table env [
        (.usage, fixed "verify"),
        (.certificateFile, copy c.server.certpath)]] else none)] else none

/-- `realitySettings`. -/
def realitySettings : Option Value :=
  if c.server.reality = some (ascii "1") then table env [
    (.fingerprint, copy c.server.finger_real),
    (.serverName, copy c.sni),
    (.publicKey, copy c.server.publickey),
    (.shortId, copy c.server.shortid),
    (.spiderX, copy c.server.spiderx)] else none

/-- `rawSettings`. -/
def rawSettings : Option Value :=
  if c.server.transport = some (ascii "tcp") ∧ c.server.tcp_guise = some (ascii "http") then
    table env [(.header, table env [
      (.type, copy c.server.tcp_guise),
      (.request, table env [
        (.path, list [copy c.server.http_path]),
        (.headers, table env [(.Host, copy (c.server.http_host <|> c.server.server))])])])]
  else none

/-- `kcpSettings`. -/
def kcpSettings : Option Value :=
  if c.server.transport = some (ascii "kcp") then table env [
    (.mtu, number env c.server.mtu),
    (.tti, number env c.server.tti),
    (.uplinkCapacity, number env c.server.uplink_capacity),
    (.downlinkCapacity, number env c.server.downlink_capacity),
    (.congestion, some (.bool (c.server.congestion = some (ascii "1")))),
    (.readBufferSize, number env c.server.read_buffer_size),
    (.writeBufferSize, number env c.server.write_buffer_size),
    (.header, table env [(.type, copy c.server.kcp_guise)]),
    (.seed, copy c.server.seed)] else none

/-- `wsSettings`. -/
def wsSettings : Option Value :=
  if c.server.transport = some (ascii "ws") then table env [
    (.path, copy c.server.ws_path),
    (.Host, copy (c.server.ws_host <|> c.server.server)),
    (.headers, table env [(.UA, copy (some c.user_agent))])] else none

/-- `grpcSettings`. -/
def grpcSettings : Option Value :=
  if c.server.transport = some (ascii "grpc") then table env [
    (.serviceName, copy c.server.grpc_serviceName),
    (.authority, copy (c.server.grpc_authority <|> c.server.server))] else none

/-- `httpupgradeSettings`. -/
def httpupgradeSettings : Option Value :=
  if c.server.transport = some (ascii "httpupgrade") then table env [
    (.path, copy c.server.httpupgrade_path),
    (.host, copy (c.server.httpupgrade_host <|> c.server.server)),
    (.headers, table env [(.UA, copy (some c.user_agent))])] else none

/-- `streamSettings`. -/
def streamSettings : Option Value :=
  table env [
    (.network, copy c.server.transport),
    (.security, if c.server.reality = some (ascii "1") then fixed "reality"
      else if c.server.tls = some (ascii "1") then fixed "tls" else none),
    (.tlsSettings, c.tlsSettings env),
    (.realitySettings, c.realitySettings env),
    (.rawSettings, c.rawSettings env),
    (.kcpSettings, c.kcpSettings env),
    (.wsSettings, c.wsSettings env),
    (.grpcSettings, c.grpcSettings env),
    (.httpupgradeSettings, c.httpupgradeSettings env)]

/-- The node is one of `vmess` or of `vless`. -/
def IsVnext : Prop := c.server.type = some (ascii "vmess") ∨ c.server.type = some (ascii "vless")

instance : Decidable c.IsVnext := inferInstanceAs (Decidable (_ ∨ _))

/-- The first outbound: `false` for a node of another type. -/
def outbound : Option Value :=
  if c.IsVnext then
    table env [
      (.protocol, copy c.server.type),
      (.settings, table env [(.vnext, list [table env [
        (.address, copy (some c.ip_addr)),
        (.port, number env c.server.server_port),
        (.users, list [c.user env])]])]),
      (.streamSettings, c.streamSettings env),
      (.mux, if c.server.mux = some (ascii "1") then table env [
        (.enabled, some (.bool true)),
        (.concurrency, number env c.server.concurrency)] else none)]
  else if c.server.type = some (ascii "ss") then
    table env [
      (.protocol, fixed "shadowsocks"),
      (.settings, table env [(.servers, list [table env [
        (.address, copy (some c.ip_addr)),
        (.port, number env c.server.server_port),
        (.method, copy c.server.encrypt_method_ss),
        (.password, copy c.server.password)]])])]
  else some (.bool false)

/-- The outbound for direct traffic. -/
def directOutbound : Option Value :=
  table env [
    (.protocol, fixed "freedom"),
    (.tag, fixed "Direct"),
    (.settings, table env [(.domainStrategy, fixed "UseIPv6v4")]),
    (.streamSettings, table env [
      (.sockopt, table env [(.mark, some (.num markNumber))])])]

/-- `routing`. -/
def routing : Option Value :=
  c.get_domain_direct.bind fun domains ↦ table env [
    (.rules, list [
      table env [
        (.type, fixed "field"), (.inboundTag, fixed "dns"), (.outboundTag, fixed "Direct")],
      table env [
        (.type, fixed "field"), (.outboundTag, fixed "Direct"), (.domain, strings domains)]])]

/-- `dns`. -/
def dns : Option Value :=
  if c.get_domain_direct.isSome then table env [
    (.servers, list [table env [
      (.address, fixed "127.0.0.1"),
      (.port, some (.num dnsNumber))]]),
    (.tag, fixed "dns")] else none

/-- The table. -/
def xray : Value :=
  tableOf env [
    (.inbounds, c.inbounds env),
    (.outbounds, list [c.outbound env, directOutbound env]),
    (.routing, c.routing env),
    (.dns, c.dns env)]

end Inputs

/-! ## The text -/

/-- The match of `%s+null,` at the start of a text. -/
def nullMatch (l : Bytes) : Option Nat :=
  let k := (l.takeWhile Subscribe.isSpace).length
  if 0 < k ∧ ascii "null," <+: l.drop k then some (k + 5) else none

/-- The four substitutions. -/
def edit (text : Bytes) : Bytes :=
  let text := gsub nullMatch [] text
  let text := gsub (literal (ascii "\\/")) (ascii "/") text
  let text := gsub (literal (ascii "\\\\")) (ascii "\\") text
  gsub (literal (ascii "UA\": ")) (ascii "User-Agent\": ") text

/-- What the script prints. -/
def Inputs.output (env : LuaEnv) (c : Inputs) : Bytes :=
  edit (env.stringify (c.xray env)) ++ [0x0A]

/-! ## The statement -/

mutual

/-- The table as a JSON value: the holes are removed, and `UA` is renamed. -/
def Value.json : Value → Json
  | .bool b => .bool b
  | .num x => .num x
  | .str s => .str s
  | .list items => .arr (jsonItems items)
  | .table members => if members.isEmpty then .arr [] else .obj (jsonMembers members)

/-- The items of a list. -/
def jsonItems : List (Nat × Value) → List Json
  | [] => []
  | (_, v) :: items => v.json :: jsonItems items

/-- The members of a table. -/
def jsonMembers : List (Key × Value) → List (Bytes × Json)
  | [] => []
  | (k, v) :: members => (k.renamed, v.json) :: jsonMembers members

end

/-- No backslash is in the string, and no `null,` behind a blank. -/
def Clean (s : Bytes) : Prop := (0x5C : UInt8) ∉ s ∧ ¬ ascii " null," <:+: s

namespace Inputs

variable (env : LuaEnv) (c : Inputs)

/-- What is printed is valid JSON, and it is the table that the script has built. -/
structure Preserved : Prop where
  valid : ∃ j, Denotes (c.output env) j
  exact : ∀ j, Denotes (c.output env) j → j = (c.xray env).json

/-- The strings that the inbounds copy: the arguments and the entries of the list. -/
def inboundCopies : List Bytes :=
  (if c.local_port ≠ ascii "0" then [c.proto] else []) ++
    (if c.socks_port ≠ ascii "0" then c.udp_addr.toList else []) ++
    if c.local_port ≠ ascii "0" ∨ c.socks_port ≠ ascii "0" then c.get_domain_excluded.getD [] else []

/-- The options that a node of `vmess` or of `vless` copies, with the address. -/
def vnextCopies : List Bytes :=
  let s := c.server
  c.ip_addr :: s.uuid.toList ++
    (if s.type = some (ascii "vmess") ∧ s.tls ≠ some (ascii "1") then s.security.toList else []) ++
    (if s.type = some (ascii "vless") then s.vless_encryption.toList else []) ++
    s.vless_flow.toList ++ s.transport.toList ++
    (if s.tls = some (ascii "1") then
      s.fingerprint.toList ++ c.sni.toList ++
        if s.certificate = some (ascii "1") then s.certpath.toList else []
      else []) ++
    (if s.reality = some (ascii "1") then
      s.finger_real.toList ++ c.sni.toList ++ s.publickey.toList ++ s.shortid.toList ++
        s.spiderx.toList
      else []) ++
    (if s.transport = some (ascii "tcp") ∧ s.tcp_guise = some (ascii "http") then
      s.http_path.toList ++ (s.http_host <|> s.server).toList else []) ++
    (if s.transport = some (ascii "kcp") then s.kcp_guise.toList ++ s.seed.toList else []) ++
    (if s.transport = some (ascii "ws") then
      s.ws_path.toList ++ (s.ws_host <|> s.server).toList ++ (s.ws_ua <|> s.httpupgrade_ua).toList
      else []) ++
    (if s.transport = some (ascii "grpc") then
      s.grpc_serviceName.toList ++ (s.grpc_authority <|> s.server).toList else []) ++
    if s.transport = some (ascii "httpupgrade") then
      s.httpupgrade_path.toList ++ (s.httpupgrade_host <|> s.server).toList ++
        (s.ws_ua <|> s.httpupgrade_ua).toList
      else []

/-- The options that the first outbound copies, with the address. -/
def outboundCopies : List Bytes :=
  if c.IsVnext then c.vnextCopies
  else if c.server.type = some (ascii "ss") then
    c.ip_addr :: c.server.encrypt_method_ss.toList ++ c.server.password.toList
  else []

/-- The options, the arguments and the entries that the script copies. -/
def copied : List Bytes := c.inboundCopies ++ c.outboundCopies ++ c.get_domain_direct.getD []

end Inputs

end OpenWrtCompile.Overwall.Xray
