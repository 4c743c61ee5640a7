import OpenWrtCompile.Base.JsonLines
import OpenWrtCompile.Base.Replacement
import OpenWrtCompile.Base.ShellWords
import OpenWrtCompile.Overwall.DnsRules

/-!
# The configuration files that the init script writes

`luci-app-overwall/root/etc/init.d/overwall`: `uci_get_by_name` (50–53), `gen_config_file` (101–167) for
the nodes and `gen_service_file` (1185–1231) for the servers. The values of options are put into
here-documents as they are printed by `echo` without quotation marks; for `ss` two members are added
with `sed` where the plugin is installed.

The names in the directory, the programs that `which` finds, and what `sed` does with a script of more
than one `s` command are parameters. Port numbers and times are numbers, and an address is made of
digits, dots and colons.
-/

namespace OpenWrtCompile.Overwall.ConfigFiles
open OpenWrtCompile.Base OpenWrtCompile.Base.ShellWords OpenWrtCompile.Base.Replacement

/-! ## The shell -/

/-- What the script finds on the router: the names that a word matches, none for a word without special
characters, whether `which` finds all of its arguments, and what other scripts of `sed` make of a
file. -/
structure Shell where
  names : Bytes → List Bytes
  which : List Bytes → Bool
  sed : Bytes → Bytes → Bytes
  names_plain : ∀ w : Bytes, (∀ c ∈ w, c ∉ ascii "*?[\\") → names w = []

namespace Shell

variable (sh : Shell)

/-- `$(uci_get_by_name …)` for an option with a value, empty if unset, and a default. -/
def uciGetByName (value default : Bytes) : Bytes :=
  let ret := captured (value ++ [0x0A])
  echoed sh.names (if ret = [] then default else ret)

/-- A pattern in which only a dot is special. -/
def isSimple (pattern : Bytes) : Bool :=
  pattern.all fun c ↦ (0x30 ≤ c && c ≤ 0x39) || (0x61 ≤ c && c ≤ 0x7A) || (0x41 ≤ c && c ≤ 0x5A) ||
    c ∈ ascii ".:\",]"

/-- `sed -i`: a script that is an error leaves the file as it is. -/
def sedInPlace (script file : Bytes) : Bytes :=
  match command script with
  | some (pattern, replacement, []) =>
    if isSimple pattern then
      if hasLineEnd replacement then file
      else mapLines (replaceFirst (wordPattern pattern) fun m ↦ render m replacement) file
    else sh.sed script file
  | _ => sh.sed script file

end Shell

/-! ## The options -/

/-- A byte of an address. -/
def isAddressByte (c : UInt8) : Bool :=
  (0x30 ≤ c && c ≤ 0x39) || (0x61 ≤ c && c ≤ 0x66) || (0x41 ≤ c && c ≤ 0x46) || c = 0x2E || c = 0x3A

/-- The address of a host. -/
structure Address where
  text : Bytes
  ne_nil : text ≠ []
  bytes : text.all isAddressByte = true

/-- The options of a section, those that are strings empty if unset; `fastOpen` is the test of
`fast_open`. -/
structure Options where
  server : Bytes
  serverPort : JsonNumber
  timeout : Option JsonNumber
  fastOpen : Bool
  username : Bytes
  password : Bytes
  encryptMethodSs : Bytes
  encryptMethod : Bytes
  protocol : Bytes
  protocolParam : Bytes
  obfs : Bytes
  obfsParam : Bytes
  plugin : Bytes
  pluginOpts : Bytes

/-- The time without an option. -/
def defaultTimeout : JsonNumber := ⟨ascii "60", by decide⟩

namespace Options

variable (sh : Shell) (o : Options)

/-- The value of an option that is a string. -/
def get (value : Bytes) : Bytes := sh.uciGetByName value []

/-- `$sport`, `$port`. -/
def port : Bytes := sh.uciGetByName o.serverPort.text []

/-- `$timeout`. -/
def timeoutText : Bytes := sh.uciGetByName ((o.timeout.map JsonNumber.text).getD []) (ascii "60")

/-- `$fast`. -/
def fast : Bytes := ascii (if o.fastOpen then "true" else "false")

end Options

/-! ## Here-documents -/

/-- `"key":"value",`. -/
def strLine (key : String) (value : Bytes) : Bytes := member (ascii key) (quoted value ++ ascii ",")

/-- `"key":value,`. -/
def rawLine (key : String) (value : Bytes) : Bytes := member (ascii key) (value ++ ascii ",")

/-- The script that adds the plugin behind a text: `found` stands for the text in the pattern and in the
replacement. -/
def insertScript (found plugin opts : Bytes) : Bytes :=
  ascii "s@" ++ (found ++ ascii "@" ++ (found ++ ascii "\\n\"plugin\":\"" ++ plugin ++
    ascii "\",\\n\"plugin_opts\":\"" ++ opts ++ ascii "\",") ++ ascii "@")

/-- What a generator leaves: the file, and the file with the plugin where it is added. -/
structure Output where
  file : Bytes
  edited : Option Bytes

/-- The file that is written, and edited if the plugin is found. -/
def Options.withPlugin (sh : Shell) (o : Options) (found file : Bytes) : Output where
  file := file
  edited :=
    if sh.which (fields sh.names (Options.get sh o.plugin)) then
      some (sh.sedInPlace
        (insertScript found (Options.get sh o.plugin) (Options.get sh o.pluginOpts)) file)
    else none

/-! ## `gen_config_file` -/

/-- The types of nodes with a file of their own here. -/
inductive NodeType
  | ss | ssr | naiveproxy | other
  deriving DecidableEq, Repr

/-- What the node is used for: the second argument. -/
inductive Slot
  | tcp | udp | yb | nf | cu | tg | socks5
  deriving DecidableEq, Repr

/-- A call of `gen_config_file`, with the variables that it reads: the addresses and ports by their use, and
whether kcptun is in between. -/
structure Call where
  options : Options
  type : NodeType
  slot : Slot
  listen : Address
  threads : Option JsonNumber
  kcpEnable : Bool
  address : Slot → Address
  localPort : Slot → JsonNumber

/-- The methods for which nothing is written. -/
def methods2022 : List Bytes :=
  [ascii "2022-blake3-aes-128-gcm", ascii "2022-blake3-aes-256-gcm",
    ascii "2022-blake3-chacha20-poly1305"]

/-- The local end of kcptun. -/
def localhost : Address := ⟨ascii "127.0.0.1", by decide, by decide⟩

namespace Call

variable (sh : Shell) (c : Call)

/-- `$hostip`. -/
def hostip : Address := if c.slot = .tcp ∧ c.kcpEnable = true then localhost else c.address c.slot

/-- `$lport`. -/
def lport : JsonNumber := c.localPort c.slot

/-- `$PROTO`. -/
def proto : Bytes := if c.slot = .socks5 then ascii "socks" else ascii "redir"

/-- `${4:-1}`. -/
def concurrency : Bytes := (c.threads.map JsonNumber.text).getD (ascii "1")

/-- The method, which is read for each type. -/
def method : Bytes := Options.get sh c.options.encryptMethodSs

/-- The lines for `ss`. -/
def ssLines : List Bytes :=
  [ascii "\x7b", strLine "server" c.hostip.text, rawLine "server_port" (c.options.port sh),
    strLine "local_address" c.listen.text, rawLine "local_port" c.lport.text,
    strLine "password" (Options.get sh c.options.password),
    rawLine "timeout" (c.options.timeoutText sh), strLine "method" (c.method sh),
    rawLine "reuse_port" (ascii "true"), member (ascii "fast_open") c.options.fast, ascii "\x7d"]

/-- The lines for `ssr`. -/
def ssrLines : List Bytes :=
  [ascii "\x7b", strLine "server" c.hostip.text, rawLine "server_port" (c.options.port sh),
    strLine "local_address" c.listen.text, rawLine "local_port" c.lport.text,
    strLine "password" (Options.get sh c.options.password),
    rawLine "timeout" (c.options.timeoutText sh),
    strLine "method" (Options.get sh c.options.encryptMethod),
    strLine "protocol" (Options.get sh c.options.protocol),
    strLine "protocol_param" (Options.get sh c.options.protocolParam),
    strLine "obfs" (Options.get sh c.options.obfs),
    strLine "obfs_param" (Options.get sh c.options.obfsParam),
    member (ascii "fast_open") c.options.fast, ascii "\x7d"]

/-- The lines for `naiveproxy`. -/
def naiveLines : List Bytes :=
  [ascii "\x7b", strLine "listen" (c.proto ++ ascii "://0.0.0.0:" ++ c.lport.text),
    strLine "proxy" (ascii "https://" ++ Options.get sh c.options.username ++ ascii ":" ++
      Options.get sh c.options.password ++ ascii "@" ++ Options.get sh c.options.server ++
      ascii ":" ++ c.options.port sh),
    member (ascii "concurrency") (quoted c.concurrency), ascii "\x7d"]

/-- `gen_config_file`: nothing is written for the methods of 2022, nor for `naiveproxy` and UDP. -/
def genConfigFile : Option Output :=
  if c.method sh ∈ methods2022 then none
  else match c.type with
    | .ss =>
      some (c.options.withPlugin sh (c.hostip.text ++ ascii "\",") (hereDoc (c.ssLines sh)))
    | .ssr => some ⟨hereDoc (c.ssrLines sh), none⟩
    | .naiveproxy => if c.slot = .udp then none else some ⟨hereDoc (c.naiveLines sh), none⟩
    | .other => none

end Call

/-! ## `gen_service_file` -/

/-- The types of servers with a file. -/
inductive ServerType
  | ss | ss2022 | ssr | other
  deriving DecidableEq, Repr

namespace Options

variable (sh : Shell) (o : Options)

/-- The lines of a server for `ss`. -/
def ssServerLines : List Bytes :=
  [ascii "\x7b", ascii "\"server\":[\"::\",\"0.0.0.0\"],", rawLine "server_port" (o.port sh),
    strLine "password" (get sh o.password), rawLine "timeout" (o.timeoutText sh),
    strLine "method" (get sh o.encryptMethodSs), member (ascii "fast_open") o.fast, ascii "\x7d"]

/-- The line with the password and the method of a server of 2022. -/
def settingsLine : Bytes :=
  ascii "\t\t\"settings\":\x7b\"password\":\"" ++ get sh o.password ++ ascii "\",\"method\":\"" ++
    get sh o.encryptMethodSs ++ ascii "\",\"network\":\"tcp,udp\"\x7d,"

/-- The line with the socket options of a server of 2022. -/
def outboundsLine : Bytes :=
  ascii "\t\"outbounds\":[\x7b\"protocol\":\"freedom\"," ++
    ascii "\"streamSettings\":\x7b\"sockopt\":\x7b\"tcpFastOpen\":" ++ o.fast ++
    ascii "\x7d\x7d\x7d]"

/-- The lines of a server of 2022. -/
def ss2022ServerLines : List Bytes :=
  [ascii "\x7b", ascii "\t\"inbounds\":[\x7b", ascii "\t\t" ++ rawLine "port" (o.port sh),
    ascii "\t\t\"protocol\":\"shadowsocks\",", o.settingsLine sh,
    ascii "\t\t\"sniffing\":\x7b\"enabled\":true,\"destOverride\":[\"http\", \"tls\"]\x7d",
    ascii "\t\x7d],",
    o.outboundsLine, ascii "\x7d"]

/-- The lines of a server for `ssr`. -/
def ssrServerLines : List Bytes :=
  [ascii "\x7b", ascii "\"server\":[\"::\",\"0.0.0.0\"],", rawLine "server_port" (o.port sh),
    strLine "password" (get sh o.password), rawLine "timeout" (o.timeoutText sh),
    strLine "method" (get sh o.encryptMethod), strLine "protocol" (get sh o.protocol),
    strLine "protocol_param" (get sh o.protocolParam), strLine "obfs" (get sh o.obfs),
    strLine "obfs_param" (get sh o.obfsParam), member (ascii "fast_open") o.fast, ascii "\x7d"]

/-- `gen_service_file`. -/
def genServiceFile (type : ServerType) : Option Output :=
  match type with
  | .ss => some (o.withPlugin sh (ascii "0.0.0.0\"],") (hereDoc (o.ssServerLines sh)))
  | .ss2022 => some ⟨hereDoc (o.ss2022ServerLines sh), none⟩
  | .ssr => some ⟨hereDoc (o.ssrServerLines sh), none⟩
  | .other => none

end Options

end OpenWrtCompile.Overwall.ConfigFiles
