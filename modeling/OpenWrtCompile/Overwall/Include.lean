import OpenWrtCompile.Base.RuleTable
import OpenWrtCompile.Overwall.Rules

/-!
# The firewall include of overwall

`luci-app-overwall/root/usr/share/overwall/rules` (42–44, 46–290): the rules that the script puts into
the tables, and the script that `gen_include` writes from them for the next reload of the firewall. A
rule is the list of the words that `iptables-save` prints behind its chain. What the chains of overwall
hold is a parameter, since the include copies it line by line; other chains than `PREROUTING`, `OUTPUT`
and those of overwall are left out.
-/

namespace OpenWrtCompile.Overwall
open OpenWrtCompile.Base

/-- `iptables` and `ip6tables`. -/
inductive IpFamily
  | v4 | v6
  deriving DecidableEq, Repr

/-- The tables that overwall uses. -/
inductive TableName
  | nat | mangle
  deriving DecidableEq, Repr

/-- The chains that overwall hooks into. -/
inductive HookChain
  | prerouting | output
  deriving DecidableEq, Repr

/-- `OVERWALL_WAN_FW`, `OVERWALL_WAN_AC` and `OVERWALL_TPROXY`. -/
inductive OwnChain
  | wanFw | wanAc | tproxy
  deriving DecidableEq, Repr

/-- A word of a printed rule: `tag` is `$TAG`, a network is printed with its mask. -/
inductive Word
  | text (s : String)
  | num (n : Nat)
  | net4 (addr mask : BitVec 32)
  | net6 (addr mask : BitVec 128)
  | chain (c : OwnChain)
  | tag
  deriving DecidableEq

/-- A printed rule, without its chain. -/
abbrev RuleText : Type := List Word

/-- The word holds `OVERWALL`. -/
def Word.overwall : Word → Bool
  | .chain _ | .tag => true
  | _ => false

/-- The rule holds `OVERWALL`. -/
def isOverwall (r : RuleText) : Bool := r.any Word.overwall

/-- One table of one family. -/
abbrev FwTable : Type := RuleTable HookChain OwnChain RuleText

/-- A line of a command or of `iptables-restore`. -/
abbrev FwLine : Type := ScriptLine HookChain OwnChain RuleText

/-- All tables. -/
abbrev Firewall : Type := IpFamily → TableName → FwTable

/-- The chains of overwall, and its rules in the others. -/
def ownPart (t : FwTable) : FwTable := ⟨fun h ↦ (t.hooks h).filter isOverwall, t.own⟩

/-- An address with a mask, as `-s` takes it. -/
structure Source (w : Nat) where
  addr : BitVec w
  mask : BitVec w
  deriving DecidableEq

/-- `-s`, printed: the network, and nothing for all addresses. -/
def Source.words (s : Source 128) : RuleText :=
  if s.mask = 0 then [] else [.text "-s", .net6 (s.addr &&& s.mask) s.mask]

/-- The server of a shunt, and whether its `*_proxy` is 1. -/
structure Shunt where
  server : Either BitVec
  proxy : Bool

/-- The options of the script that decide the rules in `PREROUTING` and `OUTPUT`. -/
structure RuleOptions where
  mode : RunMode
  localPort : Nat
  relay : Bool
  yb : Option Shunt
  nf : Option Shunt
  cu : Option Shunt
  tg : Option Shunt
  lanAc : Option (AcMode × List (Either Source))
  y : Bool

/-- `-m comment --comment $TAG -j …`. -/
def tagged (target : RuleText) : RuleText :=
  [.text "-m", .text "comment", .text "--comment", .tag, .text "-j"] ++ target

/-- `REDIRECT --to-ports …`. -/
def redirectTo (port : Nat) : RuleText := tagged [.text "REDIRECT", .text "--to-ports", .num port]

/-- `-p … -j OVERWALL_…`. -/
def hookRule (proto : String) (guard : RuleText) (c : OwnChain) : RuleText :=
  [.text "-p", .text proto] ++ guard ++ tagged [.chain c]

/-- `-p … --dport 53 -j REDIRECT --to-ports 53`; the match of the protocol is printed by name. -/
def dnsRule (proto : String) : RuleText :=
  [.text "-p", .text proto, .text "-m", .text proto, .text "--dport", .num 53] ++ redirectTo 53

/-- `-p tcp -m mark ! --mark 1912 -j OVERWALL_WAN_AC`, lines 164 and 210. -/
def markRule : RuleText :=
  hookRule "tcp" [.text "-m", .text "mark", .text "!", .text "--mark", .num 1912] .wanAc

/-- `-p tcp -s $i -j OVERWALL_WAN_AC`, line 206. -/
def sourceRule (s : Source 128) : RuleText := s.words ++ hookRule "tcp" [] .wanAc

namespace RuleOptions

variable (o : RuleOptions)

/-- The rule of `proxy_rules`. -/
def proxyRule (server : Word) : RuleText :=
  [.text "-d", server, .text "-p", .text "tcp"] ++ redirectTo o.localPort

/-- The servers that lines 92–140 give to `proxy_rules`. -/
def proxied : List (Either BitVec) :=
  [o.yb, o.nf, o.cu, o.tg].filterMap fun s ↦ s.bind fun s ↦ if s.proxy then some s.server else none

/-- Those of IPv4. -/
def proxied4 : List (BitVec 32) := o.proxied.filterMap Either.v4?

/-- Those of IPv6: `echo $YB_SERVER | grep -q :`. -/
def proxied6 : List (BitVec 128) := o.proxied.filterMap Either.v6?

/-- The rules of `proxy_rules` for IPv4. -/
def proxyRules4 : List RuleText :=
  o.proxied4.map fun a ↦ o.proxyRule (.net4 a (BitVec.allOnes 32))

/-- The rules of `proxy_rules` for IPv6. -/
def proxyRules6 : List RuleText :=
  o.proxied6.map fun a ↦ o.proxyRule (.net6 a (BitVec.allOnes 128))

/-- `$MATCH_SET`, lines 157–160. -/
def matchWords : RuleText :=
  match o.lanAc with
  | none => []
  | some (.white, _) =>
    [.text "-m", .text "set", .text "--match-set", .text "over_lan_ac", .text "src"]
  | some (.black, _) =>
    [.text "-m", .text "set", .text "!", .text "--match-set", .text "over_lan_ac", .text "src"]

/-- The IPv6 items of a white list. -/
def whitelisted6 : List (Source 128) :=
  match o.lanAc with
  | some (.white, items) => items.filterMap Either.v6?
  | _ => []

/-- The IPv6 rules in front of `PREROUTING`, lines 205–209. -/
def hookRules6 : List RuleText :=
  match o.lanAc with
  | some (.white, _) => o.whitelisted6.map sourceRule
  | _ => [hookRule "tcp" [] .wanAc]

/-- `-N` and `-A`: a chain of overwall. -/
def chainLines (c : OwnChain) (rs : List RuleText) : List FwLine :=
  .declare c :: rs.map (.append c)

/-- Lines 214–219, for one family. -/
def hijack : List FwLine :=
  if o.y then [.insert .prerouting 1 (dnsRule "udp"), .insert .prerouting 2 (dnsRule "tcp")] else []

/-- The commands of `ipset_r` and `tp_rule` for one table. -/
def commands (body : OwnChain → List RuleText) : IpFamily → TableName → List FwLine
  | .v4, .nat =>
    chainLines .wanFw (body .wanFw) ++ (chainLines .wanAc (body .wanAc) ++
    (o.proxyRules4.map (.insert .output 1) ++
    (.insert .prerouting 1 (hookRule "tcp" o.matchWords .wanAc) ::
    .insert .output 1 markRule :: o.hijack)))
  | .v6, .nat =>
    o.proxyRules6.map (.insert .output 1) ++
    ((if o.mode = .router then
      chainLines .wanFw (body .wanFw) ++ (chainLines .wanAc (body .wanAc) ++
      (o.hookRules6.map (.insert .prerouting 1) ++ [.insert .output 1 markRule]))
    else []) ++ o.hijack)
  | .v4, .mangle =>
    if o.relay then
      chainLines .tproxy (body .tproxy) ++
      [.insert .prerouting 1 (hookRule "udp" o.matchWords .tproxy)]
    else []
  | .v6, .mangle =>
    if o.relay ∧ o.mode = .router then
      chainLines .tproxy (body .tproxy) ++ [.insert .prerouting 1 (hookRule "udp" [] .tproxy)]
    else []

/-- What the chains of overwall hold in each table. -/
abbrev Bodies : Type := IpFamily → TableName → OwnChain → List RuleText

/-- `ipset_r && tp_rule`, behind `flush_r`: every command stands for itself. -/
def rules (body : Bodies) (fw : Firewall) : Firewall := fun f n ↦
  (fw f n).execEach (o.commands (body f n) f n)

end RuleOptions

/-! ## `gen_include` -/

/-- `iptables-save -t …`. -/
def saveTable (t : FwTable) : List FwLine :=
  t.save [.prerouting, .output] [.wanFw, .wanAc, .tproxy]

/-- `grep OVERWALL`. -/
def lineOverwall : FwLine → Bool
  | .declare _ | .append _ _ => true
  | .appendHook _ r | .insert _ _ r => isOverwall r

/-- `sed` with `^-A \(OUTPUT\|PREROUTING\)` for `-I \1 1`. -/
def toFront : FwLine → FwLine
  | .appendHook h r => .insert h 1 r
  | line => line

/-- `extract_rules`. -/
def extractRules (t : FwTable) : List FwLine := ((saveTable t).filter lineOverwall).map toFront

/-- The first `-e` of line 288: `-I PREROUTING 1 -p tcp` becomes `-I PREROUTING 3 -p tcp`. -/
def toThird : FwLine → FwLine
  | .insert .prerouting 1 r =>
    if [.text "-p", .text "tcp"].isPrefixOf r then .insert .prerouting 3 r
    else .insert .prerouting 1 r
  | line => line

/-- The second `-e`: `PREROUTING 3 -p tcp -m tcp --dport 53` becomes `PREROUTING 2 …`. -/
def toSecond : FwLine → FwLine
  | .insert .prerouting 3 r =>
    if [.text "-p", .text "tcp", .text "-m", .text "tcp", .text "--dport", .num 53].isPrefixOf r then
      .insert .prerouting 2 r
    else .insert .prerouting 3 r
  | line => line

/-- The script: what it restores for each family, if it does anything there. -/
abbrev IncludeScript : Type := IpFamily → Option (TableName → List FwLine)

/-- The last command of `gen_include`, behind `[ $y ] &&`. -/
def RuleOptions.patch (o : RuleOptions) (line : FwLine) : FwLine :=
  if o.y then toSecond (toThird line) else line

/-- `gen_include`; `I` is set in router mode. -/
def RuleOptions.genInclude (o : RuleOptions) (fw : Firewall) : IncludeScript := fun f ↦
  if f = .v4 ∨ o.y ∨ o.mode = .router then
    some fun n ↦ (extractRules (fw f n)).map o.patch
  else none

/-- `iptables-save -c | grep -v OVERWALL | iptables-restore -c`. -/
def strip (t : FwTable) : FwTable :=
  (RuleTable.empty.execAll ((saveTable t).filter fun line ↦ !lineOverwall line)).getD t

/-- The two commands of a family. `iptables-restore -n` commits table by table and stops at a line that
is refused. -/
def restoreFamily (lines : TableName → List FwLine) (fw : TableName → FwTable) :
    TableName → FwTable :=
  match (strip (fw .nat)).execAll (lines .nat) with
  | none => fun n ↦ strip (fw n)
  | some nat =>
    match (strip (fw .mangle)).execAll (lines .mangle) with
    | none => Function.update (fun n ↦ strip (fw n)) .nat nat
    | some mangle =>
      fun
      | .nat => nat
      | .mangle => mangle

/-- The include is executed. -/
def runInclude (script : IncludeScript) (fw : Firewall) : Firewall := fun f ↦
  match script f with
  | none => fw f
  | some lines => restoreFamily lines (fw f)

/-- After the rules were put into tables without overwall, the include leaves in every table what they
put there, run on tables that hold nothing of overwall or still hold the rules. -/
def RuleOptions.Restores (o : RuleOptions) (body : RuleOptions.Bodies) : Prop :=
  ∀ fw now : Firewall, (∀ f n, ownPart (fw f n) = .empty) →
    (∀ f n, ownPart (now f n) = .empty ∨ ownPart (now f n) = ownPart (o.rules body fw f n)) →
    ∀ f n, ownPart (runInclude (o.genInclude (o.rules body fw)) now f n) =
      ownPart (o.rules body fw f n)

end OpenWrtCompile.Overwall
