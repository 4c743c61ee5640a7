import OpenWrtCompile.Base.Chains
import OpenWrtCompile.Overwall.Ports
import Mathlib.Data.UInt

/-!
# The firewall rules of overwall

`luci-app-overwall/root/usr/share/overwall/rules`: the chains that `ipset_r` and `tp_rule` build for
the packets of LAN clients, as functions of the arguments of the script. The sets change while the
rules stand, so their contents are a parameter; only `over_lan_ac` is filled once and for all. An
address has as many bits as its family says.
-/

namespace OpenWrtCompile.Overwall
open OpenWrtCompile.Base

/-- The protocol of a packet. -/
inductive Proto
  | tcp | udp
  deriving DecidableEq, Repr

/-- What the rules look at in a packet. -/
structure Flow (w : Nat) where
  src : BitVec w
  dst : BitVec w
  dport : UInt16
  deriving DecidableEq, Repr

/-- A network; a set of networks takes no prefix of length 0. -/
structure Net (w : Nat) where
  addr : BitVec w
  bits : Nat
  pos : 0 < bits

/-- The network holds an address. -/
def Net.covers {w : Nat} (n : Net w) (a : BitVec w) : Bool :=
  a >>> (w - n.bits) == n.addr >>> (w - n.bits)

/-- The network of one address. -/
def Net.single (a : BitVec 32) : Net 32 := ⟨a, 32, by decide⟩

/-- An address, or a network, of either family: those of IPv6 hold a colon. -/
inductive Either (f : Nat → Type)
  | v4 (x : f 32)
  | v6 (x : f 128)

/-- The IPv4 ones: `echo $i | grep -q : || …`. -/
def Either.v4? {f : Nat → Type} : Either f → Option (f 32)
  | .v4 x => some x
  | .v6 _ => none

/-- The IPv6 ones: `echo $i | grep -q : && …`. -/
def Either.v6? {f : Nat → Type} : Either f → Option (f 128)
  | .v4 _ => none
  | .v6 x => some x

/-- An item of a port list. -/
inductive PortItem
  | port (n : UInt16)
  | range (first last : UInt16)

/-- The item names a port. -/
def PortItem.names (n : UInt16) : PortItem → Bool
  | .port m => n == m
  | .range first last => first ≤ n && n ≤ last

/-- The places an item takes in a multiport match. -/
def PortItem.places : PortItem → Nat
  | .port _ => 1
  | .range _ _ => 2

/-- A range goes upwards. -/
def PortItem.upward : PortItem → Bool
  | .port _ => true
  | .range first last => first ≤ last

/-- The ip sets. -/
inductive SetName
  | fplan | gmlan | blacklist | youtube | netflix | custom | telegram
  | overWanAc | overV4 | overLanAc | overWanAcV6 | overV6
  deriving DecidableEq, Repr

/-- The side of a packet that is looked up in a set. -/
inductive Side
  | src | dst
  deriving DecidableEq, Repr

/-- One match of a rule. -/
inductive Match (w : Nat)
  | proto (p : Proto)
  | src (n : Net w)
  | dst (a : BitVec w)
  | dport (n : UInt16)
  | dports (items : List PortItem)
  | set (name : SetName) (side : Side)
  | notSet (name : SetName) (side : Side)

/-- The contents of the sets of one family. -/
abbrev Sets (w : Nat) : Type := SetName → BitVec w → Bool

/-- The side of a packet. -/
def Side.of {w : Nat} (f : Flow w) : Side → BitVec w
  | .src => f.src
  | .dst => f.dst

/-- A packet meets a match. -/
def Match.holds {w : Nat} (sets : Sets w) (proto : Proto) (f : Flow w) : Match w → Bool
  | .proto p => proto = p
  | .src n => n.covers f.src
  | .dst a => f.dst = a
  | .dport n => f.dport = n
  | .dports items => items.any (PortItem.names f.dport)
  | .set name side => sets name (side.of f)
  | .notSet name side => !sets name (side.of f)

/-- What the rules decide. -/
inductive Verdict
  | redirect (port : Nat)
  | tproxy (port : Nat)
  | drop
  deriving DecidableEq, Repr

/-- Rules over the packets of one family. -/
abbrev Chain (w : Nat) : Type := List (Rule (Match w) Verdict)

/-- The first letter of the LAN access list: `w|W` or `b|B`. -/
inductive AcMode
  | white | black
  deriving DecidableEq, Repr

/-- The arguments of the script, lines 292–320, and whether `black.list` has lines. -/
structure Args where
  server : Either BitVec
  localPort : Nat
  relay : Option (Either BitVec × Nat)
  yb : Option Nat
  nf : Option Nat
  cu : Option Nat
  tg : Option Nat
  lanAc : Option (AcMode × List (Either Net))
  wanFw : List (Net 32)
  lanFp : List (Net 32)
  lanGm : List (Net 32)
  proxyPorts : Option (List PortItem)
  mode : RunMode
  x : Bool
  y : Bool
  blackList : Bool

namespace Args

variable (args : Args)

/-- `A`, set by `-r` and `-c`. -/
def a : Bool := args.mode = .router || args.mode = .oversea

/-- `B`, lines 49–50. -/
def b : Bool :=
  args.mode = .oversea ||
    ((args.mode = .router || args.mode = .all) && args.proxyPorts.isNone)

/-- `C`, lines 61–62. -/
def c : Bool := !args.lanGm.isEmpty && !args.b

/-- The sets that the script creates, lines 51–67, 86, 154 and 189. -/
def created : SetName → Bool
  | .youtube => args.yb.isSome
  | .netflix => args.nf.isSome
  | .custom => args.cu.isSome
  | .telegram => args.tg.isSome
  | .fplan => args.mode ≠ .all && !args.lanFp.isEmpty
  | .blacklist =>
    args.mode ≠ .all &&
      (!args.wanFw.isEmpty || args.x || args.mode ≠ .router || args.blackList)
  | .gmlan => args.c
  | .overV4 => args.a || args.c
  | .overV6 => args.mode = .router
  | .overWanAc => true
  | .overLanAc => args.lanAc.isSome
  | .overWanAcV6 => args.mode = .router

/-- `iptables` takes the port list: at most 15 places, ranges upwards; without a list it has nothing
to refuse. -/
def portsTaken : Bool :=
  args.proxyPorts.all fun items ↦
    !items.isEmpty && (items.map PortItem.places).sum ≤ 15 && items.all PortItem.upward

/-- `$PROXY_PORTS` in a rule. -/
def portMatch {w : Nat} : List (Match w) := args.proxyPorts.toList.map .dports

/-- The networks of the LAN access list: `${LAN_AC_IP:1}`. -/
def lanNets : List (Either Net) := (args.lanAc.map Prod.snd).getD []

/-- The IPv4 networks of the list, the contents of `over_lan_ac`. -/
def lanNets4 : List (Net 32) := args.lanNets.filterMap Either.v4?

/-- The IPv6 networks of the list. -/
def lanNets6 : List (Net 128) := args.lanNets.filterMap Either.v6?

/-- The contents of the IPv4 sets, `over_lan_ac` as lines 153–155 fill it. -/
def sets4 (sets : Sets 32) : Sets 32
  | .overLanAc, a => args.lanNets4.any fun n ↦ n.covers a
  | name, a => sets name a

end Args

/-- A command behind a test. -/
def onlyIf {α : Type} (c : Bool) (x : α) : List α := if c then [x] else []

/-! ## `ipset_r` -/

namespace Args

variable (args : Args)

/-- Chain `OVERWALL_WAN_FW` of either family, lines 48 and 199. -/
def wanFwChain {w : Nat} : Chain w :=
  onlyIf args.portsTaken (.stop (.proto .tcp :: args.portMatch) (.redirect args.localPort))

/-- The rule of a shunt, lines 103, 115, 127 and 139. -/
def shuntRule (name : SetName) (port : Option Nat) : Chain 32 :=
  port.toList.map fun p ↦ .stop [.proto .tcp, .set name .dst] (.redirect p)

/-- `-d $server -j RETURN`, behind a protocol, where the server has an address of the family. -/
def serverRule {w : Nat} (proto : List (Match w)) (server : Option (BitVec w)) : Chain w :=
  server.toList.map fun a ↦ .ret (proto ++ [.dst a])

/-- Lines 142–144: the rules of the sets. -/
def setRules : Chain 32 :=
  onlyIf (args.created .fplan) (.jump [.set .fplan .src] args.wanFwChain) ++
  onlyIf (args.created .blacklist) (.jump [.set .blacklist .dst] args.wanFwChain) ++
  onlyIf (args.created .gmlan)
    (.jump [.set .gmlan .src, .notSet .overV4 .dst] args.wanFwChain)

/-- Lines 146–150: the rule of the run mode. -/
def modeRule : Chain 32 :=
  match args.mode with
  | .router => [.jump [.notSet .overV4 .dst] args.wanFwChain]
  | .oversea => [.jump [.set .overV4 .dst] args.wanFwChain]
  | .all => [.jump [] args.wanFwChain]
  | .gfw => []

/-- Chain `OVERWALL_WAN_AC` of IPv4, lines 91–150. -/
def wanAcChain : Chain 32 :=
  serverRule [] args.server.v4? ++
  shuntRule .youtube args.yb ++ shuntRule .netflix args.nf ++
  shuntRule .custom args.cu ++ shuntRule .telegram args.tg ++
  [.ret [.set .overWanAc .dst]] ++ args.setRules ++ args.modeRule

/-- `$MATCH_SET`, lines 157–160. -/
def matchSet : List (Match 32) :=
  match args.lanAc with
  | none => []
  | some (.white, _) => [.set .overLanAc .src]
  | some (.black, _) => [.notSet .overLanAc .src]

/-- The IPv4 hook of a protocol in front of a chain, lines 163 and 248. -/
def hook4 (proto : Proto) (chain : Chain 32) : Chain 32 :=
  [.jump (.proto proto :: args.matchSet) chain]

/-- The hijack of DNS, lines 214–219. -/
def dnsHijack {w : Nat} : Chain w :=
  if args.y then
    [.stop [.proto .udp, .dport 53] (.redirect 53), .stop [.proto .tcp, .dport 53] (.redirect 53)]
  else []

/-- Chain `PREROUTING` of the IPv4 table `nat`. -/
def natPrerouting4 : Chain 32 := args.dnsHijack ++ args.hook4 .tcp args.wanAcChain

/-- The listed IPv6 networks leave the chain in black mode, line 202. -/
def acRules6 : Chain 128 :=
  match args.lanAc with
  | some (.black, _) => args.lanNets6.map fun n ↦ .ret [.src n]
  | _ => []

/-- Chain `OVERWALL_WAN_AC` of IPv6 behind that, lines 203–204. -/
def wanAcRules6 : Chain 128 :=
  [.ret [.set .overWanAcV6 .dst], .jump [.notSet .overV6 .dst] args.wanFwChain]

/-- Chain `OVERWALL_WAN_AC` of IPv6, lines 200–204. -/
def wanAcChain6 : Chain 128 := serverRule [] args.server.v6? ++ args.acRules6 ++ args.wanAcRules6

/-- The IPv6 TCP hooks in front of a chain, lines 205–209; each goes in front of those before. -/
def hook6Tcp (chain : Chain 128) : Chain 128 :=
  match args.lanAc with
  | some (.white, _) => args.lanNets6.reverse.map fun n ↦ .jump [.proto .tcp, .src n] chain
  | _ => [.jump [.proto .tcp] chain]

/-- Chain `PREROUTING` of the IPv6 table `nat`. -/
def natPrerouting6 : Chain 128 :=
  args.dnsHijack ++ (if args.mode = .router then args.hook6Tcp args.wanAcChain6 else [])

/-! ## `tp_rule` -/

/-- A UDP rule with `$PROXY_PORTS`. -/
def tproxyRule {w : Nat} (guard : List (Match w)) (port : Nat) : Chain w :=
  onlyIf args.portsTaken (.stop (.proto .udp :: args.portMatch ++ guard) (.tproxy port))

/-- Lines 228–234: no QUIC to what is proxied. -/
def quicRules : Chain 32 :=
  onlyIf (args.created .overV4)
    (.stop [.proto .udp, if args.mode = .oversea then .set .overV4 .dst else .notSet .overV4 .dst,
      .dport 443] .drop) ++
  onlyIf (args.created .blacklist) (.stop [.proto .udp, .set .blacklist .dst, .dport 443] .drop)

/-- Lines 238–240: the rules of the sets. -/
def udpSetRules (port : Nat) : Chain 32 :=
  (if args.created .fplan then args.tproxyRule [.set .fplan .src] port else []) ++
  (if args.created .blacklist then args.tproxyRule [.set .blacklist .dst] port else []) ++
  onlyIf (args.created .gmlan)
    (.stop [.proto .udp, .set .gmlan .src, .notSet .overV4 .dst] (.tproxy port))

/-- Lines 242–246: the rule of the run mode. -/
def udpModeRule (port : Nat) : Chain 32 :=
  match args.mode with
  | .router => args.tproxyRule [.notSet .overV4 .dst] port
  | .oversea => args.tproxyRule [.set .overV4 .dst] port
  | .all => args.tproxyRule [] port
  | .gfw => []

/-- Chain `OVERWALL_TPROXY` of IPv4, lines 227–246. -/
def tproxyChain (server : Either BitVec) (port : Nat) : Chain 32 :=
  args.quicRules ++ [.ret [.proto .udp, .dport 53]] ++ serverRule [.proto .udp] server.v4? ++
  [.ret [.proto .udp, .set .overWanAc .dst]] ++ args.udpSetRules port ++ args.udpModeRule port

/-- Chain `PREROUTING` of the IPv4 table `mangle`. -/
def manglePrerouting4 : Chain 32 :=
  match args.relay with
  | none => []
  | some (server, port) => args.hook4 .udp (args.tproxyChain server port)

/-- Chain `OVERWALL_TPROXY` of IPv6, lines 254–259. -/
def tproxyChain6 (server : Either BitVec) (port : Nat) : Chain 128 :=
  [.stop [.proto .udp, .notSet .overV6 .dst, .dport 443] .drop,
    .ret [.proto .udp, .dport 53]] ++ serverRule [.proto .udp] server.v6? ++
  [.ret [.proto .udp, .set .overWanAcV6 .dst]] ++ args.tproxyRule [.notSet .overV6 .dst] port

/-- The IPv6 UDP hook in front of a chain, line 260. -/
def hook6Udp (chain : Chain 128) : Chain 128 := [.jump [.proto .udp] chain]

/-- Chain `PREROUTING` of the IPv6 table `mangle`. -/
def manglePrerouting6 : Chain 128 :=
  match args.relay with
  | none => []
  | some (server, port) =>
    if args.mode = .router then hook6Udp (args.tproxyChain6 server port) else []

end Args

end OpenWrtCompile.Overwall
