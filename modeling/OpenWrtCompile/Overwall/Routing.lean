import OpenWrtCompile.Overwall.Rules

/-!
# TCP and UDP through the overwall rules

What the IPv4 `PREROUTING` chains of `luci-app-overwall/root/usr/share/overwall/rules` do with the
packets of a LAN client, and when TCP and UDP are treated alike.
-/

namespace OpenWrtCompile.Overwall
open OpenWrtCompile.Base

/-! ## Commands behind a test -/

section OnlyIf

variable {w : Nat} {sat : Match w → Bool}

/-- A rule behind a test that sends the packet through a chain. -/
@[simp] theorem traverse_onlyIf_jump (c : Bool) (guard : List (Match w)) (chain rs : Chain w) :
    traverseChain sat (onlyIf c (.jump guard chain) ++ rs) =
      if c && guard.all sat then (traverseChain sat chain).or (traverseChain sat rs) else traverseChain sat rs := by
  cases c with
  | false => rfl
  | true => simp [onlyIf]

/-- A deciding rule behind a test. -/
@[simp] theorem traverse_onlyIf_stop (c : Bool) (guard : List (Match w)) (v : Verdict)
    (rs : Chain w) :
    traverseChain sat (onlyIf c (.stop guard v) ++ rs) =
      if c && guard.all sat then some v else traverseChain sat rs := by
  cases c with
  | false => rfl
  | true => simp [onlyIf]

end OnlyIf

/-! ## The LAN access list -/

/-- A listed network holds an address of its family. -/
def Either.holds : Either Net → Either BitVec → Bool
  | .v4 n, .v4 a => n.covers a
  | .v6 n, .v6 a => n.covers a
  | _, _ => false

/-- The LAN access list admits a source: a white list those it holds, a black list the others. -/
def Args.admits (args : Args) (src : Either BitVec) : Bool :=
  match args.lanAc with
  | none => true
  | some (.white, nets) => nets.any fun n ↦ n.holds src
  | some (.black, nets) => !nets.any fun n ↦ n.holds src

section Verdicts

variable (args : Args) (sets : Sets 32) (f : Flow 32)

/-- The set `over_lan_ac` holds what the list holds. -/
theorem lanNets4_any (a : BitVec 32) :
    (args.lanNets4.any fun n ↦ n.covers a) = args.lanNets.any fun n ↦ n.holds (.v4 a) := by
  rw [Args.lanNets4, List.any_filterMap]
  congr 1
  funext n
  cases n with
  | v4 n => rfl
  | v6 n => rfl

/-- The IPv4 hook of a protocol sends a packet on where the list admits its source. -/
theorem traverse_hook4 (proto : Proto) (chain : Chain 32) :
    traverseChain (Match.holds (args.sets4 sets) proto f) (args.hook4 proto chain) =
      if args.admits (.v4 f.src) then
        traverseChain (Match.holds (args.sets4 sets) proto f) chain
      else none := by
  have hnets := lanNets4_any args f.src
  rw [Args.lanNets] at hnets
  rw [Args.hook4, traverse_jump, traverse_nil, Option.or_none, Args.matchSet, Args.admits]
  cases hac : args.lanAc with
  | none => simp [Match.holds]
  | some ac =>
    obtain ⟨mode, nets⟩ := ac
    rw [hac] at hnets
    cases mode with
    | white => simp [Match.holds, Side.of, Args.sets4, hnets]
    | black => simp [Match.holds, Side.of, Args.sets4, hnets]

/-- `$PROXY_PORTS` lets a port through. -/
def Args.portAdmitted (args : Args) (n : UInt16) : Bool :=
  args.portsTaken && args.proxyPorts.all fun items ↦ items.any (PortItem.names n)

/-- The matches of `$PROXY_PORTS` are met. -/
theorem portMatch_all (proto : Proto) :
    (args.portMatch.all (Match.holds sets proto f)) =
      args.proxyPorts.all fun items ↦ items.any (PortItem.names f.dport) := by
  unfold Args.portMatch
  cases args.proxyPorts with
  | none => rfl
  | some items => simp [Match.holds]

/-- Chain `OVERWALL_WAN_FW` redirects the ports of `$PROXY_PORTS`. -/
theorem traverse_wanFwChain :
    traverseChain (Match.holds sets .tcp f) args.wanFwChain =
      if args.portAdmitted f.dport then some (.redirect args.localPort) else none := by
  have h := @traverse_onlyIf_stop _ (Match.holds sets .tcp f) args.portsTaken
    (.proto .tcp :: args.portMatch) (.redirect args.localPort) []
  rw [List.append_nil, List.all_cons, portMatch_all, traverse_nil] at h
  simpa [Args.wanFwChain, Args.portAdmitted, Match.holds] using h

/-- A UDP rule with `$PROXY_PORTS` takes the packets of these ports that meet its other matches. -/
theorem traverse_tproxyRule (guard : List (Match 32)) (port : Nat) (rs : Chain 32) :
    traverseChain (Match.holds sets .udp f) (args.tproxyRule guard port ++ rs) =
      if args.portAdmitted f.dport && guard.all (Match.holds sets .udp f) then some (.tproxy port)
      else traverseChain (Match.holds sets .udp f) rs := by
  rw [Args.tproxyRule, traverse_onlyIf_stop, List.cons_append, List.all_cons, List.all_append,
    portMatch_all]
  simp [Args.portAdmitted, Match.holds, Bool.and_assoc]

/-! ## What the chains look for -/

/-- The run mode proxies the destination. -/
def Args.modeWanted (args : Args) (sets : Sets 32) (f : Flow 32) : Bool :=
  match args.mode with
  | .router => !sets .overV4 f.dst
  | .oversea => sets .overV4 f.dst
  | .all => true
  | .gfw => false

/-- The packet is of a forced source, for a forced destination, or for one of the run mode. -/
def Args.wanted (args : Args) (sets : Sets 32) (f : Flow 32) : Bool :=
  (args.created .fplan && sets .fplan f.src) || (args.created .blacklist && sets .blacklist f.dst) ||
    args.modeWanted sets f

/-- The packet is of a source of `gmlan` and goes abroad. -/
def Args.gmWanted (args : Args) (sets : Sets 32) (f : Flow 32) : Bool :=
  args.created .gmlan && (sets .gmlan f.src && !sets .overV4 f.dst)

/-- The destination is in the set of an active shunt. -/
def Args.shunted (args : Args) (sets : Sets 32) (dst : BitVec 32) : Bool :=
  (args.yb.isSome && sets .youtube dst) || (args.nf.isSome && sets .netflix dst) ||
    (args.cu.isSome && sets .custom dst) || (args.tg.isSome && sets .telegram dst)

/-- The TCP packet is redirected to the main proxy. -/
def Args.Redirected (args : Args) (sets : Sets 32) (f : Flow 32) : Prop :=
  traverseChain (Match.holds (args.sets4 sets) .tcp f) args.natPrerouting4 =
    some (.redirect args.localPort)

/-- The UDP packet is sent to the UDP relay at a port. -/
def Args.Tproxied (args : Args) (sets : Sets 32) (f : Flow 32) (port : Nat) : Prop :=
  traverseChain (Match.holds (args.sets4 sets) .udp f) args.manglePrerouting4 = some (.tproxy port)

/-- The TCP rule of the run mode. -/
theorem traverse_modeRule :
    traverseChain (Match.holds (args.sets4 sets) .tcp f) args.modeRule =
      if args.modeWanted sets f then
        traverseChain (Match.holds (args.sets4 sets) .tcp f) args.wanFwChain
      else none := by
  unfold Args.modeRule Args.modeWanted
  cases args.mode with
  | router => simp [Match.holds, Side.of, Args.sets4]
  | oversea => simp [Match.holds, Side.of, Args.sets4]
  | all => simp
  | gfw => rfl

/-- The UDP rule of the run mode. -/
theorem traverse_udpModeRule (port : Nat) :
    traverseChain (Match.holds (args.sets4 sets) .udp f) (args.udpModeRule port) =
      if args.modeWanted sets f && args.portAdmitted f.dport then some (.tproxy port) else none := by
  have htproxy := fun guard ↦ traverse_tproxyRule args (args.sets4 sets) f guard port []
  simp only [List.append_nil, traverse_nil] at htproxy
  unfold Args.udpModeRule Args.modeWanted
  cases args.mode with
  | router => simp [htproxy, Match.holds, Side.of, Args.sets4, and_comm]
  | oversea => simp [htproxy, Match.holds, Side.of, Args.sets4, and_comm]
  | all => simp [htproxy]
  | gfw => rfl

/-- The packet meets the rule of `fplan`. -/
theorem fplan_all (proto : Proto) :
    [Match.set .fplan .src].all (Match.holds (args.sets4 sets) proto f) = sets .fplan f.src := by
  simp [Match.holds, Side.of, Args.sets4]

/-- The packet meets the rule of `blacklist`. -/
theorem blacklist_all (proto : Proto) :
    [Match.set .blacklist .dst].all (Match.holds (args.sets4 sets) proto f) =
      sets .blacklist f.dst := by
  simp [Match.holds, Side.of, Args.sets4]

/-- The packet meets the rule of `gmlan`. -/
theorem gmlan_all (proto : Proto) :
    [Match.set .gmlan .src, .notSet .overV4 .dst].all (Match.holds (args.sets4 sets) proto f) =
      (sets .gmlan f.src && !sets .overV4 f.dst) := by
  simp [Match.holds, Side.of, Args.sets4]

/-- The TCP rules behind those that let packets leave the chain: all of them go by the ports. -/
theorem traverse_setRules :
    traverseChain (Match.holds (args.sets4 sets) .tcp f) (args.setRules ++ args.modeRule) =
      if (args.wanted sets f || args.gmWanted sets f) && args.portAdmitted f.dport then
        some (.redirect args.localPort)
      else none := by
  rw [Args.setRules, List.append_assoc, List.append_assoc, traverse_onlyIf_jump,
    traverse_onlyIf_jump, traverse_onlyIf_jump, traverse_modeRule, traverse_wanFwChain, fplan_all,
    blacklist_all, gmlan_all, Args.wanted, Args.gmWanted]
  by_cases hport : args.portAdmitted f.dport
  · simp only [hport, if_true, Bool.and_true, Option.some_or]
    generalize (args.created .fplan && sets .fplan f.src) = p
    generalize (args.created .blacklist && sets .blacklist f.dst) = q
    generalize (args.created .gmlan && (sets .gmlan f.src && !sets .overV4 f.dst)) = g
    generalize args.modeWanted sets f = m
    cases p <;> cases q <;> cases g <;> cases m <;> rfl
  · simp only [hport, Bool.false_eq_true, if_false, Bool.and_false, Option.none_or, ite_self]

/-- A rule of a set with `$PROXY_PORTS`, behind the test that the set exists. -/
theorem traverse_if_tproxyRule (c : Bool) (guard : List (Match 32)) (port : Nat) (rs : Chain 32) :
    traverseChain (Match.holds sets .udp f) ((if c then args.tproxyRule guard port else []) ++ rs) =
      if (c && guard.all (Match.holds sets .udp f)) && args.portAdmitted f.dport then
        some (.tproxy port)
      else traverseChain (Match.holds sets .udp f) rs := by
  cases c with
  | false => rfl
  | true => simp [traverse_tproxyRule, and_comm]

/-- The UDP rules behind those that let packets leave the chain: the rule of `gmlan` takes every
port. -/
theorem traverse_udpSetRules (port : Nat) :
    traverseChain (Match.holds (args.sets4 sets) .udp f)
        (args.udpSetRules port ++ args.udpModeRule port) =
      if (args.wanted sets f && args.portAdmitted f.dport) || args.gmWanted sets f then
        some (.tproxy port)
      else none := by
  rw [Args.udpSetRules, List.append_assoc, List.append_assoc, traverse_if_tproxyRule,
    traverse_if_tproxyRule, traverse_onlyIf_stop, traverse_udpModeRule, fplan_all, blacklist_all,
    List.all_cons, gmlan_all, Args.wanted, Args.gmWanted]
  have hproto : Match.holds (args.sets4 sets) .udp f (.proto .udp) = true := rfl
  rw [hproto, Bool.true_and]
  generalize (args.created .fplan && sets .fplan f.src) = p
  generalize (args.created .blacklist && sets .blacklist f.dst) = q
  generalize (args.created .gmlan && (sets .gmlan f.src && !sets .overV4 f.dst)) = g
  generalize args.modeWanted sets f = m
  generalize args.portAdmitted f.dport = n
  cases p <;> cases q <;> cases g <;> cases m <;> cases n <;> rfl

/-! ## The fate of a packet -/

/-- The packet is for the proxy server itself or for a destination that is never proxied. -/
def Bypassed (server : Either BitVec) (sets : Sets 32) (dst : BitVec 32) : Prop :=
  server.v4? = some dst ∨ sets .overWanAc dst = true

instance (server : Either BitVec) (sets : Sets 32) (dst : BitVec 32) :
    Decidable (Bypassed server sets dst) := inferInstanceAs (Decidable (_ ∨ _))

/-- The two rules that let a packet leave the chain, in front of one decision. -/
theorem ite_bypassed (admitted : Bool) (server : Either BitVec) (dst : BitVec 32)
    (wanted : Bool) (v : Verdict) :
    (if admitted then
      if server.v4? = some dst then none
      else if sets .overWanAc dst then none else if wanted then some v else none
    else none) =
      if admitted = true ∧ ¬ Bypassed server sets dst ∧ wanted = true then some v else none := by
  unfold Bypassed
  cases admitted with
  | false => simp
  | true =>
    by_cases hserver : server.v4? = some dst
    · simp [hserver]
    · by_cases hset : sets .overWanAc dst = true
      · simp [hset]
      · simp [hserver, hset]


/-- The packets for the proxy server leave the chain. -/
theorem traverse_serverRule (proto : Proto) (guard : List (Match 32))
    (hguard : guard.all (Match.holds sets proto f) = true) (server : Option (BitVec 32))
    (rs : Chain 32) :
    traverseChain (Match.holds sets proto f) (Args.serverRule guard server ++ rs) =
      if server = some f.dst then none else traverseChain (Match.holds sets proto f) rs := by
  cases server with
  | none => rfl
  | some a =>
    simp only [Args.serverRule, Option.toList_some, List.map_cons, List.map_nil,
      List.singleton_append, traverse_ret, List.all_append, hguard, Bool.true_and, List.all_cons,
      List.all_nil, Bool.and_true, Match.holds, decide_eq_true_eq, Option.some.injEq]
    simp only [eq_comm]

/-- The rule of a shunt lets the other packets by. -/
theorem traverse_shuntRule (name : SetName) (port : Option Nat)
    (h : (port.isSome && sets name f.dst) = false) (rs : Chain 32) :
    traverseChain (Match.holds sets .tcp f) (Args.shuntRule name port ++ rs) =
      traverseChain (Match.holds sets .tcp f) rs := by
  cases port with
  | none => rfl
  | some p =>
    rw [Option.isSome_some, Bool.true_and] at h
    simp [Args.shuntRule, Match.holds, Side.of, h]

/-- The hijack of the DNS lets the packets to other ports by. -/
theorem traverse_dnsHijack {w : Nat} (sets : Sets w) (f : Flow w) (proto : Proto)
    (hdns : f.dport ≠ 53) (rs : Chain w) :
    traverseChain (Match.holds sets proto f) (args.dnsHijack ++ rs) =
      traverseChain (Match.holds sets proto f) rs := by
  unfold Args.dnsHijack
  split
  · simp [Match.holds, hdns]
  · rfl

/-- What a TCP packet meets that is neither for a shunt nor for the DNS. -/
theorem traverse_natPrerouting4 (hshunt : args.shunted sets f.dst = false) (hdns : f.dport ≠ 53) :
    traverseChain (Match.holds (args.sets4 sets) .tcp f) args.natPrerouting4 =
      if args.admits (.v4 f.src) = true ∧ ¬ Bypassed args.server sets f.dst ∧
          ((args.wanted sets f || args.gmWanted sets f) && args.portAdmitted f.dport) = true then
        some (.redirect args.localPort)
      else none := by
  simp only [Args.shunted, Bool.or_eq_false_iff] at hshunt
  obtain ⟨⟨⟨hyb, hnf⟩, hcu⟩, htg⟩ := hshunt
  rw [Args.natPrerouting4, traverse_dnsHijack args _ f .tcp hdns, traverse_hook4, Args.wanAcChain]
  simp only [List.append_assoc]
  rw [traverse_serverRule _ _ .tcp [] rfl, traverse_shuntRule (args.sets4 sets) f .youtube args.yb hyb,
    traverse_shuntRule (args.sets4 sets) f .netflix args.nf hnf,
    traverse_shuntRule (args.sets4 sets) f .custom args.cu hcu,
    traverse_shuntRule (args.sets4 sets) f .telegram args.tg htg, List.singleton_append, traverse_ret,
    traverse_setRules]
  have hset : [Match.set .overWanAc .dst].all (Match.holds (args.sets4 sets) .tcp f) =
      sets .overWanAc f.dst := by
    simp [Match.holds, Side.of, Args.sets4]
  rw [hset, ite_bypassed]

/-- What a UDP packet meets that is neither for the DNS nor QUIC. -/
theorem traverse_manglePrerouting4 {server : Either BitVec} {port : Nat}
    (hrelay : args.relay = some (server, port)) (hdns : f.dport ≠ 53) (hquic : f.dport ≠ 443) :
    traverseChain (Match.holds (args.sets4 sets) .udp f) args.manglePrerouting4 =
      if args.admits (.v4 f.src) = true ∧ ¬ Bypassed server sets f.dst ∧
          (args.wanted sets f && args.portAdmitted f.dport || args.gmWanted sets f) = true then
        some (.tproxy port)
      else none := by
  have hrules : traverseChain (Match.holds (args.sets4 sets) .udp f) args.manglePrerouting4 =
      traverseChain (Match.holds (args.sets4 sets) .udp f)
        (args.hook4 .udp (args.tproxyChain server port)) := by
    rw [Args.manglePrerouting4, hrelay]
  rw [hrules, traverse_hook4, Args.tproxyChain, Args.quicRules]
  simp only [List.append_assoc]
  have hset : [Match.proto .udp, .set .overWanAc .dst].all
      (Match.holds (args.sets4 sets) .udp f) = sets .overWanAc f.dst := by
    simp [Match.holds, Side.of, Args.sets4]
  have hno53 : [Match.proto .udp, .dport 53].all (Match.holds (args.sets4 sets) .udp f) = false := by
    simp [Match.holds, hdns]
  have hno443 : ∀ m, [Match.proto .udp, m, .dport 443].all (Match.holds (args.sets4 sets) .udp f) =
      false := by
    simp [Match.holds, hquic]
  rw [traverse_onlyIf_stop, traverse_onlyIf_stop, hno443, hno443, Bool.and_false, Bool.and_false,
    List.singleton_append, traverse_ret, hno53, traverse_serverRule _ _ .udp [.proto .udp] rfl,
    List.singleton_append, traverse_ret, hset, traverse_udpSetRules]
  simp only [Bool.false_eq_true, if_false]
  exact ite_bypassed sets _ server f.dst _ _

/-- With the UDP relay on the main server, TCP and UDP to one destination are treated alike except
where the rule of `gmlan` takes a UDP packet whose port `$PROXY_PORTS` does not let through. -/
theorem routing_agrees_iff {port : Nat} (hrelay : args.relay = some (args.server, port))
    (hshunt : args.shunted sets f.dst = false) (hserver : args.server.v4? ≠ some f.dst)
    (hdns : f.dport ≠ 53) (hquic : f.dport ≠ 443) :
    (args.Redirected sets f ↔ args.Tproxied sets f port) ↔
      ¬ (args.admits (.v4 f.src) = true ∧ sets .overWanAc f.dst = false ∧
        args.gmWanted sets f = true ∧ args.portAdmitted f.dport = false) := by
  have hbypass : Bypassed args.server sets f.dst ↔ sets .overWanAc f.dst = true :=
    or_iff_right hserver
  rw [Args.Redirected, Args.Tproxied, traverse_natPrerouting4 args sets f hshunt hdns,
    traverse_manglePrerouting4 args sets f hrelay hdns hquic]
  simp only [hbypass, Option.ite_none_right_eq_some, and_true]
  by_cases hac : args.admits (.v4 f.src) = true
  · by_cases hset : sets .overWanAc f.dst = true
    · simp [hset]
    · cases hgm : args.gmWanted sets f <;> cases hport : args.portAdmitted f.dport <;>
        simp [hac, hset]
  · simp [hac]

end Verdicts

/-! ## A game source behind a port list -/

/-- Run mode `gfw` with ports 80 and 443, the source 192.168.1.9 in `gmlan`, and the UDP relay on
the main server 203.0.113.1. -/
def gameArgs : Args where
  server := .v4 0xCB007101#32
  localPort := 1234
  relay := some (.v4 0xCB007101#32, 1234)
  yb := none
  nf := none
  cu := none
  tg := none
  lanAc := none
  wanFw := []
  lanFp := []
  lanGm := [Net.single 0xC0A80109#32]
  proxyPorts := some [.port 80, .port 443]
  mode := .gfw
  x := false
  y := true
  blackList := false

/-- Only `gmlan` has an entry. -/
def gameSets : Sets 32
  | .gmlan, a => a == 0xC0A80109#32
  | _, _ => false

/-- A packet of the source to 8.8.4.4. -/
def gameFlow (dport : UInt16) : Flow 32 := ⟨0xC0A80109#32, 0x08080404#32, dport⟩

/-- To port 80 both are proxied. -/
theorem routing_agrees_port_80 :
    (gameArgs.Redirected gameSets (gameFlow 80) ↔
        gameArgs.Tproxied gameSets (gameFlow 80) 1234) ↔
      ¬ (gameArgs.admits (.v4 (gameFlow 80).src) = true ∧
        gameSets .overWanAc (gameFlow 80).dst = false ∧
        gameArgs.gmWanted gameSets (gameFlow 80) = true ∧
        gameArgs.portAdmitted (gameFlow 80).dport = false) :=
  routing_agrees_iff gameArgs gameSets (gameFlow 80) rfl rfl (by decide) (by decide) (by decide)

/-- To port 3074 UDP is proxied and TCP is not. -/
theorem routing_differs_port_3074 :
    gameArgs.relay = some (gameArgs.server, 1234) ∧
      gameArgs.shunted gameSets (gameFlow 3074).dst = false ∧
      gameArgs.server.v4? ≠ some (gameFlow 3074).dst ∧
      ¬ (gameArgs.Redirected gameSets (gameFlow 3074) ↔
        gameArgs.Tproxied gameSets (gameFlow 3074) 1234) := by
  refine ⟨rfl, rfl, by decide, ?_⟩
  intro h
  have htcp : ¬ gameArgs.Redirected gameSets (gameFlow 3074) := by
    unfold Args.Redirected
    decide
  apply htcp
  apply h.mpr
  unfold Args.Tproxied
  decide

end OpenWrtCompile.Overwall
