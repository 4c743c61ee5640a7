import OpenWrtCompile.Overwall.Routing

/-!
# LAN access control in the overwall rules

`luci-app-overwall/root/usr/share/overwall/rules:152–163, 198–209, 248–261`: whether the hooks of
the four families of packets, with the rules that let listed sources leave the chain, send a packet
to the rules that proxy.
-/

namespace OpenWrtCompile.Overwall
open OpenWrtCompile.Base

/-- A packet of either family. -/
inductive Packet
  | v4 (proto : Proto) (flow : Flow 32)
  | v6 (proto : Proto) (flow : Flow 128)

/-- The LAN address that sends the packet. -/
def Packet.source : Packet → Either BitVec
  | .v4 _ f => .v4 f.src
  | .v6 _ f => .v6 f.src

/-- The packet is UDP over IPv6. -/
def Packet.isUdp6 : Packet → Bool
  | .v6 .udp _ => true
  | _ => false

/-- The contents of the sets of both families. -/
structure AllSets where
  v4 : Sets 32
  v6 : Sets 128

section Hooks

variable (args : Args) (sets : AllSets)

/-- The hook of a protocol exists in IPv4. -/
def Args.hooked4 : Proto → Bool
  | .tcp => true
  | .udp => args.relay.isSome

/-- The hook of a protocol exists in IPv6. -/
def Args.hooked6 : Proto → Bool
  | .tcp => args.mode = .router
  | .udp => args.relay.isSome && args.mode = .router

/-- The hook for packets like this one exists. -/
def Args.hooked : Packet → Bool
  | .v4 proto _ => args.hooked4 proto
  | .v6 proto _ => args.hooked6 proto

/-- The IPv4 hook of a protocol, where it exists, with the rules `rest` of the proxy chain. -/
def Args.entrance4 (proto : Proto) (rest : Chain 32) : Chain 32 :=
  if args.hooked4 proto then args.hook4 proto rest else []

/-- The IPv6 hooks of a protocol, where they exist, with the rules of the list and those behind. -/
def Args.entrance6 (proto : Proto) (rest : Chain 128) : Chain 128 :=
  if args.hooked6 proto then
    match proto with
    | .tcp => args.hook6Tcp (args.acRules6 ++ rest)
    | .udp => Args.hook6Udp rest
  else []

/-- A chain that takes whatever is sent into it. -/
def takeAll {w : Nat} : Chain w := [.stop [] .drop]

/-- The packet is sent to the rules of the proxy chain, for which `takeAll` stands. -/
def Args.Sent : Packet → Prop
  | .v4 proto f =>
    (traverseChain (Match.holds (args.sets4 sets.v4) proto f) (args.entrance4 proto takeAll)).isSome
  | .v6 proto f => (traverseChain (Match.holds sets.v6 proto f) (args.entrance6 proto takeAll)).isSome

/-! ## The list -/

/-- The listed IPv6 networks hold what the list holds. -/
theorem lanNets6_any (a : BitVec 128) :
    (args.lanNets6.any fun n ↦ n.covers a) = args.lanNets.any fun n ↦ n.holds (.v6 a) := by
  rw [Args.lanNets6, List.any_filterMap]
  congr 1
  funext n
  cases n with
  | v4 n => rfl
  | v6 n => rfl

/-- A white list admits the IPv6 sources it holds. -/
theorem admits_white {nets : List (Either Net)} (h : args.lanAc = some (.white, nets))
    (a : BitVec 128) : args.admits (.v6 a) = args.lanNets6.any fun n ↦ n.covers a := by
  rw [lanNets6_any, Args.lanNets, Args.admits, h]
  rfl

/-- A black list admits the IPv6 sources it does not hold. -/
theorem admits_black {nets : List (Either Net)} (h : args.lanAc = some (.black, nets))
    (a : BitVec 128) : args.admits (.v6 a) = !args.lanNets6.any fun n ↦ n.covers a := by
  rw [lanNets6_any, Args.lanNets, Args.admits, h]
  rfl

/-- The IPv6 TCP hooks and the rules of the list send a packet on where the list admits its
source. -/
theorem traverse_hook6Tcp (s : Sets 128) (f : Flow 128) (rest : Chain 128) :
    traverseChain (Match.holds s .tcp f) (args.hook6Tcp (args.acRules6 ++ rest)) =
      if args.admits (.v6 f.src) then traverseChain (Match.holds s .tcp f) rest else none := by
  have hproto : Match.holds s .tcp f (.proto .tcp) = true := rfl
  cases hac : args.lanAc with
  | none => simp [Args.hook6Tcp, Args.acRules6, Args.admits, hac, hproto]
  | some ac =>
    obtain ⟨mode, nets⟩ := ac
    cases mode with
    | white =>
      -- one hook for each listed network
      have hjumps := @traverse_jumps _ _ (Match.holds s .tcp f)
        (args.lanNets6.reverse.map fun n ↦ [.proto .tcp, .src n]) rest
      rw [List.map_map, List.any_map, List.any_reverse] at hjumps
      rw [Args.hook6Tcp, Args.acRules6, admits_white args hac, hac]
      apply hjumps.trans
      simp [Match.holds]
    | black =>
      -- one hook, behind which the listed networks leave the chain
      have hrets := @traverse_rets _ _ (Match.holds s .tcp f)
        (args.lanNets6.map fun n ↦ [.src n]) rest
      rw [List.map_map, List.any_map] at hrets
      rw [Args.hook6Tcp, Args.acRules6, admits_black args hac, hac]
      show traverseChain _ [.jump [.proto .tcp] (args.lanNets6.map _ ++ rest)] = _
      rw [traverse_jump, traverse_nil, Option.or_none]
      apply Eq.trans (if_pos (by simp [hproto]))
      apply hrets.trans
      have hguard : ((fun g : List (Match 128) ↦ g.all (Match.holds s .tcp f)) ∘ fun n ↦ [.src n]) =
          fun n ↦ n.covers f.src := by
        funext n
        simp [Match.holds]
      rw [hguard]
      cases args.lanNets6.any fun n ↦ n.covers f.src <;> rfl

/-! ## Who is sent in -/

/-- Where its hook exists, a packet is sent in if the list admits its source, and over IPv6 UDP in
any case. -/
theorem sent_iff {pkt : Packet} (hhook : args.hooked pkt = true) :
    args.Sent sets pkt ↔ pkt.isUdp6 = true ∨ args.admits pkt.source = true := by
  cases pkt with
  | v4 proto f =>
    have hhook4 : args.hooked4 proto = true := hhook
    rw [Args.Sent, Args.entrance4, if_pos hhook4, traverse_hook4]
    simp [Packet.isUdp6, Packet.source, takeAll]
  | v6 proto f =>
    have hhook6 : args.hooked6 proto = true := hhook
    cases proto with
    | tcp =>
      have hent : args.entrance6 .tcp takeAll = args.hook6Tcp (args.acRules6 ++ takeAll) :=
        if_pos hhook6
      rw [Args.Sent, hent, traverse_hook6Tcp]
      simp [Packet.isUdp6, Packet.source, takeAll]
    | udp =>
      have hent : args.entrance6 .udp takeAll = Args.hook6Udp takeAll := if_pos hhook6
      rw [Args.Sent, hent]
      simp [Args.hook6Udp, Packet.isUdp6, takeAll, Match.holds]

/-- The hooks go by the list except over IPv6 UDP, where they send on what the list excludes. -/
theorem access_uniform_iff {pkt : Packet} (hhook : args.hooked pkt = true) :
    (args.Sent sets pkt ↔ args.admits pkt.source = true) ↔
      ¬ (pkt.isUdp6 = true ∧ args.admits pkt.source = false) := by
  rw [sent_iff args sets hhook]
  cases pkt.isUdp6 <;> cases args.admits pkt.source <;> simp

/-! ## The tables -/

/-- The IPv6 TCP hooks ask a chain for its verdict only. -/
theorem traverse_hook6Tcp_congr {s : Sets 128} {f : Flow 128} {c d : Chain 128}
    (h : traverseChain (Match.holds s .tcp f) c = traverseChain (Match.holds s .tcp f) d) :
    traverseChain (Match.holds s .tcp f) (args.hook6Tcp c) =
      traverseChain (Match.holds s .tcp f) (args.hook6Tcp d) := by
  have hjumps := fun chain ↦ @traverse_jumps _ Verdict (Match.holds s .tcp f)
    (args.lanNets6.reverse.map fun n ↦ [.proto .tcp, .src n]) chain
  simp only [List.map_map, Function.comp_def] at hjumps
  unfold Args.hook6Tcp
  split
  · rw [hjumps, hjumps, h]
  · rw [traverse_jump, traverse_jump, h]

/-- The rule of the server and the rules of the list may change places. -/
theorem traverse_acRules6_comm (s : Sets 128) (f : Flow 128) :
    traverseChain (Match.holds s .tcp f) args.wanAcChain6 =
      traverseChain (Match.holds s .tcp f)
        (args.acRules6 ++ (Args.serverRule [] args.server.v6? ++ args.wanAcRules6)) := by
  have hcomm := fun gs ↦ @traverse_rets_comm _ _ (Match.holds s .tcp f)
    (args.server.v6?.toList.map fun a ↦ [.dst a]) gs args.wanAcRules6
  simp only [List.map_map] at hcomm
  have hac : ∃ gs : List (List (Match 128)), args.acRules6 = gs.map .ret := by
    unfold Args.acRules6
    split
    · exact ⟨args.lanNets6.map fun n ↦ [.src n], by rw [List.map_map]; rfl⟩
    · exact ⟨[], rfl⟩
  obtain ⟨gs, hgs⟩ := hac
  rw [Args.wanAcChain6, List.append_assoc, hgs]
  exact hcomm gs

/-- What a TCP packet over IPv6 meets that is not for the DNS: the chain as it is without a list
where the list admits its source, nothing elsewhere. -/
theorem traverse_natPrerouting6 (s : Sets 128) (f : Flow 128) (hdns : f.dport ≠ 53) :
    traverseChain (Match.holds s .tcp f) args.natPrerouting6 =
      if args.mode = .router ∧ args.admits (.v6 f.src) = true then
        traverseChain (Match.holds s .tcp f) (Args.serverRule [] args.server.v6? ++ args.wanAcRules6)
      else none := by
  rw [Args.natPrerouting6, traverse_dnsHijack args s f .tcp hdns]
  by_cases hmode : args.mode = .router
  · rw [if_pos hmode, traverse_hook6Tcp_congr args (traverse_acRules6_comm args s f),
      traverse_hook6Tcp]
    simp [hmode]
  · simp [hmode]

/-- What a UDP packet over IPv6 meets: the list has no say. -/
theorem traverse_manglePrerouting6 (s : Sets 128) (f : Flow 128) {server : Either BitVec}
    {port : Nat} (hrelay : args.relay = some (server, port)) (hmode : args.mode = .router) :
    traverseChain (Match.holds s .udp f) args.manglePrerouting6 =
      traverseChain (Match.holds s .udp f) (args.tproxyChain6 server port) := by
  have hproto : Match.holds s .udp f (.proto .udp) = true := rfl
  simp only [Args.manglePrerouting6, hrelay, hmode, if_true, Args.hook6Udp, traverse_jump,
    List.all_cons, hproto, List.all_nil, Bool.and_true, traverse_nil, Option.or_none]

end Hooks

/-! ## An excluded host over IPv6 -/

/-- Run mode `router` on a server with an IPv4 address, the host fd00::9 on a black list. -/
def blackArgs : Args where
  server := .v4 0xCB007101#32
  localPort := 1234
  relay := some (.v4 0xCB007101#32, 1234)
  yb := none
  nf := none
  cu := none
  tg := none
  lanAc := some (.black, [.v6 ⟨0xFD000000000000000000000000000009#128, 128, by decide⟩])
  wanFw := []
  lanFp := []
  lanGm := []
  proxyPorts := none
  mode := .router
  x := false
  y := true
  blackList := false

/-- No set has an entry. -/
def noSets : AllSets := ⟨fun _ _ ↦ false, fun _ _ ↦ false⟩

/-- A packet of the host to 2001:4860:4860::8844, port 3074. -/
def hostFlow : Flow 128 :=
  ⟨0xFD000000000000000000000000000009#128, 0x20014860486000000000000000008844#128, 3074⟩

/-- Over TCP the host is not sent in. -/
theorem access_uniform_tcp6 :
    (blackArgs.Sent noSets (.v6 .tcp hostFlow) ↔
        blackArgs.admits (Packet.v6 .tcp hostFlow).source = true) ↔
      ¬ ((Packet.v6 .tcp hostFlow).isUdp6 = true ∧
        blackArgs.admits (Packet.v6 .tcp hostFlow).source = false) :=
  access_uniform_iff blackArgs noSets rfl

/-- Over UDP the host is sent in and proxied although the list excludes it. -/
theorem access_ignored_udp6 :
    blackArgs.hooked (.v6 .udp hostFlow) = true ∧
      ¬ (blackArgs.Sent noSets (.v6 .udp hostFlow) ↔
        blackArgs.admits (Packet.v6 .udp hostFlow).source = true) ∧
      traverseChain (Match.holds noSets.v6 .udp hostFlow) blackArgs.manglePrerouting6 =
        some (.tproxy 1234) := by
  have hadmits : blackArgs.admits (Packet.v6 .udp hostFlow).source = false := by decide
  refine ⟨rfl, ?_, by decide⟩
  intro h
  have hsent : blackArgs.Sent noSets (.v6 .udp hostFlow) := by
    unfold Args.Sent
    decide
  rw [h.mp hsent] at hadmits
  contradiction

end OpenWrtCompile.Overwall
