import OpenWrtCompile.Base.FirstFree
import Mathlib.Data.List.Basic

/-!
# The port plan of the overwall rules

`luci-app-overwall/root/etc/init.d/overwall:257–459`, from the choice of the servers to the last
shunt. Section names and addresses are any types; the literal test with `nslookup` behind it is a
parameter. A port is a number, an unset variable is `none`.
-/

namespace OpenWrtCompile.Overwall
open OpenWrtCompile.Base

universe u v

/-- Option `type` of a node, with the type that `get_type` adds. -/
inductive NodeType
  | ss | ssr | vmess | vless | trojan | naiveproxy | socks5 | tun | ss2022
  deriving DecidableEq, Repr

/-- Option `encrypt_method_ss`: the methods `get_type` names, or another. -/
inductive EncryptMethod
  | blake3Aes128Gcm | blake3Aes256Gcm | blake3Chacha20Poly1305 | other
  deriving DecidableEq, Repr

/-- Option `run_mode`. -/
inductive RunMode
  | router | gfw | oversea | all
  deriving DecidableEq, Repr

/-- The options of a node that the plan reads. -/
structure Node (α : Type u) where
  server : Option α
  localPort : Option Nat
  type : NodeType
  encryptMethodSs : EncryptMethod
  kcpEnable : Bool

/-- Option `udp_relay_server`: the main node, or a node by name. -/
inductive UdpRelay (ν : Type v)
  | same
  | node (name : ν)

/-- The configuration that the plan reads. -/
structure Config (ν : Type v) (α : Type u) where
  runMode : RunMode
  node : ν → Option (Node α)
  globalServer : ν
  udpRelayServer : Option (UdpRelay ν)
  ybServer : Option ν
  nfServer : Option ν
  cuServer : Option ν
  tgServer : Option ν

/-- Where a proxy process goes to, the port it listens on, and its type. -/
structure Proxy (β : Type u) where
  ip : β
  port : Nat
  type : NodeType

/-- The proxies of a start: the main one, the UDP relay and the shunts. -/
structure Plan (β : Type u) where
  main : Proxy β
  udp : Option (Proxy β)
  yb : Option (Proxy β)
  nf : Option (Proxy β)
  cu : Option (Proxy β)
  tg : Option (Proxy β)

section Nodes

variable {ν : Type v} {α : Type u}

/-- `uci_get_by_name $1 server`. -/
def Config.server (cfg : Config ν α) (n : ν) : Option α := (cfg.node n).bind Node.server

/-- `uci_get_by_name $1 local_port 1234`. -/
def Config.localPort (cfg : Config ν α) (n : ν) : Nat := ((cfg.node n).bind Node.localPort).getD 1234

/-- `get_type`, lines 256–261. -/
def Node.getType (n : Node α) : NodeType :=
  match n.encryptMethodSs with
  | .blake3Aes128Gcm | .blake3Aes256Gcm | .blake3Chacha20Poly1305 => .ss2022
  | .other => n.type

/-- `get_type $1`, nothing for a name without a node. -/
def Config.getType (cfg : Config ν α) (n : ν) : Option NodeType := (cfg.node n).map Node.getType

end Nodes

section Selection

variable {ν : Type v} {α : Type u} [DecidableEq ν]

/-- `UDP_RELAY_SERVER` after lines 287–293. -/
def Config.udpServer (cfg : Config ν α) : Option ν :=
  let chosen := cfg.udpRelayServer.map fun
    | .same => cfg.globalServer
    | .node n => n
  let usable := chosen.filter fun n ↦ (cfg.server n).isSome
  usable.filter fun n ↦ !((cfg.node n).any Node.kcpEnable)

/-- `[ "$X" = $GLOBAL_SERVER ] && X_GL=1 || [ ! $(uci_get_by_name $X server) ] && X=`. -/
def Config.ownServer (cfg : Config ν α) (n : Option ν) : Option ν :=
  n.filter fun n ↦ n ≠ cfg.globalServer && (cfg.server n).isSome

/-- `[ "$Y" -a "$X" = "$Y" ] && … && X=`. -/
def dropSame (earlier n : Option ν) : Option ν := if earlier.isSome ∧ n = earlier then none else n

/-- `YB_SERVER` after lines 294–310. -/
def Config.yb (cfg : Config ν α) : Option ν :=
  if cfg.runMode = .oversea then none else cfg.ownServer cfg.ybServer

/-- `NF_SERVER` after lines 294–310. -/
def Config.nf (cfg : Config ν α) : Option ν :=
  if cfg.runMode = .oversea then none else dropSame cfg.yb (cfg.ownServer cfg.nfServer)

/-- `CU_SERVER` after lines 294–310. -/
def Config.cu (cfg : Config ν α) : Option ν :=
  if cfg.runMode = .oversea then none
  else dropSame cfg.nf (dropSame cfg.yb (cfg.ownServer cfg.cuServer))

/-- `TG_SERVER` after lines 294–310. -/
def Config.tg (cfg : Config ν α) : Option ν :=
  if cfg.runMode = .oversea then none
  else dropSame cfg.cu (dropSame cfg.nf (dropSame cfg.yb (cfg.ownServer cfg.tgServer)))

end Selection

/-- `[ $x = "$y" ] && let x=x+1` for each `y`, those that are unset apart. -/
def bump (port : Nat) (others : List (Option Nat)) : Nat := skip (others.filterMap id) port

/-- `udp_local_port` after line 354. -/
def udpLocalPort (configured localPort : Nat) (ttype utype : Option NodeType) : Nat :=
  if (ttype = some .trojan ∨ utype = some .trojan) ∧ configured = localPort then localPort + 1
  else configured

/-- `udp_local_port` where a shunt is compared with it: `utype` or the shunt's own type is trojan. -/
def udpCheck (udpPort : Option Nat) (utype type : Option NodeType) : Option Nat :=
  if utype = some .trojan ∨ type = some .trojan then udpPort else none

/-- `yb_local_port` after lines 379–381. -/
def ybLocalPort (configured localPort : Nat) (udp : Option Nat) : Nat :=
  bump configured [some localPort, udp]

/-- `nf_local_port` after lines 402–405. -/
def nfLocalPort (configured localPort : Nat) (udp yb : Option Nat) : Nat :=
  bump configured [some localPort, udp, yb]

/-- `cu_local_port` after lines 426–430. -/
def cuLocalPort (configured localPort : Nat) (udp yb nf : Option Nat) : Nat :=
  bump configured [some localPort, udp, yb, nf]

/-- `tg_local_port` after lines 451–456. -/
def tgLocalPort (configured localPort : Nat) (udp yb nf cu : Option Nat) : Nat :=
  bump configured [some localPort, udp, yb, nf, cu]

section Rules

variable {ν : Type v} {α β : Type u} [DecidableEq ν]

/-- A shunt whose server is set: its address, its type and the port that `place` gives it. -/
def Config.shunt (resolve : α → Option β) (cfg : Config ν α) (udp : Option (Proxy β))
    (place : Nat → Option Nat → Nat) (name : Option ν) : Option (Option (Proxy β)) :=
  match name with
  | none => some none
  | some n => do
    let node ← cfg.node n
    let ip ← node.server.bind resolve
    let check := udpCheck (udp.map Proxy.port) (udp.map Proxy.type) (some node.getType)
    return some ⟨ip, place (cfg.localPort n) check, node.getType⟩

/-- The UDP relay, lines 328–355: its address is looked up where it is not the main node's. -/
def Config.udpRelay (resolve : α → Option β) (cfg : Config ν α) (ip : β) :
    Option (Option (Proxy β)) :=
  match cfg.udpServer with
  | none => some none
  | some n => do
    let node ← cfg.node n
    let udpIp ← (if n = cfg.globalServer then some ip else node.server.bind resolve)
    let port := udpLocalPort (cfg.localPort n) (cfg.localPort cfg.globalServer)
      (cfg.getType cfg.globalServer) (some node.getType)
    return some ⟨udpIp, port, node.getType⟩

/-- `rules`, the part that plans the proxies; `none` where it ends with an error. -/
def rules (resolve : α → Option β) (cfg : Config ν α) : Option (Plan β) := do
  let main ← cfg.node cfg.globalServer
  let ip ← main.server.bind resolve
  let localPort := cfg.localPort cfg.globalServer
  let udp ← cfg.udpRelay resolve ip
  let yb ← cfg.shunt resolve udp (fun c u ↦ ybLocalPort c localPort u) cfg.yb
  let ybPort := yb.map Proxy.port
  let nf ← cfg.shunt resolve udp (fun c u ↦ nfLocalPort c localPort u ybPort) cfg.nf
  let nfPort := nf.map Proxy.port
  let cu ← cfg.shunt resolve udp (fun c u ↦ cuLocalPort c localPort u ybPort nfPort) cfg.cu
  let cuPort := cu.map Proxy.port
  let tg ← cfg.shunt resolve udp (fun c u ↦ tgLocalPort c localPort u ybPort nfPort cuPort) cfg.tg
  return { main := ⟨ip, localPort, main.getType⟩, udp, yb, nf, cu, tg }

end Rules

/-! ## Separate ports -/

section Separate

variable {β : Type u}

/-- The active shunts, in the order of the script. -/
def Plan.shunts (p : Plan β) : List (Proxy β) := [p.yb, p.nf, p.cu, p.tg].filterMap id

/-- Every proxy has a port of its own, and a shunt next to trojan keeps off the port of the UDP
relay. -/
structure Plan.Separate (p : Plan β) : Prop where
  distinct : (p.main.port :: p.shunts.map Proxy.port).Nodup
  udp : ∀ u ∈ p.udp, ∀ s ∈ p.shunts, u.type = .trojan ∨ s.type = .trojan → s.port ≠ u.port

/-- The ports a shunt of a type is compared with before those of the earlier shunts. -/
def compared (localPort : Nat) (udpPort : Option Nat) (utype : Option NodeType)
    (type : Option NodeType) : List Nat :=
  [some localPort, udpCheck udpPort utype type].filterMap id

/-- Each port differs from all it is compared with. -/
def Fresh (base : Option NodeType → List Nat) : List Nat → List (Proxy β) → Prop
  | _, [] => True
  | earlier, s :: ss =>
    s.port ∉ base (some s.type) ++ earlier ∧ Fresh base (earlier ++ [s.port]) ss

/-- The ports that `base` names for each shunt, the earlier ones and the shunts' own are apart. -/
theorem fresh_iff (base : Option NodeType → List Nat) (earlier : List Nat) (ss : List (Proxy β)) :
    Fresh base earlier ss ↔
      (∀ s ∈ ss, s.port ∉ base (some s.type) ∧ s.port ∉ earlier) ∧ (ss.map Proxy.port).Nodup := by
  induction ss generalizing earlier with
  | nil => simp [Fresh]
  | cons s ss ih =>
    rw [Fresh, ih, List.map_cons, List.nodup_cons, List.forall_mem_cons]
    simp only [List.mem_append, List.mem_singleton, not_or, List.mem_map, not_exists, not_and]
    constructor
    · rintro ⟨hs, hrest, hnodup⟩
      refine ⟨⟨hs, fun t ht ↦ ⟨(hrest t ht).1, (hrest t ht).2.1⟩⟩, ?_, hnodup⟩
      intro t ht
      exact (hrest t ht).2.2
    · rintro ⟨⟨hs, hrest⟩, hne, hnodup⟩
      exact ⟨hs, fun t ht ↦ ⟨(hrest t ht).1, (hrest t ht).2, hne t ht⟩, hnodup⟩

/-- A port differs from all it is compared with first. -/
theorem not_mem_compared {localPort port : Nat} {udp : Option (Proxy β)} {type : NodeType} :
    port ∉ compared localPort (udp.map Proxy.port) (udp.map Proxy.type) (some type) ↔
      port ≠ localPort ∧
        ∀ u ∈ udp, u.type = .trojan ∨ type = .trojan → port ≠ u.port := by
  unfold compared udpCheck
  cases udp with
  | none => simp
  | some u =>
    by_cases h : u.type = .trojan ∨ type = .trojan
    · simp [h]
    · simp [h]

/-- A plan is separate when each shunt's port differs from all it is compared with. -/
theorem separate_iff_fresh (p : Plan β) :
    p.Separate ↔
      Fresh (compared p.main.port (p.udp.map Proxy.port) (p.udp.map Proxy.type)) [] p.shunts := by
  rw [fresh_iff]
  constructor
  · rintro ⟨hdistinct, hudp⟩
    obtain ⟨hmain, hnodup⟩ := List.nodup_cons.mp hdistinct
    refine ⟨fun s hs ↦ ⟨not_mem_compared.mpr ⟨?_, fun u hu ↦ hudp u hu s hs⟩, by simp⟩, hnodup⟩
    intro heq
    exact hmain (List.mem_map.mpr ⟨s, hs, heq⟩)
  · rintro ⟨hbase, hnodup⟩
    constructor
    · refine List.nodup_cons.mpr ⟨fun hmem ↦ ?_, hnodup⟩
      obtain ⟨s, hs, heq⟩ := List.mem_map.mp hmem
      exact (not_mem_compared.mp (hbase s hs).1).1 heq
    · intro u hu s hs
      exact (not_mem_compared.mp (hbase s hs).1).2 u hu

end Separate

/-! ## What the script's single pass achieves -/

section Placed

variable {ν : Type v} {α β : Type u}

/-- The shunts' ports as one pass over the ports before them gives them. -/
inductive Placed (cfg : Config ν α) (base : Option NodeType → List Nat) :
    List Nat → List ν → List (Proxy β) → Prop
  | nil (earlier) : Placed cfg base earlier [] []
  | cons {earlier n ns s ss} (htype : cfg.getType n = some s.type)
      (hport : s.port = skip (base (some s.type) ++ earlier) (cfg.localPort n))
      (hrest : Placed cfg base (earlier ++ [s.port]) ns ss) :
      Placed cfg base earlier (n :: ns) (s :: ss)

/-- From its configured port on, each shunt meets the occupied ports in ascending order, up to the
first that is free; the shunts behind it meet that one too. -/
def Ascending (cfg : Config ν α) (base : Option NodeType → List Nat) : List Nat → List ν → Prop
  | _, [] => True
  | earlier, n :: ns =>
    let taken := base (cfg.getType n) ++ earlier
    (List.range' (cfg.localPort n) (occupied taken (cfg.localPort n))).Sublist taken ∧
      Ascending cfg base (earlier ++ [firstFree taken (cfg.localPort n)]) ns

/-- One pass leaves each port free exactly when the occupied ports come in ascending order. -/
theorem Placed.fresh_iff {cfg : Config ν α} {base : Option NodeType → List Nat}
    {earlier : List Nat} {ns : List ν} {ss : List (Proxy β)} (h : Placed cfg base earlier ns ss) :
    Fresh base earlier ss ↔ Ascending cfg base earlier ns := by
  induction h with
  | nil => exact Iff.rfl
  | @cons earlier n ns s ss htype hport hrest ih =>
    rw [Fresh, Ascending, htype]
    have hstep := skip_not_mem_iff (base (some s.type) ++ earlier) (cfg.localPort n)
    rw [← hport] at hstep
    constructor
    · rintro ⟨hfree, hfresh⟩
      refine ⟨hstep.mp hfree, ?_⟩
      rw [hport] at hfree
      rw [← skip_eq_firstFree hfree, ← hport]
      exact ih.mp hfresh
    · rintro ⟨hasc, hrest'⟩
      have hfree := hstep.mpr hasc
      refine ⟨hfree, ih.mpr ?_⟩
      rw [hport] at hfree
      rw [hport, skip_eq_firstFree hfree]
      exact hrest'

/-- A shunt in front of placed ones. -/
theorem placed_of_shunt {resolve : α → Option β} {cfg : Config ν α} {udp : Option (Proxy β)}
    {localPort : Nat} {place : Nat → Option Nat → Nat} {name : Option ν} {s : Option (Proxy β)}
    {earlier : List (Option Nat)} {ns : List ν} {ss : List (Proxy β)}
    (hshunt : cfg.shunt resolve udp place name = some s)
    (hplace : ∀ c u, place c u = bump c (some localPort :: u :: earlier))
    (hrest : Placed cfg (compared localPort (udp.map Proxy.port) (udp.map Proxy.type))
      ((earlier ++ [s.map Proxy.port]).filterMap id) ns ss) :
    Placed cfg (compared localPort (udp.map Proxy.port) (udp.map Proxy.type))
      (earlier.filterMap id) (name.toList ++ ns) (s.toList ++ ss) := by
  cases name with
  | none =>
    have hs : none = s := Option.some.inj hshunt
    subst hs
    simpa using hrest
  | some n =>
    obtain ⟨node, hnode, hshunt⟩ := Option.bind_eq_some_iff.mp hshunt
    obtain ⟨ip, hip, hshunt⟩ := Option.bind_eq_some_iff.mp hshunt
    have hs := Option.some.inj hshunt
    subst hs
    apply Placed.cons
    · exact congrArg (Option.map Node.getType) hnode
    · rw [hplace, bump, compared, ← List.filterMap_append]
      rfl
    · simpa using hrest

end Placed

section Result

variable {ν : Type v} {α β : Type u} [DecidableEq ν]

/-- The port of the UDP relay: its own, or the one behind the main proxy's where they are the same
and one of the two is trojan. -/
def Config.udpPort (cfg : Config ν α) : Option Nat :=
  cfg.udpServer.map fun n ↦
    udpLocalPort (cfg.localPort n) (cfg.localPort cfg.globalServer) (cfg.getType cfg.globalServer)
      (cfg.getType n)

/-- The active shunts, in the order of the script. -/
def Config.shunts (cfg : Config ν α) : List ν := [cfg.yb, cfg.nf, cfg.cu, cfg.tg].filterMap id

/-- Each active shunt meets the occupied ports in ascending order. -/
def Config.MeetsAscending (cfg : Config ν α) : Prop :=
  Ascending cfg (compared (cfg.localPort cfg.globalServer) cfg.udpPort
    (cfg.udpServer.bind cfg.getType)) [] cfg.shunts

/-- The list of what four variables hold. -/
theorem filterMap_four {γ : Type*} (a b c d : Option γ) :
    [a, b, c, d].filterMap id = a.toList ++ (b.toList ++ (c.toList ++ (d.toList ++ []))) := by
  cases a <;> cases b <;> cases c <;> cases d <;> rfl

/-- Port and type of the UDP relay. -/
theorem udpRelay_port {resolve : α → Option β} {cfg : Config ν α} {ip : β}
    {udp : Option (Proxy β)} (h : cfg.udpRelay resolve ip = some udp) :
    udp.map Proxy.port = cfg.udpPort ∧ udp.map Proxy.type = cfg.udpServer.bind cfg.getType := by
  unfold Config.udpRelay at h
  unfold Config.udpPort
  cases hn : cfg.udpServer with
  | none =>
    rw [hn] at h
    have hudp := Option.some.inj h
    subst hudp
    exact ⟨rfl, rfl⟩
  | some n =>
    rw [hn] at h
    obtain ⟨node, hnode, h⟩ := Option.bind_eq_some_iff.mp h
    obtain ⟨udpIp, -, h⟩ := Option.bind_eq_some_iff.mp h
    have hudp := Option.some.inj h
    subst hudp
    have htype : cfg.getType n = some node.getType := congrArg (Option.map Node.getType) hnode
    rw [Option.map_some, Option.map_some, Option.map_some, Option.bind_some, htype]
    exact ⟨rfl, rfl⟩

/-- The main port and the UDP relay of a plan. -/
theorem rules_udp {resolve : α → Option β} {cfg : Config ν α} {plan : Plan β}
    (h : rules resolve cfg = some plan) :
    plan.main.port = cfg.localPort cfg.globalServer ∧ plan.udp.map Proxy.port = cfg.udpPort ∧
      plan.udp.map Proxy.type = cfg.udpServer.bind cfg.getType := by
  obtain ⟨main, -, h⟩ := Option.bind_eq_some_iff.mp h
  obtain ⟨ip, -, h⟩ := Option.bind_eq_some_iff.mp h
  obtain ⟨udp, hudp, h⟩ := Option.bind_eq_some_iff.mp h
  obtain ⟨yb, -, h⟩ := Option.bind_eq_some_iff.mp h
  obtain ⟨nf, -, h⟩ := Option.bind_eq_some_iff.mp h
  obtain ⟨cu, -, h⟩ := Option.bind_eq_some_iff.mp h
  obtain ⟨tg, -, h⟩ := Option.bind_eq_some_iff.mp h
  have hplan := Option.some.inj h
  subst hplan
  exact ⟨rfl, udpRelay_port hudp⟩

/-- The shunts of a plan, each placed by one pass. -/
theorem rules_placed {resolve : α → Option β} {cfg : Config ν α} {plan : Plan β}
    (h : rules resolve cfg = some plan) :
    Placed cfg (compared plan.main.port (plan.udp.map Proxy.port) (plan.udp.map Proxy.type)) []
      cfg.shunts plan.shunts := by
  obtain ⟨main, -, h⟩ := Option.bind_eq_some_iff.mp h
  obtain ⟨ip, -, h⟩ := Option.bind_eq_some_iff.mp h
  obtain ⟨udp, -, h⟩ := Option.bind_eq_some_iff.mp h
  obtain ⟨yb, hyb, h⟩ := Option.bind_eq_some_iff.mp h
  obtain ⟨nf, hnf, h⟩ := Option.bind_eq_some_iff.mp h
  obtain ⟨cu, hcu, h⟩ := Option.bind_eq_some_iff.mp h
  obtain ⟨tg, htg, h⟩ := Option.bind_eq_some_iff.mp h
  have hplan := Option.some.inj h
  subst hplan
  rw [Config.shunts, Plan.shunts, filterMap_four, filterMap_four]
  apply placed_of_shunt hyb fun c u ↦ rfl
  apply placed_of_shunt hnf fun c u ↦ rfl
  apply placed_of_shunt hcu fun c u ↦ rfl
  apply placed_of_shunt htg fun c u ↦ rfl
  exact Placed.nil _

/-- The ports of a plan are separate exactly when every active shunt meets the occupied ports in
ascending order. -/
theorem rules_separate_iff {resolve : α → Option β} {cfg : Config ν α} {plan : Plan β}
    (h : rules resolve cfg = some plan) : plan.Separate ↔ cfg.MeetsAscending := by
  obtain ⟨hmain, hport, htype⟩ := rules_udp h
  rw [separate_iff_fresh, (rules_placed h).fresh_iff, Config.MeetsAscending, hmain, hport, htype]

end Result

/-! ## Runs of the script -/

/-- A node of a type with a port. -/
def node (type : NodeType) (port : Nat) : Node Nat :=
  { server := some port, localPort := some port, type, encryptMethodSs := .other,
    kcpEnable := false }

/-- The main node 0, a UDP relay and the Y2B shunt, each with a node of its own. -/
def threeNodes (main udp yb : Node Nat) : Config Nat Nat :=
  { runMode := .router
    node := fun n ↦ [main, udp, yb][n]?
    globalServer := 0
    udpRelayServer := some (.node 1)
    ybServer := some 2
    nfServer := none
    cuServer := none
    tgServer := none }

/-- Ports 1234, 1235 and 1234 in ascending order: the shunt gets 1236. -/
theorem rules_ports_ascending :
    ∃ plan, rules some (threeNodes (node .vless 1234) (node .trojan 1235) (node .ss 1234)) =
        some plan ∧
      (plan.Separate ↔
        (threeNodes (node .vless 1234) (node .trojan 1235) (node .ss 1234)).MeetsAscending) := by
  exact ⟨_, rfl, @rules_separate_iff Nat Nat Nat _ some _ _ rfl⟩

/-- The main proxy on 1235, a trojan UDP relay on 1234 and a Y2B shunt configured on 1234: the shunt
steps over 1234 onto the port of the main proxy. -/
theorem rules_shares_port :
    ∃ plan, rules some (threeNodes (node .vless 1235) (node .trojan 1234) (node .ss 1234)) =
        some plan ∧
      plan.yb.map Proxy.port = some plan.main.port ∧ ¬ plan.Separate := by
  refine ⟨_, rfl, rfl, ?_⟩
  intro h
  exact absurd h.distinct (by decide)

end OpenWrtCompile.Overwall
