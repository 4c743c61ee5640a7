import OpenWrtCompile.Base.Bytes
import OpenWrtCompile.Base.Search
import OpenWrtCompile.Overwall.Ports

/-!
# The restarts of the monitor

`luci-app-overwall/root/etc/init.d/overwall` (`start_dns`, `start_tcp`), `gen_include` of
`usr/share/overwall/rules`, and `usr/share/overwall/monitor`: the command lines that start kcptun,
smartdns and chinadns-ng, and those that start them again after they have gone. A command line is the
list of its words. Pathname expansion is left out, and so is the argument of the init script, which
`switch` uses for nodes without kcptun.
-/

namespace OpenWrtCompile.Overwall.Monitor
open OpenWrtCompile.Base

universe v

/-- The words of a variable that is not quoted. -/
def fields (value : Bytes) : List Bytes := (value.splitOn 0x20).filter (· ≠ [])

/-- A server or its address: one word, which does not hold `=`. -/
structure Host where
  text : Bytes
  ne_nil : text ≠ []
  blank : 0x20 ∉ text
  equals : 0x3D ∉ text

/-- The programs that the monitor starts again by itself. -/
inductive Daemon
  | kcptun | smartdns | chinadnsNg
  deriving DecidableEq, Repr

/-- The options of a node for kcptun, empty if unset. -/
structure KcpOptions where
  serverPort : Bytes
  kcpPort : Bytes
  kcpPassword : Bytes
  kcpParam : Bytes

/-- What the scripts go by: the configuration, and on the router the addresses of names, the paths
of the programs, whether the client says that it is kcptun, and the lines that `gen_include` writes
behind its assignments. -/
structure Service (ν : Type v) where
  cfg : Config ν Host
  kcp : ν → KcpOptions
  gfwMode : Bytes
  sectionName : ν → Bytes
  resolve : Host → Option Host
  which : Daemon → Option Bytes
  isKcptun : Bool
  commands : List Bytes
  sectionName_equals : ∀ n, 0x3D ∉ sectionName n
  commands_clear : ∀ l ∈ commands, ¬ ascii "udp_ip=" <:+: l

/-- `-r $server:$kcp_port -l :$server_port $password $kcp_param`, with the option `--key` before a
password. -/
def KcpOptions.args (o : KcpOptions) (server : Bytes) : List Bytes :=
  let password := if o.kcpPassword = [] then [] else ascii "--key " ++ o.kcpPassword
  [ascii "-r"] ++ fields (server ++ ascii ":" ++ o.kcpPort) ++
    [ascii "-l"] ++ fields (ascii ":" ++ o.serverPort) ++ fields password ++ fields o.kcpParam

namespace Service

variable {ν : Type v} (s : Service ν)

/-- `$SDNS`. -/
def sdns : Bytes := ascii "/var/etc/smartdns"

/-- `$DNS_T`. -/
def dnsT : Bytes := sdns ++ ascii "/smartdns.conf"

/-- `$K`. -/
def k : Bytes := ascii "/tmp/overwall"

/-- `start_tcp`, lines 490–500: the command that starts kcptun for the main node. Its server is what
the option says, not the address. -/
def startTcp : Option (List Bytes) := do
  let main ← s.cfg.node s.cfg.globalServer
  let kcpServer ← main.server
  let cmd ← s.which .kcptun
  if main.kcpEnable ∧ s.isKcptun then
    return cmd :: (s.kcp s.cfg.globalServer).args kcpServer.text
  else none

/-- `start_dns`, line 170. -/
def startSmartdns : Option (List Bytes) := do
  let cmd ← s.which .smartdns
  return [cmd, ascii "-f", ascii "-c", dnsT]

/-- `start_dns`, lines 197–198. -/
def startChinadns : Option (List Bytes) := do
  let cmd ← s.which .chinadnsNg
  if s.cfg.runMode = .router then
    return [cmd, ascii "-l", ascii "5337", ascii "-c", ascii "127.0.0.1#5336", ascii "-t",
        ascii "127.0.0.1#5335", ascii "-4", ascii "over_v4", ascii "-6", ascii "over_v6"] ++
      (if fields s.gfwMode = [ascii "0"] then [ascii "-g", k ++ ascii "/gfw.list"] else [])
  else none

/-- The command that starts a program, if the service starts it. -/
def startCommand : Daemon → Option (List Bytes)
  | .kcptun => s.startTcp
  | .smartdns => s.startSmartdns
  | .chinadnsNg => s.startChinadns

/-- `gen_include`: the lines of the include; `$SERVER` is the address of the UDP relay. -/
def genInclude (server : Host) (relay : Option Host) : List Bytes :=
  [ascii "#!/bin/sh", ascii "cfg=" ++ s.sectionName s.cfg.globalServer,
    ascii "main_ip=" ++ server.text, relay.elim [] fun ip ↦ ascii "udp_ip=" ++ ip.text] ++ s.commands

/-- `cut -d = -f2`: a line without `=` is printed as it is. -/
def cut (line : Bytes) : Bytes :=
  match line.splitOn 0x3D with
  | _ :: field :: _ => field
  | _ => line

/-- ``server=`cat … | grep udp_ip= | cut -d = -f2` ``. -/
def udpIp (lines : List Bytes) : Bytes :=
  [0x0A].intercalate ((lines.filter fun l ↦ ascii "udp_ip=" <:+: l).map cut)

/-- `echo $server | grep -q : && server=[$server]`. -/
def bracket (server : Bytes) : Bytes :=
  if 0x3A ∈ server then ascii "[" ++ server ++ ascii "]" else server

/-- The command with which `monitor` starts a program again. -/
def restartCommand (lines : List Bytes) : Daemon → List Bytes
  | .kcptun =>
    (s.which .kcptun).toList ++ (s.kcp s.cfg.globalServer).args (bracket (udpIp lines))
  | .smartdns =>
    (s.which .smartdns).toList ++ [ascii "-f", ascii "-c", ascii "/var/etc/smartdns/smartdns.conf"]
  | .chinadnsNg =>
    (s.which .chinadnsNg).toList ++
      [ascii "-l", ascii "5337", ascii "-c", ascii "127.0.0.1#5336", ascii "-t",
        ascii "127.0.0.1#5335", ascii "-4", ascii "over_v4", ascii "-6", ascii "over_v6"] ++
      (if fields s.gfwMode = [ascii "0"] then [ascii "-g", ascii "/tmp/overwall/gfw.list"] else [])

variable [DecidableEq ν]

/-- After a start with a plan, each program that was started is started again with the same command
line. -/
def RestartsAsStarted : Prop :=
  ∀ plan, rules s.resolve s.cfg = some plan → ∀ d args, s.startCommand d = some args →
    s.restartCommand (s.genInclude plan.main.ip (plan.udp.map Proxy.ip)) d = args

/-- A UDP relay is active, and the main node's option is its address, in brackets if it is one of
IPv6. -/
def RelayAtMain : Prop :=
  ∃ n ∈ s.cfg.udpServer, ∃ ip ∈ (s.cfg.server n).bind s.resolve,
    ∃ server ∈ s.cfg.server s.cfg.globalServer, server.text = bracket ip.text

end Service

/-! ## The words of the command line -/

/-- What stands before a value without a blank in between is part of its first word. -/
theorem splitOn_append {w first : Bytes} {rest : List Bytes} {value : Bytes} (h : 0x20 ∉ w)
    (hvalue : value.splitOn 0x20 = first :: rest) :
    (w ++ value).splitOn 0x20 = (w ++ first) :: rest := by
  induction w with
  | nil => exact hvalue
  | cons c w ih =>
    rw [List.mem_cons, not_or] at h
    have hc : (c == 0x20) = false := beq_false_of_ne (Ne.symm h.1)
    rw [List.cons_append, List.splitOn_cons_eq_if_modifyHead, ih h.2, hc]
    rfl

/-- The first word of `$server:$kcp_port`. -/
theorem exists_fields_server (port : Bytes) :
    ∃ first rest, ∀ server : Bytes, 0x20 ∉ server →
      fields (server ++ ascii ":" ++ port) = (server ++ 0x3A :: first) :: rest := by
  obtain ⟨first, rest, hport⟩ := List.exists_cons_of_ne_nil (List.splitOn_ne_nil 0x20 port)
  refine ⟨first, rest.filter (· ≠ []), fun server hserver ↦ ?_⟩
  have hcolon : 0x20 ∉ server ++ ascii ":" := by
    rw [List.mem_append, not_or]
    exact ⟨hserver, by decide⟩
  rw [fields, splitOn_append hcolon hport]
  simp [ascii]

/-- The command line tells the server. -/
theorem KcpOptions.args_inj (o : KcpOptions) {a b : Bytes} (ha : 0x20 ∉ a) (hb : 0x20 ∉ b) :
    o.args a = o.args b ↔ a = b := by
  refine ⟨fun h ↦ ?_, fun h ↦ h ▸ rfl⟩
  obtain ⟨first, rest, hfields⟩ := exists_fields_server o.kcpPort
  unfold args at h
  rw [hfields a ha, hfields b hb] at h
  simpa using h

/-! ## The address in the include -/

/-- A line that sets another variable has no `udp_ip=`. -/
theorem not_udp_ip_of_assign (key : Bytes) {value : Bytes} (hkey : 0x3D ∉ key)
    (hvalue : 0x3D ∉ value) (h : ¬ ascii "udp_ip" <:+ key) :
    ¬ ascii "udp_ip=" <:+: key ++ 0x3D :: value := fun hc ↦
  h ((Search.concat_infix_append_cons hkey hvalue).mp hc)

/-- The value that a line gives to `udp_ip`. -/
theorem cut_udp_ip (ip : Host) : Service.cut (ascii "udp_ip=" ++ ip.text) = ip.text := by
  have hsplit : (ascii "udp_ip=" ++ ip.text).splitOn 0x3D = [ascii "udp_ip", ip.text] := by
    have hname : (0x3D : UInt8) ∉ ascii "udp_ip" := by decide
    have hline := List.splitOn_append_cons_self_of_not_mem hname ip.text
    rw [List.splitOn_eq_singleton ip.equals] at hline
    exact hline
  rw [Service.cut, hsplit]

namespace Service

variable {ν : Type v} (s : Service ν)

/-- The monitor finds the address of the UDP relay, and nothing where there is none. -/
theorem udpIp_genInclude (server : Host) (relay : Option Host) :
    udpIp (s.genInclude server relay) = relay.elim [] Host.text := by
  have hstart : ¬ ascii "udp_ip=" <:+: ascii "#!/bin/sh" := by decide
  have hcfg : ¬ ascii "udp_ip=" <:+: ascii "cfg=" ++ s.sectionName s.cfg.globalServer := by
    refine not_udp_ip_of_assign (ascii "cfg") ?_ (s.sectionName_equals _) ?_ <;> decide
  have hmain : ¬ ascii "udp_ip=" <:+: ascii "main_ip=" ++ server.text := by
    refine not_udp_ip_of_assign (ascii "main_ip") ?_ server.equals ?_ <;> decide
  have hcommands : s.commands.filter (fun l ↦ ascii "udp_ip=" <:+: l) = [] := by
    rw [List.filter_eq_nil_iff]
    intro l hl
    simpa using s.commands_clear l hl
  unfold udpIp genInclude
  rw [List.filter_append, hcommands, List.append_nil]
  cases relay with
  | none =>
    have hempty : ¬ ascii "udp_ip=" <:+: [] := by decide
    simp only [Option.elim_none, List.filter_cons, hstart, hcfg, hmain, hempty]
    rfl
  | some ip =>
    have hrelay : ascii "udp_ip=" <:+: ascii "udp_ip=" ++ ip.text :=
      (List.prefix_append _ _).isInfix
    simp only [Option.elim_some, List.filter_cons, hstart, hcfg, hmain, hrelay]
    simpa using cut_udp_ip ip

/-- Brackets put no blank into an address. -/
theorem blank_not_mem_bracket {server : Bytes} (h : 0x20 ∉ server) : 0x20 ∉ bracket server := by
  unfold bracket
  split
  · simp only [List.mem_append, not_or]
    exact ⟨⟨by decide, h⟩, by decide⟩
  · exact h

/-- The monitor's server: none without a UDP relay. -/
theorem bracket_udpIp_genInclude (server : Host) (relay : Option Host) :
    bracket (udpIp (s.genInclude server relay)) = relay.elim [] fun ip ↦ bracket ip.text := by
  rw [udpIp_genInclude]
  cases relay with
  | none => rfl
  | some ip => rfl

/-- Smartdns is started again as it was started. -/
theorem restart_smartdns {args : List Bytes} (lines : List Bytes)
    (h : s.startSmartdns = some args) : s.restartCommand lines .smartdns = args := by
  obtain ⟨cmd, hcmd, hargs⟩ := Option.bind_eq_some_iff.mp h
  obtain rfl := Option.some.inj hargs
  rw [restartCommand, hcmd]
  rfl

/-- Chinadns-ng is started again as it was started. -/
theorem restart_chinadns {args : List Bytes} (lines : List Bytes)
    (h : s.startChinadns = some args) : s.restartCommand lines .chinadnsNg = args := by
  obtain ⟨cmd, hcmd, hargs⟩ := Option.bind_eq_some_iff.mp h
  split at hargs
  · obtain rfl := Option.some.inj hargs
    rw [restartCommand, hcmd]
    rfl
  · cases hargs

/-- What a start of kcptun says about the configuration. -/
theorem startTcp_eq_some {args : List Bytes} (h : s.startTcp = some args) :
    ∃ main server cmd, s.cfg.node s.cfg.globalServer = some main ∧ main.kcpEnable = true ∧
      main.server = some server ∧ s.which .kcptun = some cmd ∧
      args = cmd :: (s.kcp s.cfg.globalServer).args server.text := by
  obtain ⟨main, hmain, h⟩ := Option.bind_eq_some_iff.mp h
  obtain ⟨server, hserver, h⟩ := Option.bind_eq_some_iff.mp h
  obtain ⟨cmd, hcmd, h⟩ := Option.bind_eq_some_iff.mp h
  split at h
  · next hkcp => exact ⟨main, server, cmd, hmain, hkcp.1, hserver, hcmd, (Option.some.inj h).symm⟩
  · cases h

/-! ## When the command lines agree -/

/-- A node with kcptun is no UDP relay. -/
theorem udpServer_ne_globalServer {main : Node Host}
    (hmain : s.cfg.node s.cfg.globalServer = some main) (hkcp : main.kcpEnable = true) :
    ∀ n ∈ s.cfg.udpServer, n ≠ s.cfg.globalServer := by
  rintro n hn rfl
  have husable := (Option.filter_eq_some_iff.mp hn).2
  rw [hmain, Option.any_some, hkcp] at husable
  cases husable

variable [DecidableEq ν]

/-- A relay that is not the main node goes to the address of its own server. -/
theorem relay_ip {plan : Plan Host} (h : rules s.resolve s.cfg = some plan)
    (hne : ∀ n ∈ s.cfg.udpServer, n ≠ s.cfg.globalServer) :
    plan.udp.map Proxy.ip = s.cfg.udpServer.bind fun n ↦ (s.cfg.server n).bind s.resolve := by
  obtain ⟨main, -, h⟩ := Option.bind_eq_some_iff.mp h
  obtain ⟨ip, -, h⟩ := Option.bind_eq_some_iff.mp h
  obtain ⟨udp, hudp, h⟩ := Option.bind_eq_some_iff.mp h
  obtain ⟨yb, -, h⟩ := Option.bind_eq_some_iff.mp h
  obtain ⟨nf, -, h⟩ := Option.bind_eq_some_iff.mp h
  obtain ⟨cu, -, h⟩ := Option.bind_eq_some_iff.mp h
  obtain ⟨tg, -, h⟩ := Option.bind_eq_some_iff.mp h
  obtain rfl := Option.some.inj h
  unfold Config.udpRelay at hudp
  cases hn : s.cfg.udpServer with
  | none =>
    rw [hn] at hudp
    obtain rfl := Option.some.inj hudp
    rfl
  | some n =>
    rw [hn] at hudp
    obtain ⟨node, hnode, hudp⟩ := Option.bind_eq_some_iff.mp hudp
    obtain ⟨udpIp, hip, hudp⟩ := Option.bind_eq_some_iff.mp hudp
    obtain rfl := Option.some.inj hudp
    rw [if_neg (hne n hn)] at hip
    have hserver : s.cfg.server n = node.server := by rw [Config.server, hnode, Option.bind_some]
    rw [Option.bind_some, hserver, hip]
    rfl

/-- Kcptun is started again with its command line exactly when the main node's server is written like
the address of the UDP relay. -/
theorem restart_kcptun_iff {plan : Plan Host} {args : List Bytes}
    (hplan : rules s.resolve s.cfg = some plan) (hargs : s.startTcp = some args) :
    s.restartCommand (s.genInclude plan.main.ip (plan.udp.map Proxy.ip)) .kcptun = args ↔
      s.RelayAtMain := by
  obtain ⟨main, server, cmd, hmain, hkcp, hserver, hcmd, rfl⟩ := s.startTcp_eq_some hargs
  have hglobal : s.cfg.server s.cfg.globalServer = some server := by
    rw [Config.server, hmain, Option.bind_some, hserver]
  have hrelay := s.relay_ip hplan (s.udpServer_ne_globalServer hmain hkcp)
  have hblank : 0x20 ∉ (plan.udp.map Proxy.ip).elim [] fun ip ↦ bracket ip.text := by
    cases plan.udp.map Proxy.ip with
    | none => exact List.not_mem_nil
    | some ip => exact blank_not_mem_bracket ip.blank
  rw [restartCommand, hcmd, bracket_udpIp_genInclude, Option.toList_some, List.singleton_append,
    List.cons.injEq, KcpOptions.args_inj _ hblank server.blank, hrelay]
  unfold RelayAtMain
  rw [hglobal]
  cases s.cfg.udpServer with
  | none => simpa using server.ne_nil.symm
  | some n =>
    rw [Option.bind_some]
    cases hip : (s.cfg.server n).bind s.resolve with
    | none => simpa [hip] using server.ne_nil.symm
    | some ip => simp [hip, eq_comm]

/-- Every program that the service starts is started again by the monitor with the same command line,
exactly when kcptun is not started or the main node's server is written like the address of the UDP
relay. -/
theorem restartsAsStarted_iff :
    s.RestartsAsStarted ↔
      ((rules s.resolve s.cfg).isSome → s.startTcp.isSome → s.RelayAtMain) := by
  constructor
  · intro h hrules hstart
    obtain ⟨plan, hplan⟩ := Option.isSome_iff_exists.mp hrules
    obtain ⟨args, hargs⟩ := Option.isSome_iff_exists.mp hstart
    exact (s.restart_kcptun_iff hplan hargs).mp (h plan hplan .kcptun args hargs)
  · intro h plan hplan d args hargs
    cases d with
    | kcptun =>
      have hrules : (rules s.resolve s.cfg).isSome := by rw [hplan, Option.isSome_some]
      have hstart : s.startTcp.isSome := by
        rw [show s.startTcp = some args from hargs, Option.isSome_some]
      exact (s.restart_kcptun_iff hplan hargs).mpr (h hrules hstart)
    | smartdns => exact s.restart_smartdns _ hargs
    | chinadnsNg => exact s.restart_chinadns _ hargs

/-- A main node with kcptun and no UDP relay. -/
def kcptunOnly : Service Unit where
  cfg :=
    { runMode := .router
      node := fun _ ↦ some
        { server := some ⟨ascii "198.51.100.7", by decide, by decide, by decide⟩
          localPort := none
          type := .ss
          encryptMethodSs := .other
          kcpEnable := true }
      globalServer := ()
      udpRelayServer := none
      ybServer := none
      nfServer := none
      cuServer := none
      tgServer := none }
  kcp := fun _ ↦ ⟨ascii "8388", ascii "4000", [], []⟩
  gfwMode := ascii "1"
  sectionName := fun _ ↦ ascii "cfg034a8f"
  resolve := some
  which := fun _ ↦ some (ascii "/usr/bin/kcptun-client")
  isKcptun := true
  commands := []
  sectionName_equals := by decide
  commands_clear := by decide

/-- It starts with `-r 198.51.100.7:4000` and is started again with `-r :4000`. -/
theorem restart_without_server :
    kcptunOnly.startCommand .kcptun =
        some [ascii "/usr/bin/kcptun-client", ascii "-r", ascii "198.51.100.7:4000", ascii "-l",
          ascii ":8388"] ∧
      (∀ plan, rules kcptunOnly.resolve kcptunOnly.cfg = some plan →
        kcptunOnly.restartCommand
            (kcptunOnly.genInclude plan.main.ip (plan.udp.map Proxy.ip)) .kcptun =
          [ascii "/usr/bin/kcptun-client", ascii "-r", ascii ":4000", ascii "-l", ascii ":8388"]) ∧
      ¬ kcptunOnly.RestartsAsStarted := by
  have hstart : kcptunOnly.startCommand .kcptun =
      some [ascii "/usr/bin/kcptun-client", ascii "-r", ascii "198.51.100.7:4000", ascii "-l",
        ascii ":8388"] := by
    decide
  have hrestart : ∀ plan, rules kcptunOnly.resolve kcptunOnly.cfg = some plan →
      kcptunOnly.restartCommand
          (kcptunOnly.genInclude plan.main.ip (plan.udp.map Proxy.ip)) .kcptun =
        [ascii "/usr/bin/kcptun-client", ascii "-r", ascii ":4000", ascii "-l", ascii ":8388"] := by
    intro plan hplan
    obtain rfl := Option.some.inj hplan
    decide
  refine ⟨hstart, hrestart, fun h ↦ ?_⟩
  have hsame := h _ rfl .kcptun _ hstart
  rw [hrestart _ rfl] at hsame
  exact absurd hsame (by decide)

end Service

end OpenWrtCompile.Overwall.Monitor
