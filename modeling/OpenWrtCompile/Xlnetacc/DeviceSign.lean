import OpenWrtCompile.Base.Following
import OpenWrtCompile.Base.ShellWords

/-!
# The sign of the device

`gen_device_sign` of `luci-app-xlnetacc/root/usr/bin/xlnetacc.sh` (103–133): the loop that goes from the
network on to the one that its device is an alias of, and what is computed of the address of the device
that it stops at. The state of the device, the kernel's `uuid` and the digests of `openssl` are parameters.
-/

namespace OpenWrtCompile.Xlnetacc
open OpenWrtCompile.Base OpenWrtCompile.Base.ShellWords

/-- The options of an interface for its device. -/
structure Interface where
  device : Option Bytes
  ifname : Option Bytes

/-- The configuration of the network: the interfaces by their names, and the number of the one that `uci`
finds for a text that is no name, such as `@interface[0]`. -/
structure NetworkConfig where
  interfaces : List (Bytes × Interface)
  unnamed : Bytes → Option Nat

namespace NetworkConfig

variable (net : NetworkConfig)

/-- The interface that `uci` finds. -/
def find (network : Bytes) : Option Interface :=
  match net.interfaces.find? fun p ↦ p.1 = network with
  | some p => some p.2
  | none => (net.unnamed network).bind fun k ↦ (net.interfaces[k]?).map Prod.snd

/-- `uci get network.$network.device || uci get network.$network.ifname`. -/
def uciGet (network : Bytes) : Option Bytes :=
  (net.find network).bind fun i ↦ i.device.or i.ifname

/-- `$ifname`. -/
def ifname (network : Bytes) : Bytes :=
  match net.uciGet network with
  | some value => captured (value ++ [0x0A])
  | none => []

/-- The loop, with the values of `$network` and `$ifname` that it stops at, if it does within `n`
rounds. -/
def followAliases : Nat → Bytes → Option (Bytes × Bytes)
  | 0, _ => none
  | n + 1, network =>
    let ifname := net.ifname network
    if ifname.head? = some 0x40 then followAliases n (ifname.drop 1) else some (network, ifname)

end NetworkConfig

/-- What the rest of the function reads. -/
structure Host where
  macaddr : Bytes → Bytes
  uuid : Bytes
  md5 : Bytes → Bytes
  sha1 : Bytes → Bytes

/-- `toupper`. -/
def toUpper (text : Bytes) : Bytes :=
  text.map fun c ↦ if 0x61 ≤ c ∧ c ≤ 0x7A then c - 0x20 else c

/-- What the function comes to: an error that names the network, or the values of `_peerid` and
`_devicesign`. -/
inductive DeviceSign where
  | noDevice (network : Bytes)
  | noAddress (network : Bytes)
  | sign (peerid devicesign : Bytes)
  deriving DecidableEq, Repr

namespace Host

variable (h : Host)

/-- `_peerid`. -/
def peerid : Bytes := toUpper ((h.uuid.splitOn 0x2D).getD 4 []) ++ ascii "004V"

/-- `_devicesign`. -/
def devicesign (macaddr : Bytes) : Bytes :=
  let deviceId := h.md5 ((toUpper macaddr).filter (· ≠ 0x3A))
  let deviceSign := h.sha1 (deviceId ++ ascii "com.xunlei.vip.swjsq" ++ ascii "68" ++
    ascii "c7f21687eed3cdb400ca11fc2263c998")
  ascii "div101." ++ deviceId ++ h.md5 deviceSign

/-- What is done behind the loop. -/
def signOf (network ifname : Bytes) : DeviceSign :=
  if ifname = [] then .noDevice network
  else if h.macaddr ifname = [] then .noAddress network
  else .sign h.peerid (h.devicesign (h.macaddr ifname))

/-- `gen_device_sign`, if its loop ends within `n` rounds. -/
def genDeviceSign (net : NetworkConfig) (network : Bytes) (n : Nat) : Option DeviceSign :=
  (net.followAliases n network).map fun p ↦ h.signOf p.1 p.2

end Host

/-! ## The chain of aliases -/

namespace NetworkConfig

variable (net : NetworkConfig)

/-- The network of which the device of another is an alias. -/
def aliasOf (network : Bytes) : Option Bytes :=
  if (net.ifname network).head? = some 0x40 then some ((net.ifname network).drop 1) else none

/-- No network on the chain of aliases is on it twice. -/
def Acyclic (network : Bytes) : Prop := NoReturn net.aliasOf network

/-- The network stands at the end of the chain of aliases of another. -/
def EndOf (network last : Bytes) : Prop := Leads net.aliasOf network last ∧ net.aliasOf last = none

/-- The loop ends, where the chain is acyclic with the device at its end. -/
def Resolves (network : Bytes) : Prop :=
  ∃ n last device, net.followAliases n network = some (last, device) ∧
    (net.Acyclic network → net.EndOf network last ∧ device = net.ifname last)

/-- The loop follows the aliases. -/
theorem followAliases_eq (n : Nat) (network : Bytes) :
    net.followAliases n network =
      (follow net.aliasOf n network).map fun last ↦ (last, net.ifname last) := by
  induction n generalizing network with
  | zero => rfl
  | succ n ih =>
    rw [followAliases]
    by_cases halias : (net.ifname network).head? = some 0x40
    · have hnext : net.aliasOf network = some ((net.ifname network).drop 1) := if_pos halias
      rw [if_pos halias, ih, follow_step hnext]
    · have hnext : net.aliasOf network = none := if_neg halias
      rw [if_neg halias, follow_last hnext]
      rfl

/-- The networks that some device is an alias of. -/
def aliases : List Bytes :=
  net.interfaces.filterMap fun p ↦ (p.2.device.or p.2.ifname).map fun value ↦
    (captured (value ++ [0x0A])).drop 1

/-- What `uci` finds is in the configuration. -/
theorem find_mem {network : Bytes} {i : Interface} (h : net.find network = some i) :
    ∃ name, (name, i) ∈ net.interfaces := by
  unfold find at h
  split at h
  · rename_i p hp
    obtain rfl := Option.some.inj h
    exact ⟨p.1, List.mem_of_find?_eq_some hp⟩
  · obtain ⟨k, -, hk⟩ := Option.bind_eq_some_iff.mp h
    obtain ⟨p, hp, rfl⟩ := Option.map_eq_some_iff.mp hk
    exact ⟨p.1, List.mem_of_getElem? hp⟩

/-- There are no other aliases than those of the configuration. -/
theorem mem_aliases {network target : Bytes} (h : net.aliasOf network = some target) :
    target ∈ net.aliases := by
  unfold aliasOf at h
  split at h
  · rename_i hhead
    obtain rfl := Option.some.inj h
    cases hget : net.uciGet network with
    | none =>
      unfold ifname at hhead
      rw [hget] at hhead
      cases hhead
    | some value =>
      obtain ⟨i, hi, hvalue⟩ := Option.bind_eq_some_iff.mp hget
      obtain ⟨name, hname⟩ := net.find_mem hi
      have hifname : net.ifname network = captured (value ++ [0x0A]) := by
        unfold ifname
        rw [hget]
      rw [hifname]
      exact List.mem_filterMap.mpr ⟨(name, i), hname, by rw [hvalue]; rfl⟩
  · cases h

/-- The loop ends within one round more than there are interfaces where the chain is acyclic. -/
theorem exists_follow {network : Bytes} (h : net.Acyclic network) :
    ∃ n last, n ≤ net.interfaces.length + 1 ∧ follow net.aliasOf n network = some last := by
  have hreach : ∀ b, Relation.TransGen (Next net.aliasOf) network b → b ∈ net.aliases.toFinset := by
    intro b hb
    obtain ⟨a, -, hab⟩ := Relation.TransGen.tail'_iff.mp hb
    exact List.mem_toFinset.mpr (net.mem_aliases hab)
  obtain ⟨last, hlast⟩ := follow_of_noReturn net.aliases.toFinset hreach h
  have hcard : net.aliases.toFinset.card ≤ net.interfaces.length :=
    (List.toFinset_card_le net.aliases).trans (List.length_filterMap_le _ _)
  exact ⟨_, last, Nat.succ_le_succ hcard, hlast⟩

/-- The loop ends, with the device at the end of the chain where there is no cycle, if and only if no
network on the chain is on it twice. -/
theorem resolves_iff_acyclic (network : Bytes) : net.Resolves network ↔ net.Acyclic network := by
  constructor
  · rintro ⟨n, last, device, hloop, -⟩
    rw [followAliases_eq, Option.map_eq_some_iff] at hloop
    obtain ⟨c, hc, -⟩ := hloop
    exact noReturn_of_follow hc
  · intro hacyclic
    obtain ⟨n, last, -, hlast⟩ := net.exists_follow hacyclic
    refine ⟨n, last, net.ifname last, ?_, fun _ ↦ ⟨follow_spec hlast, rfl⟩⟩
    rw [followAliases_eq, hlast]
    rfl

/-- Two interfaces that are aliases of each other. -/
def twoAliases : NetworkConfig where
  interfaces := [(ascii "wan", ⟨some (ascii "@lan"), none⟩), (ascii "lan", ⟨some (ascii "@wan"), none⟩)]
  unnamed := fun _ ↦ none

/-- The loop does not end for two interfaces that are aliases of each other. -/
theorem not_resolves_twoAliases : ¬ twoAliases.Resolves (ascii "wan") := by
  rintro ⟨n, last, device, hloop, -⟩
  have hnone : ∀ k, twoAliases.followAliases k (ascii "wan") = none ∧
      twoAliases.followAliases k (ascii "lan") = none := by
    intro k
    induction k with
    | zero => exact ⟨rfl, rfl⟩
    | succ k ih => exact ⟨ih.2, ih.1⟩
  rw [(hnone n).1] at hloop
  cases hloop

end NetworkConfig

end OpenWrtCompile.Xlnetacc
