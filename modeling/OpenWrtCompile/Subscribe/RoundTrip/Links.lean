import OpenWrtCompile.Subscribe.RoundTrip.Ss
import OpenWrtCompile.Subscribe.RoundTrip.Trojan
import OpenWrtCompile.Subscribe.RoundTrip.Vless

/-!
# The round trip of a share link

Which nodes come back from their link, for all five types: no text of the node is a mark of its link, and
no field is written in a form that the script does not read.
-/

namespace OpenWrtCompile.Subscribe
open OpenWrtCompile.Base

/-- What stands in the way of the round trip of a node. -/
def LinkKept (f : Form) : Prop :=
  match f.type with
  | .ss => SsKept f
  | .ssr => SsrKept f
  | .vmess => VmessKept f
  | .vless => VlessKept f
  | .trojan => TrojanKept f

/-- A node comes back from its link if and only if its texts are kept in it. -/
theorem roundTrips_link_iff (env : Env) (f : Form) (h64 : Decodes64 env.b64decode)
    (hjson : f.type = .vmess → ParsesInfo env f) (hfill : Filled f) :
    RoundTrips env f ↔ LinkKept f := by
  unfold LinkKept
  cases htype : f.type with
  | ss => exact roundTrips_ss_iff h64 htype hfill
  | ssr => exact roundTrips_ssr_iff h64 htype hfill
  | vmess => exact roundTrips_vmess_iff h64 (hjson htype) htype hfill
  | vless => exact roundTrips_vless_iff h64 htype hfill
  | trojan => exact roundTrips_trojan_iff env htype hfill

/-- A value that is an empty text. -/
def Value.isEmptyText : Value → Bool
  | .str [] => true
  | _ => false

/-- Whether a field is empty is decided. -/
theorem filled_of_all {f : Form} (h : (exported f).all (fun p ↦ !p.2.isEmptyText) = true) :
    Filled f := by
  intro p hp hnil
  have hfull := List.all_eq_true.mp h p hp
  rw [hnil] at hfull
  cases hfull

/-- A decoder of base64 text that passes over its padding. -/
def decodePadded (t : Bytes) : Option Bytes := Base64.decode (t.filter (· ≠ 0x3D))

/-- It decodes as the script relies on it. -/
theorem decodes64_decodePadded : Decodes64 decodePadded := by
  have hpadded : ∀ data, (Base64.padded data).filter (· ≠ 0x3D) = Base64.encode data := by
    intro data
    have hself : (Base64.encode data).filter (· ≠ 0x3D) = Base64.encode data :=
      List.filter_eq_self.mpr fun c hc ↦ by simpa using (ne_of_mem_encode hc).2.2.2
    rw [Base64.padded, List.filter_append, hself, List.filter_replicate]
    simp
  refine ⟨fun data ↦ ?_, fun data ↦ ?_, fun t c hc hvalue hne ↦ ?_⟩
  · rw [decodePadded, hpadded, Base64.decode_encode]
  · have hfour : (ascii "====").filter (· ≠ 0x3D) = [] := by decide
    rw [decodePadded, List.filter_append, hpadded, hfour, List.append_nil, Base64.decode_encode]
  · exact Base64.decode_eq_none (List.mem_filter.mpr ⟨hc, by simpa using hne⟩) hvalue

/-- A script whose base64 decoder is this one, and whose JSON parser reads the object of one node. -/
def linkEnv (f : Form) : Env where
  b64decode := decodePadded
  jsonParse text := if text = utf8 (stringify f.info) then .table [] f.infoTable else .nil
  jsonStringify _ := []
  md5sum text := text
  find _ _ := .ok true
  host _ := true
  addName _ := []

/-- It reads the object of that node. -/
theorem parsesInfo_linkEnv (f : Form) : ParsesInfo (linkEnv f) f := if_pos rfl

/-- A `vmess` node with a transport. -/
def grpcNode : Form where
  type := .vmess
  nodeAlias := text "home"
  server := text "example.com"
  serverPort := text "443"
  uuid := text "1234"
  transport := text "grpc"
  grpcServiceName := text "a=b"
  grpcAuthority := text "example.com"
  security := text "none"

/-- It comes back from its link. -/
theorem roundTrips_link_grpc : RoundTrips (linkEnv grpcNode) grpcNode := by
  have hkept : VmessKept grpcNode :=
    ⟨by decide, by decide, fun h ↦ absurd h (by decide), fun h ↦ absurd h (by decide),
      fun h ↦ absurd h (by decide)⟩
  exact (roundTrips_link_iff (linkEnv grpcNode) grpcNode decodes64_decodePadded
    (fun _ ↦ parsesInfo_linkEnv grpcNode) (filled_of_all (by decide))).mpr hkept

/-- An `ss` node with a plugin. -/
def pluginNode : Form where
  type := .ss
  nodeAlias := text "home"
  server := text "example.com"
  serverPort := text "443"
  encryptMethodSs := text "aes-256-gcm"
  password := text "secret"
  plugin := text "obfs-local"
  pluginOpts := text "obfs=http"

/-- Its options do not come back. -/
theorem not_roundTrips_link_plugin : ¬ ∀ env f, Decodes64 env.b64decode →
    (f.type = .vmess → ParsesInfo env f) → Filled f → RoundTrips env f := by
  intro h
  have hfill : Filled pluginNode := filled_of_all (by decide)
  have hround := h (linkEnv pluginNode) pluginNode decodes64_decodePadded (fun hv ↦ by cases hv) hfill
  have hkept := (roundTrips_ss_iff decodes64_decodePadded rfl hfill).mp hround
  have hequal : ascii "=" <:+: utf8 pluginNode.pluginOpts := by decide
  exact (hkept.plugin (by decide)).marks pluginNode.pluginOpts (by simp) (ascii "=") (by decide) hequal

end OpenWrtCompile.Subscribe
