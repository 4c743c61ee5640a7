import OpenWrtCompile.Subscribe.Authority
import OpenWrtCompile.Subscribe.RoundTrip.Vmess

/-!
# The round trip of a `vless` link

A `vless` link of `buildUrl` (`url.htm:208–274`) has its parameters encoded but for two: the transport
and the flow are written as they are, and come out only where nothing in them is a mark of the link or an
escape. The link has its `?` behind the port without a `/`, so a `/` that ends the port is lost.
-/

namespace OpenWrtCompile.Subscribe
open OpenWrtCompile.Base

/-- A parameter whose value is encoded. -/
def encoded (p : String × Text) : Item := (text p.1, encodeURIComponent p.2)

/-- What the parameters of a `vless` link say of the transport. -/
def Form.transportPairs (f : Form) : List (String × Text) :=
  if f.transport = text "ws" then [("host", f.wsHost), ("path", f.wsPath)]
  else if f.transport = text "tcp" ∧ f.tcpGuise = text "http" then
    [("headerType", f.tcpGuise), ("host", f.httpHost), ("path", f.httpPath)]
  else if f.transport = text "kcp" then [("headerType", f.kcpGuise), ("seed", f.seed)]
  else if f.transport = text "grpc" then
    [("serviceName", f.grpcServiceName), ("authority", f.grpcAuthority)]
  else if f.transport = text "httpupgrade" then
    [("host", f.httpupgradeHost), ("path", f.httpupgradePath)]
  else []

/-- A pair with a value. -/
def pairUnlessEmpty (param : String) (value : Text) : List (String × Text) :=
  if value = [] then [] else [(param, value)]

/-- What they say of TLS and REALITY. -/
def Form.securityPairs (f : Form) : List (String × Text) :=
  (if f.reality then
    [("security", text "reality"), ("pbk", f.publickey), ("fp", f.fingerReal)] ++
      pairUnlessEmpty "sid" f.shortid ++ pairUnlessEmpty "spx" f.spiderx
  else
    [("security", text "tls"),
      ("fp", if f.fingerprint = [] then text "random" else f.fingerprint)] ++
      if f.insecure then [("allowInsecure", text "1")] else []) ++
    pairUnlessEmpty "sni" f.sni

/-- The flow, which is not encoded. -/
def Form.flowItems (f : Form) : List Item :=
  if f.vlessFlow = [] then [] else [(text "flow", f.vlessFlow)]

/-- The parameters of a `vless` link. -/
def Form.vlessItems (f : Form) : List Item :=
  f.transportPairs.map encoded ++
    ((text "type", f.transport) :: encoded ("encryption", f.vlessEncryption) ::
      if f.tls || f.reality then f.securityPairs.map encoded ++ f.flowItems else [])

/-- One encoded parameter is one of the form. -/
theorem joined_encoded (pairs : List (String × Text)) :
    joined (pairs.map encoded) = pairs.flatMap fun p ↦ query p.1 p.2 := by
  induction pairs with
  | nil => rfl
  | cons p pairs ih =>
    rw [List.map_cons, List.flatMap_cons, ← ih, query_eq]
    exact (joined_append [encoded p] _)

/-- The parameters of the transport are the ones that `buildUrl` joins. -/
theorem transportParams_eq (f : Form) :
    f.transportParams = joined (f.transportPairs.map encoded) := by
  rw [joined_encoded]
  unfold Form.transportParams Form.transportPairs
  split_ifs <;> simp

/-- A parameter that is left out where its field is empty. -/
theorem queryUnlessEmpty_eq (param : String) (value : Text) :
    queryUnlessEmpty param value =
      (pairUnlessEmpty param value).flatMap fun p ↦ query p.1 p.2 := by
  unfold queryUnlessEmpty pairUnlessEmpty
  split <;> simp

/-- The parameters of TLS and REALITY are the ones that `buildUrl` joins. -/
theorem securityParams_eq (f : Form) :
    f.securityParams = joined (f.securityPairs.map encoded) := by
  have hreality : text "&security=reality" = query "security" (text "reality") := by decide
  have htls : text "&security=tls" = query "security" (text "tls") := by decide
  have hrandom : text "&fp=random" = query "fp" (text "random") := by decide
  have hinsecure : text "&allowInsecure=1" = query "allowInsecure" (text "1") := by decide
  rw [joined_encoded]
  unfold Form.securityParams Form.securityPairs
  rw [List.flatMap_append, queryUnlessEmpty_eq "sni"]
  congr 1
  split
  · rw [List.flatMap_append, List.flatMap_append, hreality, queryUnlessEmpty_eq "sid",
      queryUnlessEmpty_eq "spx"]
    simp
  · rw [List.flatMap_append, htls, hrandom, hinsecure]
    split_ifs <;> simp

/-- All parameters are the ones that `buildUrl` joins. -/
theorem vlessParams_eq (f : Form) : f.vlessParams = joined f.vlessItems := by
  have hflow : f.flowParam = joined f.flowItems := by
    unfold Form.flowParam Form.flowItems
    split
    · rfl
    · simp [joined, text]
  have hcons : ∀ (p : Item) (items : List Item), joined (p :: items) = joined [p] ++ joined items :=
    fun p items ↦ joined_append [p] items
  have htype : text "&type=" ++ f.transport = joined [(text "type", f.transport)] := by
    simp [joined, text]
  unfold Form.vlessParams Form.vlessItems
  rw [transportParams_eq, joined_append, hcons (text "type", f.transport),
    hcons (encoded ("encryption", f.vlessEncryption)), ← htype, query_eq, hflow, securityParams_eq]
  simp only [List.append_assoc, encoded]
  split_ifs
  · rw [joined_append]
  · rfl

/-- A `vless` link before its alias. -/
def Form.vlessBytes (f : Form) : Bytes :=
  escapeBytes isUnescaped (utf8 f.uuid) ++
    0x40 :: (f.hostPort ++ 0x3F :: queryBytes f.vlessItems)

/-- The bytes of a `vless` link. -/
theorem utf8_vlessUrl (f : Form) :
    utf8 f.vlessUrl = f.vlessBytes ++ 0x23 :: escapeBytes isKept (utf8 f.nodeAlias) := by
  have hat : utf8 (text "@") = [0x40] := rfl
  have hcolon : utf8 (text ":") = [0x3A] := rfl
  have hquery : utf8 (text "?") = [0x3F] := rfl
  unfold Form.vlessUrl Form.vlessBytes Form.hostPort
  rw [vlessParams_eq]
  simp only [utf8_append, utf8_withAlias, utf8_encodeURIComponent, hat, hcolon, hquery,
    List.append_assoc, List.cons_append, List.nil_append]

/-! ### The texts that are not encoded -/

/-- The bytes at which a `vless` link is cut. -/
def rawSpecial : Bytes := [0, 0x23, 0x40, 0x3F, 0x26, 0x3D]

/-- A text comes out of a link in which it is written as it is. -/
structure RawKept (s : Text) : Prop where
  clean : ∀ c ∈ rawSpecial, c ∉ utf8 s
  cut : ¬ ascii "://" <:+: utf8 s
  undecoded : Undecoded (utf8 s)

/-- The keys of the parameters of the transport. -/
def transportKeys : List String := ["host", "path", "headerType", "seed", "serviceName", "authority"]

/-- The keys of the parameters of TLS and REALITY that are encoded. -/
def securityKeys : List String := ["security", "pbk", "fp", "sid", "spx", "allowInsecure", "sni"]

/-- The keys of the parameters that are encoded. -/
def encodedKeys : List String := transportKeys ++ "encryption" :: securityKeys

/-- The parameters of the transport have its keys. -/
theorem transportPairs_keys (f : Form) : ∀ q ∈ f.transportPairs, q.1 ∈ transportKeys := by
  unfold Form.transportPairs
  split_ifs <;> simp [transportKeys]

/-- The parameters of TLS and REALITY have theirs. -/
theorem securityPairs_keys (f : Form) : ∀ q ∈ f.securityPairs, q.1 ∈ securityKeys := by
  have hunless : ∀ {param : String} (value : Text), param ∈ securityKeys →
      ∀ q ∈ pairUnlessEmpty param value, q.1 ∈ securityKeys := by
    intro param value hparam
    unfold pairUnlessEmpty
    split <;> simp [hparam]
  unfold Form.securityPairs
  rw [List.forall_mem_append]
  refine ⟨forall_mem_ite ?_ ?_, hunless _ (by decide)⟩
  · simp only [List.forall_mem_append]
    exact ⟨⟨by simp [securityKeys], hunless _ (by decide)⟩, hunless _ (by decide)⟩
  · rw [List.forall_mem_append]
    exact ⟨by simp [securityKeys], forall_mem_ite (by simp [securityKeys]) (by simp)⟩

/-- A parameter of a `vless` link is encoded, the transport or the flow. -/
theorem cases_of_mem_vlessItems {f : Form} {p : Item} (h : p ∈ f.vlessItems) :
    (∃ k ∈ encodedKeys, ∃ s, p = encoded (k, s)) ∨ p = (text "type", f.transport) ∨
      (p = (text "flow", f.vlessFlow) ∧ (f.tls || f.reality) = true ∧ f.vlessFlow ≠ []) := by
  have hpair : ∀ {pairs : List (String × Text)}, (∀ q ∈ pairs, q.1 ∈ encodedKeys) →
      p ∈ pairs.map encoded → ∃ k ∈ encodedKeys, ∃ s, p = encoded (k, s) := by
    intro pairs hkeys hp
    obtain ⟨q, hq, rfl⟩ := List.mem_map.mp hp
    exact ⟨q.1, hkeys q hq, q.2, rfl⟩
  have htransport : ∀ q ∈ f.transportPairs, q.1 ∈ encodedKeys := fun q hq ↦
    List.mem_append_left _ (transportPairs_keys f q hq)
  have hsecurity : ∀ q ∈ f.securityPairs, q.1 ∈ encodedKeys := fun q hq ↦
    List.mem_append_right _ (List.mem_cons_of_mem _ (securityPairs_keys f q hq))
  unfold Form.vlessItems at h
  rw [List.mem_append, List.mem_cons, List.mem_cons] at h
  obtain h | rfl | rfl | h := h
  · exact Or.inl (hpair htransport h)
  · exact Or.inr (Or.inl rfl)
  · exact Or.inl ⟨"encryption", by decide, _, rfl⟩
  · split at h
    · next hon =>
      rw [List.mem_append] at h
      obtain h | h := h
      · exact Or.inl (hpair hsecurity h)
      · unfold Form.flowItems at h
        split at h
        · exact absurd h List.not_mem_nil
        · next hne => exact Or.inr (Or.inr ⟨List.mem_singleton.mp h, hon, hne⟩)
    · exact absurd h List.not_mem_nil

/-! ### A clean link -/

/-- The texts that a `vless` link has as they are. -/
def Form.rawTexts (f : Form) : List Text :=
  f.transport :: if f.tls || f.reality then [f.vlessFlow] else []

/-- The marks stand in the link only where it has them. -/
structure VlessClean (f : Form) : Prop where
  host : ∀ c ∈ urlSpecial, c ∉ f.hostPort
  raw : ∀ s ∈ f.rawTexts, RawKept s

/-- No key holds a byte with a meaning. -/
theorem encodedKeys_clean {k : String} (hk : k ∈ encodedKeys) :
    utf8 (text k) ≠ [] ∧ ∀ c ∈ 0x3A :: rawSpecial, c ∉ utf8 (text k) := by
  have hkeys : ∀ k ∈ encodedKeys, utf8 (text k) ≠ [] ∧ (utf8 (text k)).all isAlnum = true := by
    decide
  have hspecial : ∀ c ∈ 0x3A :: rawSpecial, isAlnum c = false := forall_mem_of_all (by decide)
  obtain ⟨hne, hall⟩ := hkeys k hk
  refine ⟨hne, fun c hc hmem ↦ ?_⟩
  have halnum := List.all_eq_true.mp hall c hmem
  rw [hspecial c hc] at halnum
  cases halnum

/-- The fields of the transport have the texts of its parameters. -/
theorem transportFields_snd (f : Form) :
    f.transportFields.map Prod.snd = f.transportPairs.map fun q ↦ Value.str (utf8 q.2) := by
  unfold Form.transportFields Form.transportPairs
  split_ifs <;> rfl

/-- A parameter that is there has a text. -/
theorem ne_nil_of_mem_pairUnlessEmpty {param : String} {value : Text} :
    ∀ q ∈ pairUnlessEmpty param value, q.2 ≠ [] := by
  unfold pairUnlessEmpty
  split
  · simp
  · next h => simp [h]

/-- What a `vless` link has of its fields is not empty. -/
theorem ne_nil_of_mem_vlessItems {f : Form} (htype : f.type = .vless) (hfill : Filled f) {p : Item}
    (h : p ∈ f.vlessItems) : p.2 ≠ [] := by
  have hencoded : ∀ {pairs : List (String × Text)}, (∀ q ∈ pairs, q.2 ≠ []) →
      p ∈ pairs.map encoded → p.2 ≠ [] := by
    intro pairs hne hp hnil
    obtain ⟨q, hq, rfl⟩ := List.mem_map.mp hp
    have hbytes := utf8_encodeURIComponent q.2
    rw [show encodeURIComponent q.2 = [] from hnil] at hbytes
    exact hne q hq (utf8_eq_nil.mp (escapeBytes_eq_nil.mp hbytes.symm))
  have hexported : ∀ {name : String} {value : Text}, field name value ∈ exported f → value ≠ [] :=
    fun hmem ↦ hfill.ne_nil hmem
  unfold exported at hexported
  rw [htype] at hexported
  have htransport : ∀ q ∈ f.transportPairs, q.2 ≠ [] := by
    intro q hq hnil
    have hvalue : Value.str (utf8 q.2) ∈ f.transportFields.map Prod.snd := by
      rw [transportFields_snd]
      exact List.mem_map.mpr ⟨q, hq, rfl⟩
    obtain ⟨r, hr, heq⟩ := List.mem_map.mp hvalue
    refine hfill r ?_ (heq.trans (by rw [hnil]; rfl))
    unfold exported
    rw [htype]
    simp [hr]
  have hsecurity : (f.tls || f.reality) = true → ∀ q ∈ f.securityPairs, q.2 ≠ [] := by
    intro hon
    unfold Form.securityFields at hexported
    unfold Form.securityPairs
    rw [if_pos hon] at hexported
    rw [List.forall_mem_append]
    refine ⟨?_, ne_nil_of_mem_pairUnlessEmpty⟩
    by_cases hreality : f.reality = true
    · rw [if_pos hreality] at hexported ⊢
      simp only [List.forall_mem_append, List.forall_mem_cons]
      exact ⟨⟨⟨by simp [text], @hexported "publickey" _ (by simp),
        @hexported "finger_real" _ (by simp), by simp⟩, ne_nil_of_mem_pairUnlessEmpty⟩,
        ne_nil_of_mem_pairUnlessEmpty⟩
    · rw [if_neg hreality] at hexported ⊢
      have hfp : f.fingerprint ≠ [] := @hexported "fingerprint" _ (by simp)
      simp only [List.forall_mem_append, List.forall_mem_cons, if_neg hfp]
      exact ⟨⟨by simp [text], hfp, by simp⟩, forall_mem_ite (by simp [text]) (by simp)⟩
  unfold Form.vlessItems at h
  rw [List.mem_append, List.mem_cons, List.mem_cons] at h
  obtain h | rfl | rfl | h := h
  · exact hencoded htransport h
  · exact @hexported "transport" _ (by simp)
  · exact @hencoded [("encryption", f.vlessEncryption)]
      (List.forall_mem_singleton.mpr (@hexported "vless_encryption" _ (by simp))) (by simp)
  · split at h
    · next hon =>
      obtain h | h := List.mem_append.mp h
      · exact hencoded (hsecurity hon) h
      · unfold Form.flowItems at h
        split at h
        · exact absurd h List.not_mem_nil
        · next hne => exact (List.mem_singleton.mp h) ▸ hne
    · exact absurd h List.not_mem_nil

namespace VlessClean

variable {f : Form} (h : VlessClean f)
include h

/-- The transport comes out. -/
theorem transport : RawKept f.transport := h.raw f.transport List.mem_cons_self

/-- The flow comes out if the link has it. -/
theorem flow (hon : (f.tls || f.reality) = true) : RawKept f.vlessFlow :=
  h.raw f.vlessFlow (by simp [Form.rawTexts, hon])

/-- Every parameter has a clean key and a value that holds no mark. -/
theorem item {p : Item} (hp : p ∈ f.vlessItems) :
    (∀ c ∈ rawSpecial, c ∉ utf8 p.1 ∧ c ∉ utf8 p.2) ∧ utf8 p.1 ≠ [] ∧
      ¬ ascii "://" <:+: utf8 p.1 ∧ ¬ ascii "://" <:+: utf8 p.2 := by
  obtain ⟨k, hk, s, rfl⟩ | rfl | ⟨rfl, hon, -⟩ := cases_of_mem_vlessItems hp
  · obtain ⟨hne, hkey⟩ := encodedKeys_clean hk
    have hvalue : ∀ c ∈ 0x3A :: rawSpecial, c ∉ utf8 (encodeURIComponent s) := by
      intro c hc
      rw [utf8_encodeURIComponent]
      apply not_mem_user
      simp only [rawSpecial, List.mem_cons, List.not_mem_nil, or_false] at hc ⊢
      tauto
    exact ⟨fun c hc ↦ ⟨hkey c (List.mem_cons_of_mem _ hc), hvalue c (List.mem_cons_of_mem _ hc)⟩,
      hne, not_link_of_not_mem (hkey _ List.mem_cons_self),
      not_link_of_not_mem (hvalue _ List.mem_cons_self)⟩
  · have hkey : ∀ c ∈ rawSpecial, c ∉ utf8 (text "type") := forall_mem_of_all (by decide)
    have hname : utf8 (text "type") ≠ [] ∧ ¬ ascii "://" <:+: utf8 (text "type") := by decide
    exact ⟨fun c hc ↦ ⟨hkey c hc, h.transport.clean c hc⟩, hname.1, hname.2, h.transport.cut⟩
  · have hkey : ∀ c ∈ rawSpecial, c ∉ utf8 (text "flow") := forall_mem_of_all (by decide)
    have hname : utf8 (text "flow") ≠ [] ∧ ¬ ascii "://" <:+: utf8 (text "flow") := by decide
    exact ⟨fun c hc ↦ ⟨hkey c hc, (h.flow hon).clean c hc⟩, hname.1, hname.2, (h.flow hon).cut⟩

/-- Every parameter is readable. -/
theorem readable (htype : f.type = .vless) (hfill : Filled f) : ∀ p ∈ f.vlessItems, p.Readable := by
  intro p hp
  obtain ⟨hclean, hne, -⟩ := h.item hp
  have hmem : ∀ c ∈ [(0 : UInt8), 0x26, 0x3D], c ∈ rawSpecial := forall_mem_of_all (by decide)
  refine ⟨⟨hne, fun c hc ↦ (hclean c (hmem c hc)).1⟩, ?_, fun c hc ↦ (hclean c (hmem c hc)).2⟩
  rw [ne_eq, utf8_eq_nil]
  exact ne_nil_of_mem_vlessItems htype hfill hp

/-- The bytes with a meaning do not occur in the parameters. -/
theorem not_mem_query {c : UInt8} (hc : c ∈ urlSpecial) : c ∉ queryBytes f.vlessItems := by
  have hraw : c ∈ rawSpecial ∧ c ≠ 0x26 ∧ c ≠ 0x3D := by
    simp only [urlSpecial, List.mem_cons, List.not_mem_nil, or_false] at hc
    obtain rfl | rfl | rfl | rfl := hc <;> decide
  exact not_mem_queryBytes hraw.2 fun p hp ↦ (h.item hp).1 c hraw.1

/-- The query is not cut. -/
theorem uncut_query : ¬ ascii "://" <:+: queryBytes f.vlessItems := by
  unfold queryBytes
  rw [Search.infix_intercalate (by decide) (by decide)]
  rintro ⟨x, hx, hin⟩
  obtain ⟨p, hp, rfl⟩ := List.mem_map.mp hx
  obtain ⟨-, -, hkey, hvalue⟩ := h.item hp
  unfold Item.bytes at hin
  rw [Search.infix_append_cons (by decide)] at hin
  exact hin.elim hkey hvalue

/-- Where the link has a `://` before its alias. -/
theorem link_iff : ascii "://" <:+: f.vlessBytes ↔ ascii "://" <:+: f.hostPort := by
  have huser : ¬ ascii "://" <:+: escapeBytes isUnescaped (utf8 f.uuid) :=
    not_link_of_not_mem (not_mem_user (by decide) _)
  unfold Form.vlessBytes
  rw [Search.infix_append_cons (by decide), Search.infix_append_cons (by decide)]
  exact (or_iff_right huser).trans (or_iff_left h.uncut_query)

/-- No zero byte and no `#` stands before the alias. -/
theorem not_mem_bytes {c : UInt8} (hc : c ∈ [(0 : UInt8), 0x23]) : c ∉ f.vlessBytes := by
  have hspecial : c ∈ urlSpecial ∧ c ≠ 0x40 ∧ c ≠ 0x3F ∧
      c ∈ [(0 : UInt8), 0x23, 0x40, 0x3F, 0x3A, 0x26, 0x3D] := by
    simp only [List.mem_cons, List.not_mem_nil, or_false] at hc
    obtain rfl | rfl := hc <;> decide
  unfold Form.vlessBytes
  simp only [List.mem_append, List.mem_cons, not_or]
  exact ⟨not_mem_user hspecial.2.2.2 _, hspecial.2.1, h.host c hspecial.1, hspecial.2.2.1,
    h.not_mem_query hspecial.1⟩

end VlessClean

/-! ### Server and port -/

/-- Address and port as they are read of a `vless` link, where a `/` before the `?` is dropped. -/
def Form.urlHost (f : Form) : Bytes :=
  if f.hostPort.getLast? = some 0x2F then f.hostPort.dropLast else f.hostPort

/-- What is left of a `?` right behind the port. -/
theorem gsubSlash_hostPort {f : Form} (h : 0x3F ∉ f.hostPort) (q : Bytes) :
    gsubSlash (f.hostPort ++ 0x3F :: q) = f.urlHost ++ 0x3F :: gsubSlash q := by
  unfold Form.urlHost
  split
  · next hlast =>
    obtain ⟨t, heq⟩ := List.getLast?_eq_some_iff.mp hlast
    rw [heq, List.mem_append, not_or] at h
    rw [heq, List.dropLast_concat, List.append_assoc, List.singleton_append]
    exact gsubSlash_append_slash q h.1
  · next hlast => exact gsubSlash_append_question q h hlast

/-- Nothing else is in the host that is read. -/
theorem mem_of_mem_urlHost {f : Form} {c : UInt8} (h : c ∈ f.urlHost) : c ∈ f.hostPort := by
  unfold Form.urlHost at h
  split at h
  · exact List.mem_of_mem_dropLast h
  · exact h

/-- Host and query of a link whose `?` stands right behind its port. -/
theorem hostQuery_question {f : Form} {q : Bytes} (ht : 0x3F ∉ f.hostPort) (hq : 0x3F ∉ q)
    (hzero : 0 ∉ f.hostPort ++ q) :
    hostQuery (some (f.hostPort ++ 0x3F :: q)) = .ok (f.urlHost, someUnlessNil q) := by
  rw [List.mem_append, not_or] at hzero
  have hfree : 0 ∉ f.urlHost ++ 0x3F :: q := by
    rw [List.mem_append, List.mem_cons, not_or, not_or]
    exact ⟨fun h ↦ hzero.1 (mem_of_mem_urlHost h), by decide, hzero.2⟩
  unfold hostQuery
  rw [Option.getD_some, gsubSlash_hostPort ht, gsubSlash_of_not_mem hq,
    split_question (fun h ↦ ht (mem_of_mem_urlHost h)) hq hfree]
  unfold someUnlessNil
  split_ifs <;> rfl

/-- What stands in the way of the port of a `vless` link: it does not end with a `/`, which is dropped,
but where that leaves the server in its place. -/
def PortKept (f : Form) : Prop :=
  (utf8 f.serverPort).getLast? ≠ some 0x2F ∨ f.server = text "/" ∧ f.serverPort = text "/"

/-- A bracketed address and a colon are read as an address without a port, which ends with the bracket. -/
theorem authority_colon_end {d t : Bytes} (hzero : 0 ∉ t) (hmem : 0x3A ∈ t) :
    ∃ b, (authority d (0x5B :: t ++ [0x5D] ++ [0x3A])).2 = .str b ∧ 0x5D ∈ b := by
  obtain ⟨x, y, rfl, hy⟩ := exists_last_cut hmem
  have htext : 0x5B :: (x ++ 0x3A :: y) ++ [0x5D] ++ [0x3A] =
      (0x5B :: x) ++ 0x3A :: ((y ++ [0x5D]) ++ [0x3A]) := by simp
  have hfree : 0 ∉ (0x5B :: x) ++ 0x3A :: ((y ++ [0x5D]) ++ [0x3A]) := by simpa using hzero
  have hend : 0x3A ∉ y ++ [0x5D] := by simpa using hy
  have hlast : (split (some ((0x5B :: x) ++ 0x3A :: ((y ++ [0x5D]) ++ [0x3A]))) (ascii ":")).getLast? =
      some (y ++ [0x5D]) := by
    show (Search.split [0x3A] (stripNul _)).getLast? = _
    rw [stripNul_eq_self hfree, Search.split_append_cut, Search.split_concat hend,
      List.getLast?_append, List.getLast?_singleton, Option.some_or]
  refine ⟨y ++ [0x5D], ?_, by simp⟩
  rw [htext, authority, if_pos (by simp)]
  simp only [hlast]
  rfl

/-- The server and the port come out of the address that is read. -/
theorem authority_urlHost_iff {f : Form} (hzero : 0 ∉ f.hostPort) (hport : 0x3A ∉ utf8 f.serverPort)
    (hne : utf8 f.serverPort ≠ []) :
    authority (ascii "443") f.urlHost = (.str (utf8 f.server), .str (utf8 f.serverPort)) ↔
      (bracketed f.hostPort).getD (utf8 f.server) = utf8 f.server ∧ PortKept f := by
  have hlastEq : f.hostPort.getLast? = (utf8 f.serverPort).getLast? := by
    unfold Form.hostPort
    rw [List.getLast?_append_of_ne_nil _ (List.cons_ne_nil _ _), List.getLast?_cons_of_ne_nil hne]
  by_cases hlast : (utf8 f.serverPort).getLast? = some 0x2F
  swap
  · have hhost : f.urlHost = f.hostPort := by
      unfold Form.urlHost
      rw [hlastEq, if_neg hlast]
    rw [hhost, authority_hostPort hzero hport hne, Prod.mk.injEq, Value.str.injEq]
    exact and_congr_right fun _ ↦ iff_of_true rfl (Or.inl hlast)
  · obtain ⟨q, hq⟩ := List.getLast?_eq_some_iff.mp hlast
    have hhost : f.urlHost = utf8 f.address ++ 0x3A :: q := by
      have hcut : f.hostPort = (utf8 f.address ++ 0x3A :: q) ++ [0x2F] := by
        rw [Form.hostPort, hq, List.append_assoc, List.cons_append]
      unfold Form.urlHost
      rw [hlastEq, if_pos hlast, hcut, List.dropLast_concat]
    have hfree : 0 ∉ utf8 f.address ++ 0x3A :: q := by
      rw [Form.hostPort, hq, ← List.cons_append, ← List.append_assoc, List.mem_append, not_or] at hzero
      exact hzero.1
    have hcolon : 0x3A ∉ q := fun hmem ↦ hport (hq ▸ List.mem_append_left _ hmem)
    have hslash : utf8 f.serverPort = [0x2F] ↔ f.serverPort = text "/" :=
      utf8_inj (t := text "/")
    have hroot : utf8 f.server = [0x2F] ↔ f.server = text "/" := utf8_inj (t := text "/")
    rw [PortKept, hhost, ← hslash, ← hroot, Prod.ext_iff]
    by_cases hnil : q = []
    swap
    · -- the port has lost its last byte
      rw [authority_snd hfree hnil hcolon]
      refine iff_of_false (fun h ↦ ?_) fun h ↦ ?_
      · have hlen := congrArg List.length ((Value.str.inj h.2).trans hq)
        simp at hlen
      · obtain h | ⟨-, h⟩ := h.2
        · exact h hlast
        · rw [h] at hq
          have hlen := congrArg List.length hq
          simp only [List.length_append, List.length_singleton] at hlen
          exact hnil (List.length_eq_zero_iff.mp (by omega))
    subst hnil
    rw [List.nil_append] at hq
    by_cases hmem : 0x3A ∈ utf8 f.server
    · -- what is read as the port ends with the bracket of the server
      have haddress : utf8 f.address = 0x5B :: utf8 f.server ++ [0x5D] := by
        rw [utf8_address, if_pos hmem]
      have hserverZero : 0 ∉ utf8 f.server := by
        rw [haddress] at hfree
        simp only [List.cons_append, List.mem_cons, List.mem_append, not_or] at hfree
        exact hfree.2.1.1
      obtain ⟨b, hb, hclose⟩ := @authority_colon_end (ascii "443") _ hserverZero hmem
      rw [haddress, hb, hq]
      refine iff_of_false (fun h ↦ ?_) fun h ↦ ?_
      · rw [Value.str.inj h.2] at hclose
        revert hclose
        decide
      · obtain h | ⟨h, -⟩ := h.2
        · exact h (hq ▸ hlast)
        · rw [h] at hmem
          revert hmem
          decide
    · have haddress : utf8 f.address = utf8 f.server := by rw [utf8_address, if_neg hmem]
      have hpieces : split (some (utf8 f.server ++ [0x3A])) (ascii ":") = [utf8 f.server] := by
        show Search.split [0x3A] (stripNul _) = _
        rw [stripNul_eq_self (haddress ▸ hfree), Search.split_concat hmem]
      have hauth : authority (ascii "443") (utf8 f.server ++ [0x3A]) =
          (.str ((bracketed (utf8 f.server ++ [0x3A])).getD (utf8 f.server)),
            .str (utf8 f.server)) := by
        rw [authority, if_pos (by simp)]
        simp only [hpieces, List.head?_cons, List.getLast?_singleton]
        cases bracketed (utf8 f.server ++ [0x3A]) <;> rfl
      rw [haddress, hauth, hq]
      constructor
      · rintro ⟨-, h⟩
        have hself := Value.str.inj h
        refine ⟨?_, Or.inr ⟨hself, rfl⟩⟩
        rw [Form.hostPort, haddress, hself, hq]
        rfl
      · rintro ⟨-, h | ⟨h, -⟩⟩
        · exact absurd rfl h
        · rw [h]
          exact ⟨rfl, rfl⟩

/-! ### The fields of a clean link -/

/-- Parameters behind others. -/
theorem lastValue_append (key value : Bytes → Bytes) (k : Bytes) (a b : List Item) (w : Value) :
    lastValue key value k (a ++ b) w = lastValue key value k b (lastValue key value k a w) :=
  List.foldl_append

/-- Parameters with other keys. -/
theorem lastValue_of_ne {key value : Bytes → Bytes} {k : Bytes} {items : List Item}
    (h : ∀ p ∈ items, key (utf8 p.1) ≠ k) (w : Value) : lastValue key value k items w = w := by
  induction items with
  | nil => rfl
  | cons p items ih =>
    rw [lastValue, List.foldl_cons, if_neg (h p List.mem_cons_self)]
    exact ih fun q hq ↦ h q (List.mem_cons_of_mem p hq)

/-- The value that encoded parameters have. -/
def lookup (k : String) (pairs : List (String × Text)) (w : Value) : Value :=
  pairs.foldl (fun w q ↦ if utf8 (text q.1) = ascii k then .str (utf8 q.2) else w) w

/-- Encoded parameters are read as they were. -/
theorem lastValue_encoded (k : String) (pairs : List (String × Text)) (w : Value) :
    lastValue id urlDecode (ascii k) (pairs.map encoded) w = lookup k pairs w := by
  unfold lastValue lookup
  rw [List.foldl_map]
  simp only [encoded, id_eq, urlDecode_encodeURIComponent]

/-- Parameters with other keys leave the value. -/
theorem lookup_of_ne {k : String} {pairs : List (String × Text)} {keys : List String}
    (hpairs : ∀ q ∈ pairs, q.1 ∈ keys) (hk : ∀ a ∈ keys, utf8 (text a) ≠ ascii k) (w : Value) :
    lookup k pairs w = w := by
  rw [← lastValue_encoded]
  apply lastValue_of_ne
  intro p hp
  obtain ⟨q, hq, rfl⟩ := List.mem_map.mp hp
  exact hk q.1 (hpairs q hq)

/-- The keys of the transport and the others are different. -/
theorem transportKeys_ne : ∀ a ∈ transportKeys,
    (∀ b ∈ "flow" :: "type" :: "encryption" :: securityKeys, utf8 (text a) ≠ ascii b) ∧
      ∀ b ∈ "flow" :: "type" :: "encryption" :: securityKeys, utf8 (text b) ≠ ascii a := by
  decide

/-- The keys of TLS and REALITY and the others are different. -/
theorem securityKeys_ne : ∀ a ∈ securityKeys,
    (∀ b ∈ ["flow", "type", "encryption"], utf8 (text a) ≠ ascii b) ∧
      ∀ b ∈ ["flow", "type", "encryption"], utf8 (text b) ≠ ascii a := by
  decide

/-- The table of the parameters of a `vless` link. -/
def Form.params (f : Form) : Table := readItems id urlDecode f.vlessItems

/-- The value of a parameter among those without TLS and REALITY. -/
def Form.plainParam (f : Form) (k : String) : Value :=
  lookup k [("encryption", f.vlessEncryption)]
    (if utf8 (text "type") = ascii k then .str (urlDecode (utf8 f.transport))
    else lookup k f.transportPairs .nil)

/-- The value of a parameter. -/
theorem get_params (f : Form) (k : String) :
    f.params.get k =
      if f.tls || f.reality then
        lastValue id urlDecode (ascii k) f.flowItems (lookup k f.securityPairs (f.plainParam k))
      else f.plainParam k := by
  have hplain : lastValue id urlDecode (ascii k) [encoded ("encryption", f.vlessEncryption)]
      (if utf8 (text "type") = ascii k then .str (urlDecode (utf8 f.transport))
      else lookup k f.transportPairs .nil) = f.plainParam k :=
    lastValue_encoded k [("encryption", f.vlessEncryption)] _
  have hsplit : f.params.get k = lastValue id urlDecode (ascii k)
      (if f.tls || f.reality then f.securityPairs.map encoded ++ f.flowItems else [])
      (f.plainParam k) := by
    rw [← hplain, ← lastValue_encoded]
    unfold Form.params Table.get Form.vlessItems
    rw [at_readItems, lastValue_append]
    rfl
  rw [hsplit]
  split
  · rw [lastValue_append, lastValue_encoded]
  · rfl

/-- The key of the flow is no other key. -/
theorem flowItems_ne (f : Form) {k : String} (hk : utf8 (text "flow") ≠ ascii k) :
    ∀ p ∈ f.flowItems, id (utf8 p.1) ≠ ascii k := by
  unfold Form.flowItems
  split <;> simp [hk]

/-- A parameter of the transport. -/
theorem get_transport (f : Form) {k : String} (hk : k ∈ transportKeys) :
    f.params.get k = lookup k f.transportPairs .nil := by
  obtain ⟨-, hne⟩ := transportKeys_ne k hk
  have hplain : f.plainParam k = lookup k f.transportPairs .nil := by
    unfold Form.plainParam
    rw [if_neg (hne "type" (by simp))]
    exact if_neg (hne "encryption" (by simp))
  rw [get_params, hplain, lastValue_of_ne (flowItems_ne f (hne "flow" (by simp))),
    lookup_of_ne (securityPairs_keys f) fun a ha ↦ hne a (by simp [ha])]
  exact ite_self _

/-- The transport and the encryption. -/
theorem get_type (f : Form) :
    f.params.get "type" = .str (urlDecode (utf8 f.transport)) ∧
      f.params.get "encryption" = .str (utf8 f.vlessEncryption) := by
  have hplain : ∀ k ∈ ["type", "encryption"], f.params.get k = f.plainParam k := by
    intro k hk
    have hne : ∀ k ∈ ["type", "encryption"], utf8 (text "flow") ≠ ascii k := by decide
    have hkeys : ∀ a ∈ securityKeys, utf8 (text a) ≠ ascii k := fun a ha ↦
      (securityKeys_ne a ha).1 k (List.mem_cons_of_mem _ hk)
    rw [get_params, lastValue_of_ne (flowItems_ne f (hne k hk)),
      lookup_of_ne (securityPairs_keys f) hkeys]
    exact ite_self _
  have hother : utf8 (text "encryption") ≠ ascii "type" := by decide
  rw [hplain _ (by simp), hplain _ (by simp)]
  exact ⟨if_neg hother, if_pos (show utf8 (text "encryption") = ascii "encryption" from rfl)⟩

/-- A parameter of TLS or REALITY. -/
theorem get_security (f : Form) {k : String} (hk : k ∈ securityKeys) :
    f.params.get k = if f.tls || f.reality then lookup k f.securityPairs .nil else .nil := by
  obtain ⟨-, hne⟩ := securityKeys_ne k hk
  have htransport : lookup k f.transportPairs .nil = .nil :=
    lookup_of_ne (transportPairs_keys f) (fun a ha ↦ (transportKeys_ne a ha).1 k (by simp [hk])) _
  have hplain : f.plainParam k = .nil := by
    unfold Form.plainParam
    rw [if_neg (hne "type" (by simp)), htransport]
    exact if_neg (hne "encryption" (by simp))
  rw [get_params, hplain, lastValue_of_ne (flowItems_ne f (hne "flow" (by simp)))]

/-- The flow. -/
theorem get_flow (f : Form) :
    f.params.get "flow" =
      if (f.tls || f.reality) = true ∧ f.vlessFlow ≠ [] then
        .str (urlDecode (utf8 f.vlessFlow)) else .nil := by
  have htransport : lookup "flow" f.transportPairs .nil = .nil :=
    lookup_of_ne (transportPairs_keys f)
      (fun a ha ↦ (transportKeys_ne a ha).1 "flow" (by simp)) _
  have hplain : f.plainParam "flow" = .nil := by
    have hother : utf8 (text "encryption") ≠ ascii "flow" ∧ utf8 (text "type") ≠ ascii "flow" := by
      decide
    unfold Form.plainParam
    rw [if_neg hother.2, htransport]
    exact if_neg hother.1
  rw [get_params, hplain, lookup_of_ne (securityPairs_keys f)
    fun a ha ↦ (securityKeys_ne a ha).1 "flow" (by simp)]
  by_cases hnone : f.vlessFlow = []
  · simp [hnone, Form.flowItems, lastValue]
  · simp [hnone, Form.flowItems, lastValue, show utf8 (text "flow") = ascii "flow" from rfl]

/-- The fields of the transport come out, and the transport but for two that are made one. -/
theorem setTransport_fields {f : Form} (hdecoded : urlDecode (utf8 f.transport) = utf8 f.transport)
    (result : Table) :
    (∀ p ∈ f.transportFields, (setTransport f.params result).1.get p.1 = p.2) ∧
      (setTransport f.params result).2 =
        if f.transport = text "mkcp" then .str (ascii "kcp") else .str (utf8 f.transport) := by
  have htype : f.params.get "type" = .str (utf8 f.transport) := hdecoded ▸ (get_type f).1
  have hhost := @get_transport f "host" (by decide)
  have hpath := @get_transport f "path" (by decide)
  have hguise := @get_transport f "headerType" (by decide)
  have hseed := @get_transport f "seed" (by decide)
  have hservice := @get_transport f "serviceName" (by decide)
  have hauthority := @get_transport f "authority" (by decide)
  unfold setTransport Form.transportFields
  simp only [htype, hhost, hpath, hguise, hseed, hservice, hauthority, Value.truthy, if_true,
    eqStr_utf8 f.transport "ws" rfl, eqStr_utf8 f.transport "tcp" rfl,
    eqStr_utf8 f.transport "kcp" rfl, eqStr_utf8 f.transport "mkcp" rfl,
    eqStr_utf8 f.transport "grpc" rfl, eqStr_utf8 f.transport "httpupgrade" rfl]
  unfold Form.transportPairs
  by_cases h : f.transport = text "ws"
  · simp +decide (disch := decide) [h, lookup, field, Table.get_set_ne]
  by_cases h : f.transport = text "tcp"
  · by_cases hguise : f.tcpGuise = text "http"
    · simp +decide (disch := decide) [h, hguise, lookup, field, Table.get_set_ne, Value.eqStr]
    · simp +decide [h, hguise, lookup, Value.eqStr]
  by_cases h : f.transport = text "kcp"
  · simp +decide (disch := decide) [h, lookup, field, Table.get_set_ne, setKcp]
  by_cases h : f.transport = text "grpc"
  · simp +decide (disch := decide) [h, lookup, field, Table.get_set_ne]
  by_cases h : f.transport = text "httpupgrade"
  · simp +decide (disch := decide) [h, lookup, field, Table.get_set_ne]
  by_cases h : f.transport = text "mkcp"
  · simp +decide [h]
  · simp [*]

/-- Pairs behind others. -/
theorem lookup_append (k : String) (a b : List (String × Text)) (w : Value) :
    lookup k (a ++ b) w = lookup k b (lookup k a w) :=
  List.foldl_append

/-- The text of a field that may be empty. -/
def valueUnlessEmpty (value : Text) (w : Value) : Value :=
  if value = [] then w else .str (utf8 value)

/-- A pair that may be missing. -/
theorem lookup_pairUnlessEmpty (k param : String) (value : Text) (w : Value) :
    lookup k (pairUnlessEmpty param value) w =
      if utf8 (text param) = ascii k then valueUnlessEmpty value w else w := by
  unfold pairUnlessEmpty valueUnlessEmpty
  split_ifs with h <;> simp_all [lookup]

/-- What is read of a link with REALITY. -/
theorem get_reality {f : Form} (h : f.reality = true) :
    f.params.get "security" = .str (ascii "reality") ∧
      f.params.get "pbk" = .str (utf8 f.publickey) ∧
      f.params.get "fp" = .str (utf8 f.fingerReal) ∧
      f.params.get "sid" = valueUnlessEmpty f.shortid .nil ∧
      f.params.get "spx" = valueUnlessEmpty f.spiderx .nil ∧
      f.params.get "sni" = valueUnlessEmpty f.sni .nil := by
  have hget : ∀ k ∈ securityKeys, f.params.get k = lookup k f.securityPairs .nil := by
    intro k hk
    rw [get_security f hk, h, Bool.or_true, if_pos rfl]
  unfold Form.securityPairs at hget
  simp only [h, if_true, lookup_append, lookup_pairUnlessEmpty] at hget
  refine ⟨?_, ?_, ?_, ?_, ?_, ?_⟩ <;> rw [hget _ (by decide)] <;> simp +decide [lookup]

/-- What is read of a link with TLS. -/
theorem get_tls {f : Form} (htls : f.tls = true) (h : f.reality = false) :
    f.params.get "security" = .str (ascii "tls") ∧
      f.params.get "fp" =
        .str (if f.fingerprint = [] then ascii "random" else utf8 f.fingerprint) ∧
      f.params.get "allowInsecure" = (if f.insecure then .str (ascii "1") else .nil) ∧
      f.params.get "sni" = valueUnlessEmpty f.sni .nil := by
  have hget : ∀ k ∈ securityKeys, f.params.get k = lookup k f.securityPairs .nil := by
    intro k hk
    rw [get_security f hk, htls, Bool.true_or, if_pos rfl]
  unfold Form.securityPairs at hget
  simp only [h, Bool.false_eq_true, if_false, lookup_append, lookup_pairUnlessEmpty] at hget
  by_cases hbox : f.insecure = true <;> by_cases hnone : f.fingerprint = [] <;>
    refine ⟨?_, ?_, ?_, ?_⟩ <;> rw [hget _ (by decide)] <;> simp +decide [lookup, hbox, hnone]

/-- A field that may be empty comes out. -/
theorem fieldUnlessEmpty_get {t : Table} {name : String} {value : Text} {w : Value}
    (h : t.get name = valueUnlessEmpty value w) : ∀ p ∈ fieldUnlessEmpty name value, t.get p.1 = p.2 := by
  unfold fieldUnlessEmpty
  split
  · exact fun p hp ↦ absurd hp List.not_mem_nil
  · next hne =>
    intro p hp
    rw [List.mem_singleton.mp hp]
    exact h.trans (if_neg hne)

/-- The fields of TLS and REALITY come out. -/
theorem setSecurity_fields {f : Form}
    (hdecoded : (f.tls || f.reality) = true → urlDecode (utf8 f.vlessFlow) = utf8 f.vlessFlow)
    (hfp : (f.tls || f.reality) = true → f.reality = false → f.fingerprint ≠ []) (result : Table) :
    ∀ p ∈ f.securityFields, (setSecurity f.params result).get p.1 = p.2 := by
  unfold Form.securityFields
  by_cases hon : (f.tls || f.reality) = true
  swap
  · rw [if_neg hon]
    exact fun p hp ↦ absurd hp List.not_mem_nil
  have hflow : f.params.get "flow" = valueUnlessEmpty f.vlessFlow .nil := by
    rw [get_flow, hdecoded hon]
    unfold valueUnlessEmpty
    simp [hon]
  rw [if_pos hon]
  unfold setSecurity
  by_cases hreality : f.reality = true
  · obtain ⟨hsecurity, hpbk, hfinger, hsid, hspx, hsni⟩ := get_reality hreality
    have hother : Value.eqStr (.str (ascii "reality")) (ascii "tls") = false ∧
        Value.eqStr (.str (ascii "reality")) (ascii "reality") = true := by decide
    simp only [hsecurity, hpbk, hfinger, hsid, hspx, hsni, hflow, hother, hreality, Bool.or_true,
      if_true, Bool.false_eq_true, if_false, List.forall_mem_append, List.forall_mem_cons]
    refine ⟨⟨⟨⟨⟨?_, ?_, ?_, by simp⟩, ?_⟩, ?_⟩, ?_⟩, ?_⟩
    · simp (disch := decide) [checked, Table.get_set_ne]
    · simp (disch := decide) [field, Table.get_set_ne]
    · simp (disch := decide) [field, Table.get_set_ne]
    all_goals
      refine @fieldUnlessEmpty_get _ _ _ .nil ?_
      simp (disch := decide) only [Table.get_set_ne, Table.get_set_self]
  · have htls : f.tls = true := by simpa [hreality] using hon
    rw [Bool.not_eq_true] at hreality
    obtain ⟨hsecurity, hfinger, hinsecure, hsni⟩ := get_tls htls hreality
    rw [if_neg (hfp hon hreality)] at hfinger
    have hother : Value.eqStr (.str (ascii "tls")) (ascii "tls") = true := by decide
    simp only [hsecurity, hfinger, hinsecure, hsni, hflow, hother, hreality, Bool.true_or,
      if_true, Bool.false_eq_true, if_false, List.forall_mem_append, List.forall_mem_cons]
    refine ⟨⟨⟨⟨?_, ?_, by simp⟩, ?_⟩, ?_⟩, ?_⟩
    · simp (disch := decide) [checked, Table.get_set_ne]
    · simp (disch := decide) [field, Table.get_set_ne]
    · unfold Form.insecureField
      split
      · next hbox =>
        simp +decide (disch := decide) [checked, Table.get_set_ne, oneIf]
      · exact fun p hp ↦ absurd hp List.not_mem_nil
    all_goals
      refine @fieldUnlessEmpty_get _ _ _ .nil ?_
      simp (disch := decide) only [Table.get_set_ne, Table.get_set_self]

/-! ### The table of a clean link -/

/-- The fields that the transport sets. -/
def transportNames : List String :=
  ["ws_host", "ws_path", "tcp_guise", "http_host", "http_path", "kcp_guise", "mtu", "tti",
    "uplink_capacity", "downlink_capacity", "read_buffer_size", "write_buffer_size", "seed",
    "grpc_serviceName", "grpc_authority", "httpupgrade_host", "httpupgrade_path"]

/-- The fields that TLS and REALITY set. -/
def securityNames : List String :=
  ["tls", "fingerprint", "insecure", "reality", "publickey", "finger_real", "shortid", "spiderx",
    "vless_flow", "sni"]

/-- The transport leaves the other fields. -/
theorem get_setTransport (params result : Table) {k : String}
    (hk : ∀ n ∈ transportNames, ascii n ≠ ascii k) :
    (setTransport params result).1.get k = result.get k := by
  simp only [transportNames, List.forall_mem_cons, List.not_mem_nil, false_imp_iff, implies_true,
    and_true] at hk
  unfold setTransport setKcp
  simp only
  split_ifs <;> simp only [Table.get_set_ne, hk, ne_eq, not_false_eq_true]

/-- TLS and REALITY leave the other fields. -/
theorem get_setSecurity (params result : Table) {k : String}
    (hk : ∀ n ∈ securityNames, ascii n ≠ ascii k) :
    (setSecurity params result).get k = result.get k := by
  simp only [securityNames, List.forall_mem_cons, List.not_mem_nil, false_imp_iff, implies_true,
    and_true] at hk
  unfold setSecurity
  simp only
  split_ifs <;> simp only [Table.get_set_ne, hk, ne_eq, not_false_eq_true]

/-- The encryption of a `vless` link. -/
theorem setEncryption_vless (f : Form) (result : Table) :
    setEncryption (ascii "vless") f.params result =
      result.set "vless_encryption" (.str (utf8 f.vlessEncryption)) := by
  unfold setEncryption
  simp only [(get_type f).2]
  rw [if_neg (by decide)]
  rfl

/-- The fields of the transport are among those that it sets, and those of TLS and REALITY likewise. -/
theorem names_of_fields (f : Form) : (∀ p ∈ f.transportFields, p.1 ∈ transportNames) ∧
    ∀ p ∈ f.securityFields, p.1 ∈ securityNames := by
  have hunless : ∀ {name : String} (value : Text), name ∈ securityNames →
      ∀ p ∈ fieldUnlessEmpty name value, p.1 ∈ securityNames := by
    intro name value hname
    unfold fieldUnlessEmpty
    exact forall_mem_ite (by simp) (by simpa [field] using hname)
  constructor
  · unfold Form.transportFields
    split_ifs <;> simp [transportNames, field]
  · unfold Form.securityFields Form.insecureField
    refine forall_mem_ite ?_ (by simp)
    simp only [List.forall_mem_append]
    refine ⟨⟨forall_mem_ite ?_ ?_, hunless _ (by decide)⟩, hunless _ (by decide)⟩
    · simp only [List.forall_mem_append]
      exact ⟨⟨by simp [securityNames, checked, field], hunless _ (by decide)⟩, hunless _ (by decide)⟩
    · simp only [List.forall_mem_append]
      exact ⟨by simp [securityNames, checked, field],
        forall_mem_ite (by simp [securityNames, checked]) (by simp)⟩

/-- No field is set twice. -/
theorem names_ne : (∀ a ∈ transportNames, ∀ b ∈ "transport" :: "vless_encryption" :: "server_port" ::
    securityNames, ascii b ≠ ascii a) ∧ ∀ a ∈ securityNames, ascii "server_port" ≠ ascii a := by
  decide

/-- The table that the importer reads from a clean link. -/
def vlessTable (f : Form) (remark : Bytes) : Table :=
  let result := (((start .vless).set "alias" (.str (urlDecode remark))).set
    "type" (.str (ascii "vless"))).set "uuid" (.str (utf8 f.uuid))
  let (result, type) := setTransport f.params
    (result.set "server" (authority (ascii "443") f.urlHost).1)
  let result := (result.set "transport" type).set "vless_encryption" (.str (utf8 f.vlessEncryption))
  (setSecurity f.params result).set "server_port" (authority (ascii "443") f.urlHost).2

/-- What the importer reads of a clean link. -/
theorem VlessClean.parseNodeUrl_eq {f : Form} (h : VlessClean f) (htype : f.type = .vless)
    (hfill : Filled f) (remark : Bytes) :
    parseNodeUrl (ascii "vless") (f.vlessBytes ++ 0x23 :: remark) (start .vless) =
      .ok (vlessTable f remark) := by
  have hat : 0x40 ∉ f.hostPort ++ 0x3F :: queryBytes f.vlessItems := by
    simp only [List.mem_append, List.mem_cons, not_or]
    exact ⟨h.host 0x40 (by decide), by decide, h.not_mem_query (by decide)⟩
  have hinfo : split (some f.vlessBytes) (ascii "@") =
      [escapeBytes isUnescaped (utf8 f.uuid), f.hostPort ++ 0x3F :: queryBytes f.vlessItems] := by
    show Search.split [0x40] (stripNul f.vlessBytes) = _
    rw [stripNul_eq_self (h.not_mem_bytes (by decide)), Form.vlessBytes,
      Search.split_cons_of_not_mem _ (not_mem_user (by decide) _),
      Search.split_singleton_of_not_mem (by simp) hat]
  have hzero : 0 ∉ f.hostPort ++ queryBytes f.vlessItems := by
    rw [List.mem_append, not_or]
    exact ⟨h.host 0 (by decide), h.not_mem_query (by decide)⟩
  unfold parseNodeUrl
  rw [splitAlias_append remark (h.not_mem_bytes (by decide))]
  simp only
  rw [hinfo]
  simp only [List.getElem?_cons_zero, List.getElem?_cons_succ, Option.map_some]
  rw [hostQuery_question (h.host 0x3F (by decide)) (h.not_mem_query (by decide)) hzero,
    urlDecode_unescaped]
  simp only [bind, Except.bind]
  rw [readParams_someUnlessNil id urlDecode (h.readable htype hfill)]
  simp only
  have hencryption := setEncryption_vless f
  unfold Form.params at hencryption
  rw [hencryption]
  rfl

/-- The exported fields come out of a clean link but for four. -/
theorem VlessClean.table_iff {f : Form} (h : VlessClean f) (htype : f.type = .vless)
    (hfill : Filled f) (remark : Bytes) :
    (∀ p ∈ exported f, (vlessTable f remark).get p.1 = p.2) ↔
      urlDecode remark = utf8 f.nodeAlias ∧
        authority (ascii "443") f.urlHost = (.str (utf8 f.server), .str (utf8 f.serverPort)) ∧
        f.transport ≠ text "mkcp" := by
  have hdecoded := urlDecode_eq_self_iff.mpr h.transport.undecoded
  have hfp : (f.tls || f.reality) = true → f.reality = false → f.fingerprint ≠ [] := by
    intro hon hreality
    refine hfill.ne_nil (?_ : field "fingerprint" _ ∈ _)
    have htls : f.tls = true := by simpa [hreality] using hon
    simp [exported, htype, Form.securityFields, htls, hreality]
  have hexported : exported f =
      [field "alias" f.nodeAlias, field "server" f.server, field "server_port" f.serverPort] ++
        ([field "uuid" f.uuid, field "transport" f.transport,
          field "vless_encryption" f.vlessEncryption] ++ f.transportFields ++ f.securityFields) := by
    unfold exported
    rw [htype]
  rw [hexported, List.forall_mem_append, List.forall_mem_append, List.forall_mem_append]
  unfold vlessTable
  simp only
  generalize hresult : Table.set _ "server" _ = result
  obtain ⟨hfields, htransport⟩ := setTransport_fields hdecoded result
  obtain ⟨htransportNames, hsecurityNames⟩ := names_of_fields f
  have hresults : result.get "alias" = .str (urlDecode remark) ∧
      result.get "server" = (authority (ascii "443") f.urlHost).1 ∧
      result.get "uuid" = .str (utf8 f.uuid) := by
    rw [← hresult]
    simp (disch := decide) only [Table.get_set_ne, Table.get_set_self, and_self]
  rw [htransport]
  generalize ht : Table.set _ "server_port" _ = t
  have hget : ∀ {k : String}, (∀ n ∈ "transport" :: "vless_encryption" :: "server_port" ::
      securityNames, ascii n ≠ ascii k) → t.get k = (setTransport f.params result).1.get k := by
    intro k hk
    simp only [List.forall_mem_cons] at hk
    rw [← ht, Table.get_set_ne _ _ _ _ hk.2.2.1, get_setSecurity _ _ hk.2.2.2,
      Table.get_set_ne _ _ _ _ hk.2.1, Table.get_set_ne _ _ _ _ hk.1]
  have hnames : t.get "alias" = result.get "alias" ∧ t.get "server" = result.get "server" ∧
      t.get "uuid" = result.get "uuid" :=
    ⟨(hget (by decide)).trans (get_setTransport _ _ (by decide)),
      (hget (by decide)).trans (get_setTransport _ _ (by decide)),
      (hget (by decide)).trans (get_setTransport _ _ (by decide))⟩
  have hlast : t.get "server_port" = (authority (ascii "443") f.urlHost).2 ∧
      t.get "vless_encryption" = .str (utf8 f.vlessEncryption) ∧
      t.get "transport" =
        if f.transport = text "mkcp" then .str (ascii "kcp") else .str (utf8 f.transport) := by
    rw [← ht]
    simp (disch := decide) only [Table.get_set_ne, Table.get_set_self, get_setSecurity, and_self]
  have hinner : ∀ p ∈ f.transportFields, t.get p.1 = p.2 := fun p hp ↦
    (hget (names_ne.1 p.1 (htransportNames p hp))).trans (hfields p hp)
  have hsecurity : ∀ p ∈ f.securityFields, t.get p.1 = p.2 := by
    intro p hp
    rw [← ht, Table.get_set_ne _ _ _ _ (names_ne.2 p.1 (hsecurityNames p hp))]
    exact setSecurity_fields (fun hon ↦ urlDecode_eq_self_iff.mpr (h.flow hon).undecoded) hfp _ p hp
  simp only [List.forall_mem_cons, field, hnames, hresults, hlast, renamedTransport_iff,
    Value.str.injEq, Prod.ext_iff]
  constructor
  · rintro ⟨⟨halias, hserver, hport, -⟩, ⟨⟨-, hmkcp, -⟩, -⟩, -⟩
    exact ⟨halias, ⟨hserver, hport⟩, hmkcp⟩
  · rintro ⟨halias, ⟨hserver, hport⟩, hmkcp⟩
    exact ⟨⟨halias, hserver, hport, by simp⟩, ⟨⟨trivial, hmkcp, trivial, by simp⟩, hinner⟩, hsecurity⟩

/-! ### Only a clean link -/

/-- The query that is read of a start of the link is a start of the one that was written. -/
theorem query_prefix {f : Form} (hhost : ∀ c ∈ urlSpecial, c ∉ f.hostPort) {c h q : Bytes}
    (hzero : 0 ∉ c) (hstart : (splitAlias c).1 <+: stripNul f.vlessBytes)
    (hok : hostQuery (urlInfo c) = .ok (h, some q)) :
    q <+: stripNul (queryBytes f.vlessItems) ∧ q <:+: c ∧ ∀ x ∈ urlSpecial, x ∉ q := by
  have huser : 0 ∉ escapeBytes isUnescaped (utf8 f.uuid) := not_mem_user (by decide) _
  have hbytes : stripNul f.vlessBytes = escapeBytes isUnescaped (utf8 f.uuid) ++ ascii "@" ++
      (f.hostPort ++ 0x3F :: stripNul (queryBytes f.vlessItems)) := by
    have hcons : ∀ {x : UInt8} (b : Bytes), x ≠ 0 → stripNul (x :: b) = x :: stripNul b :=
      fun b hx ↦ List.filter_cons_of_pos (by simpa using hx)
    unfold Form.vlessBytes
    rw [stripNul_append, hcons _ (by decide), stripNul_append, hcons _ (by decide),
      stripNul_eq_self huser, stripNul_eq_self (hhost 0 (by decide)), List.append_assoc]
    rfl
  obtain ⟨hhash, halias⟩ := splitAlias_fst c
  have hfirst : 0 ∉ (splitAlias c).1 := fun hmem ↦ hzero (halias.subset hmem)
  have hsecond := (hostQuery_eq_ok hok).2
  cases hi : urlInfo c with
  | none =>
    rw [hi] at hok
    cases hok
  | some info =>
    rw [hi, Option.getD_some] at hsecond
    have hpiece : info ∈ split (some (splitAlias c).1) (ascii "@") := List.mem_of_getElem? hi
    have hin := infix_of_mem_split (by decide) hpiece
    rw [stripNul_eq_self hfirst] at hin
    have hbegin : info <+: f.hostPort ++ 0x3F :: stripNul (queryBytes f.vlessItems) := by
      have hsplit : (Search.split (ascii "@") (splitAlias c).1)[1]? = some info := by
        rw [← hi, urlInfo]
        show _ = (Search.split (ascii "@") (stripNul (splitAlias c).1))[1]?
        rw [stripNul_eq_self hfirst]
      refine Search.prefix_of_second_piece (fun hat ↦ ?_) (hbytes ▸ hstart) hsplit
      rw [show (ascii "@").dropLast = [] from rfl, List.append_nil] at hat
      exact not_mem_user (by decide) _ ((List.singleton_infix_iff _ _).mp hat)
    have hquestion : 0x3F ∉ f.hostPort := hhost 0x3F (by decide)
    by_cases hlen : info.length ≤ f.hostPort.length
    · -- without a `?` there is no query
      have hpart := List.prefix_of_prefix_length_le hbegin (List.prefix_append _ _) hlen
      have hfree : 0x3F ∉ info := fun hmem ↦ hquestion (hpart.subset hmem)
      have hnone : 0 ∉ info := fun hmem ↦ hfirst (hin.subset hmem)
      rw [gsubSlash_of_not_mem hfree] at hsecond
      change _ = (Search.split [0x3F] (stripNul info))[1]? at hsecond
      rw [stripNul_eq_self hnone] at hsecond
      by_cases hnil : info = []
      · rw [hnil] at hsecond
        cases hsecond
      · rw [Search.split_singleton_of_not_mem hnil hfree] at hsecond
        cases hsecond
    · obtain ⟨s, hs, hrest⟩ : ∃ s, info = f.hostPort ++ 0x3F :: s ∧
          s <+: stripNul (queryBytes f.vlessItems) := by
        obtain ⟨s, rfl⟩ := List.prefix_of_prefix_length_le (List.prefix_append _ _) hbegin
          (Nat.le_of_not_le hlen)
        have htail := (List.prefix_append_right_inj _).mp hbegin
        cases s with
        | nil => simp at hlen
        | cons x s =>
          obtain ⟨rfl, hs⟩ := List.cons_prefix_cons.mp htail
          exact ⟨s, rfl, hs⟩
      have hinfoZero : 0 ∉ info := fun hmem ↦ hfirst (hin.subset hmem)
      have hzeroTail : 0 ∉ s := fun hmem ↦ hinfoZero (hs ▸ by simp [hmem])
      have hgsub : 0 ∉ f.urlHost ++ 0x3F :: gsubSlash s := by
        rw [List.mem_append, List.mem_cons, not_or, not_or]
        exact ⟨fun hmem ↦ hhost 0 (by decide) (mem_of_mem_urlHost hmem), by decide,
          zero_not_mem_gsubSlash hzeroTail⟩
      rw [hs, gsubSlash_hostPort hquestion] at hsecond
      change _ = (Search.split [0x3F] (stripNul _))[1]? at hsecond
      rw [stripNul_eq_self hgsub,
        Search.split_cons_of_not_mem _ fun hmem ↦ hquestion (mem_of_mem_urlHost hmem),
        List.getElem?_cons_succ, ← List.head?_eq_getElem?] at hsecond
      have hhead : (split (some (gsubSlash s)) (ascii "?")).head? = some q := by
        show (Search.split [0x3F] (stripNul _)).head? = _
        rw [stripNul_eq_self (zero_not_mem_gsubSlash hzeroTail), hsecond]
      have hq := prefix_of_head?_split hzeroTail hhead
      have hqinfo : q <:+: info := by
        rw [hs]
        exact hq.isInfix.trans ((List.suffix_cons 0x3F s).trans (List.suffix_append _ _)).isInfix
      refine ⟨hq.trans hrest, hqinfo.trans (hin.trans halias.isInfix), ?_⟩
      have hbyte : ∀ {x : UInt8}, [x] <:+: q → x ∈ q := (List.singleton_infix_iff _ _).mp
      simp only [urlSpecial, List.forall_mem_cons]
      refine ⟨fun hx ↦ hinfoZero (hqinfo.subset hx),
        fun hx ↦ hhash (hin.subset (hqinfo.subset hx)), fun hx ↦ ?_, fun hx ↦ ?_,
        fun x hx ↦ absurd hx List.not_mem_nil⟩
      · exact Search.not_infix_of_mem_split (by decide) hpiece
          ((List.singleton_infix_iff _ _).mpr (hqinfo.subset hx))
      · exact Search.not_infix_of_mem_split (by decide) (List.mem_of_mem_head? hhead)
          ((List.singleton_infix_iff _ _).mpr hx)

/-- Zero bytes are taken out of each of the parts. -/
theorem stripNul_intercalate (l : List Bytes) :
    stripNul (List.intercalate [0x26] l) = List.intercalate [0x26] (l.map stripNul) := by
  induction l with
  | nil => rfl
  | cons x l ih =>
    cases l with
    | nil => rw [List.intercalate_singleton, List.map_singleton, List.intercalate_singleton]
    | cons y l =>
      rw [List.intercalate_cons_cons, stripNul_append, stripNul_append, ih]
      exact List.intercalate_cons_cons.symm

/-- A query without marks that is a start of the one that was written. -/
structure QueryPart (f : Form) (q : Bytes) : Prop where
  start : q <+: stripNul (queryBytes f.vlessItems)
  clean : ∀ x ∈ urlSpecial, x ∉ q
  cut : ¬ ascii "://" <:+: q

/-- Where a parameter stands that is read of a start of the query. -/
theorem exists_item {f : Form} {query : Option Bytes} (hq : ∀ q ∈ query, QueryPart f q)
    {params : Table} (hread : readParams id urlDecode query = .ok params) {k : String}
    (hk : 0x26 ∉ ascii k) {w : Bytes} (hw : params.get k = .str w) :
    ∃ p ∈ f.vlessItems, ∃ b, ascii k ++ 0x3D :: b <:+: stripNul p.bytes ∧ urlDecode b = w ∧
      (∀ c ∈ rawSpecial, c ∉ b) ∧ ¬ ascii "://" <:+: b := by
  obtain ⟨v, hv, a, b, rfl, rfl, hpart, -, hequal⟩ := exists_of_at_readParams hread hw
  cases hquery : query with
  | none =>
    rw [hquery] at hv
    cases hv
  | some q =>
    obtain ⟨hstart, hclean, hcut⟩ := hq q hquery
    rw [hquery] at hv
    have hin := infix_of_mem_split (by decide) hv
    rw [stripNul_eq_self (hclean 0 (by decide))] at hin
    have hvb : b <:+: v :=
      ((List.suffix_cons 0x3D b).trans (List.suffix_append _ _)).isInfix.trans hpart.isInfix
    have hamp : 0x26 ∉ b := fun hmem ↦ Search.not_infix_of_mem_split (by decide) hv
      ((List.singleton_infix_iff _ _).mpr (hvb.subset hmem))
    have hspecial : ∀ c ∈ urlSpecial, c ∉ b := fun c hc hmem ↦
      hclean c hc ((hvb.trans hin).subset hmem)
    have hwhole := hpart.isInfix.trans (hin.trans hstart.isInfix)
    rw [queryBytes, stripNul_intercalate, Search.infix_intercalate _ (by simp)] at hwhole
    · obtain ⟨x, hx, hinside⟩ := hwhole
      obtain ⟨y, hy, rfl⟩ := List.mem_map.mp hx
      obtain ⟨p, hp, rfl⟩ := List.mem_map.mp hy
      refine ⟨p, hp, b, hinside, rfl, ?_, fun h ↦ hcut (h.trans (hvb.trans hin))⟩
      simp only [urlSpecial, rawSpecial, List.forall_mem_cons] at hspecial ⊢
      exact ⟨hspecial.1, hspecial.2.1, hspecial.2.2.1, hspecial.2.2.2.1, hamp, hequal,
        fun c hc ↦ absurd hc List.not_mem_nil⟩
    · rw [List.mem_append, List.mem_cons, not_or, not_or]
      exact ⟨hk, by decide, hamp⟩

/-- The keys of the texts that are not encoded. -/
def rawKeys : List String := ["type", "flow"]

/-- A key of a text that is not encoded. -/
theorem rawKeys_clean : ∀ k ∈ rawKeys, 0x26 ∉ ascii k ∧ 0x3D ∉ ascii k ∧ (ascii k).length = 4 ∧
    utf8 (text k) = ascii k ∧ (∀ j ∈ encodedKeys, ¬ ascii k <:+ utf8 (text j)) ∧
      ∀ j ∈ rawKeys, j ≠ k → ¬ ascii k <:+ ascii j := by
  decide

/-- Zero bytes are taken out of the value of a parameter. -/
theorem stripNul_bytes {k : String} (hzero : 0 ∉ utf8 (text k)) (s : Text) :
    stripNul (Item.bytes (text k, s)) = utf8 (text k) ++ 0x3D :: stripNul (utf8 s) := by
  have hcons : stripNul (0x3D :: utf8 s) = 0x3D :: stripNul (utf8 s) := rfl
  unfold Item.bytes
  rw [stripNul_append, stripNul_eq_self hzero, hcons]

/-- A parameter that is not encoded is not read of one that is. -/
theorem not_read_of_encoded {k : String} (hk : k ∈ rawKeys) {j : String} (hj : j ∈ encodedKeys)
    (s : Text) (b : Bytes) : ¬ ascii k ++ 0x3D :: b <:+: stripNul (encoded (j, s)).bytes := by
  obtain ⟨-, hkey⟩ := encodedKeys_clean hj
  have hvalue : 0x3D ∉ stripNul (utf8 (encodeURIComponent s)) := by
    rw [utf8_encodeURIComponent]
    exact fun hmem ↦ not_mem_user (by decide) _ (List.mem_filter.mp hmem).1
  intro hin
  have hhead : ascii k ++ [0x3D] <:+: utf8 (text j) ++ 0x3D :: stripNul (utf8 (encodeURIComponent s)) := by
    rw [← stripNul_bytes (hkey 0 (by decide))]
    exact (show ascii k ++ [0x3D] <+: ascii k ++ 0x3D :: b by simp).isInfix.trans hin
  rw [Search.concat_infix_append_cons (hkey 0x3D (by decide)) hvalue] at hhead
  exact (rawKeys_clean k hk).2.2.2.2.1 j hj hhead

/-- A parameter that is read of its own text, without marks, is kept. -/
theorem rawKept_of_own {k : String} (hk : k ∈ rawKeys) {s : Text} {b : Bytes}
    (hin : ascii k ++ 0x3D :: b <:+: stripNul (Item.bytes (text k, s)))
    (hb : urlDecode b = utf8 s) (hclean : ∀ c ∈ rawSpecial, c ∉ b) (hlink : ¬ ascii "://" <:+: b) :
    RawKept s := by
  obtain ⟨-, -, -, hbytes, -⟩ := rawKeys_clean k hk
  have hzero : ∀ k ∈ rawKeys, 0 ∉ utf8 (text k) := by decide
  have hcons : ∀ c : Bytes, ascii k ++ 0x3D :: c = (ascii k ++ [0x3D]) ++ c := fun c ↦ by simp
  rw [stripNul_bytes (hzero k hk), hbytes, hcons b, hcons (stripNul _)] at hin
  have hpart := Search.infix_of_append_infix hin
  have hlen : (utf8 s).length ≤ b.length := hb ▸ length_urlDecode_le b
  have hstrip : (stripNul (utf8 s)).length ≤ (utf8 s).length := List.length_filter_le _ _
  have hself : b = stripNul (utf8 s) := hpart.eq_of_length (by have := hpart.length_le; omega)
  have hwhole : stripNul (utf8 s) = utf8 s :=
    List.filter_sublist.eq_of_length (by rw [hself] at hlen; exact Nat.le_antisymm hstrip hlen)
  rw [hwhole] at hself
  rw [hself] at hb hclean hlink
  exact ⟨hclean, hlink, urlDecode_eq_self_iff.mp hb⟩

/-- A parameter that is read of the other text is shorter. -/
theorem longer_of_other {k j : String} (hk : k ∈ rawKeys) (hj : j ∈ rawKeys) (hne : j ≠ k) {s : Text}
    {b : Bytes} (hin : ascii k ++ 0x3D :: b <:+: stripNul (Item.bytes (text j, s))) :
    b.length < (utf8 s).length ∧ 0x3D ∈ utf8 s := by
  obtain ⟨-, -, hfour, -, -, hother⟩ := rawKeys_clean k hk
  obtain ⟨-, hequal, hfour', hbytes, -⟩ := rawKeys_clean j hj
  have hzero : ∀ k ∈ rawKeys, 0 ∉ utf8 (text k) := by decide
  rw [stripNul_bytes (hzero j hj), hbytes] at hin
  have hstrip : (stripNul (utf8 s)).length ≤ (utf8 s).length := List.length_filter_le _ _
  constructor
  · have hkeys : ascii k ≠ ascii j := fun heq ↦ hother j hj hne (heq ▸ List.suffix_refl _)
    have hlt := Search.length_lt_of_infix (hfour.trans hfour'.symm) hkeys hin
    simp only [List.length_cons] at hlt
    omega
  · by_contra hmem
    have hvalue : 0x3D ∉ stripNul (utf8 s) := fun h ↦ hmem (List.mem_filter.mp h).1
    have hhead : ascii k ++ [0x3D] <:+: ascii j ++ 0x3D :: stripNul (utf8 s) :=
      (show ascii k ++ [0x3D] <+: ascii k ++ 0x3D :: b by simp).isInfix.trans hin
    rw [Search.concat_infix_append_cons hequal hvalue] at hhead
    exact hother j hj hne hhead

/-- The texts that are not encoded are kept if they come out. -/
theorem rawKept_of_read {f : Form} {query : Option Bytes} (hq : ∀ q ∈ query, QueryPart f q)
    {params : Table} (hread : readParams id urlDecode query = .ok params)
    (htype : params.get "type" = .str (utf8 f.transport) ∨ RawKept f.transport)
    (hflow : (f.tls || f.reality) = true → f.vlessFlow ≠ [] →
      params.get "flow" = .str (utf8 f.vlessFlow)) : ∀ s ∈ f.rawTexts, RawKept s := by
  have hlen : ∀ {b w : Bytes}, urlDecode b = w → w.length ≤ b.length :=
    fun h ↦ h ▸ length_urlDecode_le _
  -- each is read of its own text, or of the other one, which is longer
  have htypeCases : RawKept f.transport ∨ ((f.tls || f.reality) = true ∧ f.vlessFlow ≠ [] ∧
      (utf8 f.transport).length < (utf8 f.vlessFlow).length ∧ 0x3D ∈ utf8 f.vlessFlow) := by
    obtain htype | hkept := htype
    swap
    · exact Or.inl hkept
    obtain ⟨p, hp, b, hin, hb, hspecial, hcut⟩ := exists_item hq hread (by decide) htype
    obtain ⟨j, hj, s, rfl⟩ | rfl | ⟨rfl, hon, hne⟩ := cases_of_mem_vlessItems hp
    · exact absurd hin (not_read_of_encoded (by decide) hj s b)
    · exact Or.inl (rawKept_of_own (by decide) hin hb hspecial hcut)
    · obtain ⟨hlt, hequal⟩ := longer_of_other (by decide) (by decide) (by decide) hin
      exact Or.inr ⟨hon, hne, (hlen hb).trans_lt hlt, hequal⟩
  have hflowCases : (f.tls || f.reality) = true → RawKept f.vlessFlow ∨
      ((utf8 f.vlessFlow).length < (utf8 f.transport).length ∧ 0x3D ∈ utf8 f.transport) := by
    intro hon
    by_cases hnone : f.vlessFlow = []
    · rw [hnone]
      exact Or.inl ⟨by simp, by decide, urlDecode_eq_self_iff.mp rfl⟩
    obtain ⟨p, hp, b, hin, hb, hspecial, hcut⟩ :=
      exists_item hq hread (by decide) (hflow hon hnone)
    obtain ⟨j, hj, s, rfl⟩ | rfl | ⟨rfl, -, -⟩ := cases_of_mem_vlessItems hp
    · exact absurd hin (not_read_of_encoded (by decide) hj s b)
    · obtain ⟨hlt, hequal⟩ := longer_of_other (by decide) (by decide) (by decide) hin
      exact Or.inr ⟨(hlen hb).trans_lt hlt, hequal⟩
    · exact Or.inl (rawKept_of_own (by decide) hin hb hspecial hcut)
  have htransport : RawKept f.transport := by
    obtain hkept | ⟨hon, -, hlt, hequal⟩ := htypeCases
    · exact hkept
    · obtain hkept | ⟨hlt', -⟩ := hflowCases hon
      · exact absurd hequal (hkept.clean 0x3D (by decide))
      · omega
  unfold Form.rawTexts
  rw [List.forall_mem_cons]
  refine ⟨htransport, fun s hs ↦ ?_⟩
  split at hs
  · next hon =>
    rw [List.mem_singleton.mp hs]
    exact (hflowCases hon).resolve_right fun h ↦ htransport.clean 0x3D (by decide) h.2
  · exact absurd hs List.not_mem_nil

/-- The transport that comes out is read, or it is one that is put in its place. -/
theorem type_of_setTransport {params result : Table} {s : Text}
    (h : (setTransport params result).2 = .str (utf8 s)) :
    params.get "type" = .str (utf8 s) ∨ s = text "tcp" ∨ s = text "kcp" := by
  have hsecond : (setTransport params result).2 =
        (if (params.get "type").truthy then params.get "type" else .str (ascii "tcp")) ∨
      (setTransport params result).2 = .str (ascii "kcp") := by
    unfold setTransport
    simp only
    generalize (if (params.get "type").truthy = true then params.get "type"
      else Value.str (ascii "tcp")) = type
    split_ifs <;> simp
  obtain hs | hs := hsecond
  · rw [hs] at h
    split at h
    · exact Or.inl h
    · exact Or.inr (Or.inl (utf8_inj (t := text "tcp") |>.mp (Value.str.inj h).symm))
  · rw [hs] at h
    exact Or.inr (Or.inr (utf8_inj (t := text "kcp") |>.mp (Value.str.inj h).symm))

/-- The flow that comes out is read. -/
theorem flow_of_setSecurity {params result : Table} {v : Bytes}
    (hnone : result.get "vless_flow" = .nil)
    (h : (setSecurity params result).get "vless_flow" = .str v) : params.get "flow" = .str v := by
  unfold setSecurity at h
  simp only at h
  split_ifs at h
  · rwa [Table.get_set_ne _ _ _ _ (by decide), Table.get_set_self] at h
  · rwa [Table.get_set_ne _ _ _ _ (by decide), Table.get_set_self] at h
  · rw [hnone] at h
    cases h

/-- The encryption leaves the other fields. -/
theorem get_setEncryption (A : Bytes) (params result : Table) {k : String}
    (hs : ascii "security" ≠ ascii k) (hv : ascii "vless_encryption" ≠ ascii k) :
    (setEncryption A params result).get k = result.get k := by
  unfold setEncryption
  simp only
  split_ifs <;> simp only [Table.get_set_ne, hs, hv, ne_eq, not_false_eq_true]

/-- Only a clean link gives the fields back. -/
theorem vlessClean_of_fields {f : Form} (htype : f.type = .vless) {c remark : Bytes} {t : Table}
    (hhost : ∀ x ∈ urlSpecial, x ∉ f.hostPort) (hzero : 0 ∉ c)
    (hc : c <+: stripNul f.vlessBytes ++ 0x23 :: remark) (hlink : ¬ ascii "://" <:+: c)
    (hok : parseNodeUrl (ascii "vless") c (start .vless) = .ok t)
    (hfields : ∀ p ∈ exported f, t.get p.1 = p.2) : VlessClean f := by
  refine ⟨hhost, ?_⟩
  have hstart : (splitAlias c).1 <+: stripNul f.vlessBytes :=
    Search.prefix_of_prefix_append_cons ((splitAlias_fst c).2.trans hc) (splitAlias_fst c).1
  unfold parseNodeUrl at hok
  simp only [bind_eq_ok] at hok
  obtain ⟨⟨hostPort, query⟩, hquery, params, hparams, ht⟩ := hok
  obtain rfl := Except.ok.inj ht
  generalize hresult : Table.set _ "server" _ = result at hfields
  have hnone : result.get "vless_flow" = .nil := by
    rw [← hresult]
    simp (disch := decide) only [Table.get_set_ne, get_start]
  refine rawKept_of_read (fun q hq ↦ ?_) hparams ?_ fun hon hne ↦ ?_
  · have hsome : query = some q := hq
    rw [hsome] at hquery
    obtain ⟨hbegin, hin, hclean⟩ := query_prefix hhost hzero hstart hquery
    exact ⟨hbegin, hclean, fun h ↦ hlink (h.trans hin)⟩
  · have htransport := hfields (field "transport" f.transport) (by simp [exported, htype])
    simp (disch := decide) only [field, Table.get_set_ne, get_setSecurity, get_setEncryption,
      Table.get_set_self] at htransport
    have hraw : ∀ s ∈ [text "tcp", text "kcp"],
        (∀ c ∈ rawSpecial, c ∉ utf8 s) ∧ ¬ ascii "://" <:+: utf8 s ∧ urlDecode (utf8 s) = utf8 s := by
      simp only [List.forall_mem_cons]
      exact ⟨⟨forall_mem_of_all (by decide), by decide, by decide⟩,
        ⟨forall_mem_of_all (by decide), by decide, by decide⟩, by simp⟩
    have hkept : ∀ s ∈ [text "tcp", text "kcp"], RawKept s := fun s hs ↦
      ⟨(hraw s hs).1, (hraw s hs).2.1, urlDecode_eq_self_iff.mp (hraw s hs).2.2⟩
    obtain h | h | h := type_of_setTransport htransport
    · exact Or.inl h
    · exact Or.inr (h ▸ hkept _ (by simp))
    · exact Or.inr (h ▸ hkept _ (by simp))
  · have hflow := hfields (field "vless_flow" f.vlessFlow) (by
      simp only [exported, htype, Form.securityFields, hon, if_true, fieldUnlessEmpty, hne]
      simp)
    simp (disch := decide) only [field, Table.get_set_ne] at hflow
    refine flow_of_setSecurity ?_ hflow
    simp (disch := decide) only [get_setEncryption, Table.get_set_ne, get_setTransport, hnone]

/-- What stands in the way of the round trip of a `vless` node. -/
structure VlessKept (f : Form) : Prop where
  host : HostKept f urlSpecial
  cut : ¬ ascii "://" <:+: f.hostPort
  slash : PortKept f
  nodeAlias : AliasKept f
  raw : ∀ s ∈ f.rawTexts, RawKept s
  transport : f.transport ≠ text "mkcp"

/-- A `vless` node comes back from its link if and only if nothing of it is taken for a mark of the link
or for an escape, its port does not lose its end and its transport is not renamed. -/
theorem roundTrips_vless_iff {env : Env} (h64 : Decodes64 env.b64decode) {f : Form}
    (htype : f.type = .vless) (hfill : Filled f) : RoundTrips env f ↔ VlessKept f := by
  have halias : f.nodeAlias ≠ [] := hfill.ne_nil (by simp [exported] : field "alias" _ ∈ _)
  have hport : utf8 f.serverPort ≠ [] := by
    rw [ne_eq, utf8_eq_nil]
    exact hfill.ne_nil (by simp [exported] : field "server_port" _ ∈ _)
  have hurl : buildUrl f = some (text f.type.name ++ text "://" ++ f.vlessUrl) := by
    unfold buildUrl
    rw [htype]
    rfl
  have hbytes := utf8_vlessUrl f
  have hat : 0x40 ∈ Search.before (ascii "://") (stripNul (utf8 f.vlessUrl)) := by
    rw [hbytes, Form.vlessBytes, List.append_assoc, List.cons_append, before_user]
    simp
  have hcontent : content env f.type (utf8 f.vlessUrl) = Search.before (ascii "://")
      (stripNul (f.vlessBytes ++ 0x23 :: escapeBytes isKept (utf8 f.nodeAlias))) := by
    unfold content
    rw [← hbytes, htype]
    exact base64Decode_of_at h64 hat
  rw [hbytes, ← hcontent] at hat
  have hparse : ∀ t, parseText env (ascii f.type.name) (content env f.type (utf8 f.vlessUrl))
      (start f.type) = .ok (some t) ↔
        parseNodeUrl (ascii "vless") (content env f.type (utf8 f.vlessUrl)) (start .vless) = .ok t := by
    intro t
    rw [htype] at hat ⊢
    have hbranch : parseText env (ascii LinkType.vless.name) (content env .vless (utf8 f.vlessUrl))
        (start .vless) = vlessText (content env .vless (utf8 f.vlessUrl)) (start .vless) := rfl
    rw [hbranch, vlessText, if_pos hat]
    exact some_map_eq_ok
  have hne : stripNul (utf8 f.vlessUrl) ≠ [] := by
    intro hnil
    have hmem : 0x40 ∈ stripNul (utf8 f.vlessUrl) := by
      rw [hbytes, Form.vlessBytes]
      exact List.mem_filter.mpr ⟨by simp, by decide⟩
    rw [hnil] at hmem
    cases hmem
  rw [roundTrips_iff hurl hne (hbytes ▸ isSpace_of_getLast?_append halias)]
  · simp only [hparse]
    generalize content env f.type (utf8 f.vlessUrl) = c at hcontent
    have hif := hcontent.trans (before_link f)
    constructor
    · rintro ⟨t, ht, hfields⟩
      have hnames : t.names = urlNames c := congrArg Core.names (core_parseNodeUrl ht)
      have hserver := hfields (field "server" f.server) (by simp [exported])
      have hserverPort := hfields (field "server_port" f.serverPort) (by simp [exported])
      have hremark := hfields (field "alias" f.nodeAlias) (by simp [exported])
      rw [show t.get (field "server" f.server).1 = (urlNames c).server from
        congrArg Names.server hnames] at hserver
      rw [show t.get (field "server_port" f.serverPort).1 = (urlNames c).port from
        congrArg Names.port hnames] at hserverPort
      rw [show t.get (field "alias" f.nodeAlias).1 = (urlNames c).nodeAlias from
        congrArg Names.nodeAlias hnames] at hremark
      obtain ⟨hclean, hcolon⟩ := urlNames_clean hserver hserverPort
      have hpart := hcontent ▸ Search.before_start (ascii "://")
        (stripNul (f.vlessBytes ++ 0x23 :: escapeBytes isKept (utf8 f.nodeAlias)))
      have hzero : 0 ∉ c := fun hmem ↦ zero_not_mem_stripNul _ (hpart.subset hmem)
      have hlink : VlessClean f := by
        rw [stripNul_append] at hpart
        exact vlessClean_of_fields htype (clean_hostPort hclean) hzero hpart
          (hcontent ▸ Search.not_infix_before (by decide)) ht hfields
      rw [stripNul_eq_self (hlink.not_mem_bytes (by decide))] at hif
      obtain ⟨hcut, rfl⟩ := uncut (hlink.not_mem_bytes (by decide)) halias hif
        (Value.str.inj hremark)
      rw [hlink.parseNodeUrl_eq htype hfill] at ht
      cases ht
      obtain ⟨hkept, hauth, hmkcp⟩ := (hlink.table_iff htype hfill _).mp hfields
      rw [authority_urlHost_iff (hlink.host 0 (by decide)) hcolon hport] at hauth
      exact ⟨⟨hclean, hcolon, hauth.1⟩, fun hin ↦ hcut (hlink.link_iff.mpr hin), hauth.2,
        (urlDecode_alias_iff f).mp hkept, hlink.raw, hmkcp⟩
    · intro hkept
      have hlink : VlessClean f := ⟨clean_hostPort hkept.host.clean, hkept.raw⟩
      rw [stripNul_eq_self (hlink.not_mem_bytes (by decide)),
        if_neg fun hin ↦ hkept.cut (hlink.link_iff.mp hin)] at hif
      rw [hif]
      refine ⟨_, hlink.parseNodeUrl_eq htype hfill _, (hlink.table_iff htype hfill _).mpr ?_⟩
      rw [authority_urlHost_iff (hlink.host 0 (by decide)) hkept.host.port hport]
      exact ⟨(urlDecode_alias_iff f).mpr hkept.nodeAlias, ⟨hkept.host.brackets, hkept.slash⟩,
        hkept.transport⟩
  · intro t ht
    have hnames : t.names = urlNames _ := congrArg Core.names (core_parseNodeUrl ((hparse t).mp ht))
    rw [show t.get "alias" = _ from congrArg Names.nodeAlias hnames]
    rfl

end OpenWrtCompile.Subscribe
