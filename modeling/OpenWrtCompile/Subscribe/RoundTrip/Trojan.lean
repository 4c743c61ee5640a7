import OpenWrtCompile.Subscribe.RoundTrip.Parts

/-!
# The round trip of a `trojan` link

A `trojan` link of `buildUrl` (`url.htm:275–289`) gives back every exported field if and only if its
server, port and alias have none of the texts at which the script cuts the link. Password and server
name are encoded and come out whatever they are.
-/

namespace OpenWrtCompile.Subscribe
open OpenWrtCompile.Base

/-- The parameters of a `trojan` link. -/
def Form.trojanItems (f : Form) : List Item :=
  (if f.sni = [] then [] else [(text "sni", encodeURIComponent f.sni)]) ++
    if f.insecure then [(text "allowinsecure", text "1")] else []

/-- They are the ones that `buildUrl` joins. -/
theorem trojanParams_eq (f : Form) : f.trojanParams = joined f.trojanItems := by
  unfold Form.trojanParams Form.trojanItems queryUnlessEmpty
  rw [joined_append]
  congr 1
  · split
    · rfl
    · exact query_eq _ _
  · split <;> rfl

/-- Each of them is readable. -/
theorem readable_trojanItems (f : Form) : ∀ p ∈ f.trojanItems, p.Readable := by
  unfold Form.trojanItems
  rw [List.forall_mem_append]
  constructor
  · split
    · exact fun p hp ↦ absurd hp List.not_mem_nil
    · next hsni =>
      intro p hp
      rw [List.mem_singleton.mp hp]
      exact readable_encoded hsni ⟨by decide, forall_mem_of_all (by decide)⟩
  · apply forall_mem_ite
    · intro p hp
      rw [List.mem_singleton.mp hp]
      exact ⟨⟨by decide, forall_mem_of_all (by decide)⟩, ⟨by decide, forall_mem_of_all (by decide)⟩⟩
    · exact fun p hp ↦ absurd hp List.not_mem_nil

/-- A `trojan` link before its alias. -/
def Form.trojanBytes (f : Form) : Bytes :=
  escapeBytes isUnescaped (utf8 f.password) ++
    0x40 :: (f.hostPort ++ 0x2F :: 0x3F :: queryBytes f.trojanItems)

/-- The bytes of a `trojan` link. -/
theorem utf8_trojanUrl (f : Form) :
    utf8 f.trojanUrl = f.trojanBytes ++ 0x23 :: escapeBytes isKept (utf8 f.nodeAlias) := by
  have hat : utf8 (text "@") = [0x40] := rfl
  have hcolon : utf8 (text ":") = [0x3A] := rfl
  have hquery : utf8 (text "/?") = [0x2F, 0x3F] := rfl
  unfold Form.trojanUrl Form.trojanBytes Form.hostPort
  rw [trojanParams_eq]
  simp only [utf8_append, utf8_withAlias, utf8_encodeURIComponent, hat, hcolon, hquery,
    List.append_assoc, List.cons_append, List.nil_append]

/-- The bytes with a meaning do not occur in the parameters. -/
theorem not_mem_trojanItems (f : Form) {c : UInt8} (hc : c ∈ 0x3A :: urlSpecial) :
    c ∉ queryBytes f.trojanItems := by
  have hvalue : ∀ value : Text, c ∉ utf8 (encodeURIComponent value) := by
    intro value
    rw [utf8_encodeURIComponent]
    apply not_mem_user
    simp only [urlSpecial, List.mem_cons, List.not_mem_nil, or_false] at hc ⊢
    obtain rfl | rfl | rfl | rfl | rfl := hc <;> simp
  have hnames : c ∉ utf8 (text "sni") ∧ c ∉ utf8 (text "allowinsecure") ∧ c ∉ utf8 (text "1") ∧
      c ≠ 0x26 ∧ c ≠ 0x3D := by
    simp only [urlSpecial, List.mem_cons, List.not_mem_nil, or_false] at hc
    obtain rfl | rfl | rfl | rfl | rfl := hc <;> decide
  apply not_mem_queryBytes hnames.2.2.2
  unfold Form.trojanItems
  rw [List.forall_mem_append]
  constructor
  · apply forall_mem_ite
    · exact fun p hp ↦ absurd hp List.not_mem_nil
    · intro p hp
      rw [List.mem_singleton.mp hp]
      exact ⟨hnames.1, hvalue _⟩
  · apply forall_mem_ite
    · intro p hp
      rw [List.mem_singleton.mp hp]
      exact ⟨hnames.2.1, hnames.2.2.1⟩
    · exact fun p hp ↦ absurd hp List.not_mem_nil

/-- The table that the importer reads from a link of a node whose server and port are clean. -/
def trojanTable (f : Form) (remark : Bytes) : Table :=
  let params := readItems lower urlDecode f.trojanItems
  let result := ((start .trojan).set "alias" (.str (urlDecode remark))).set
    "password" (.str (utf8 f.password))
  let result := result.set "server" (.str ((bracketed f.hostPort).getD (utf8 f.server)))
  ((setSni params result).set "insecure" (oneIf ((params.get "allowinsecure").eqStr (ascii "1")))).set
    "server_port" (.str (utf8 f.serverPort))

/-- The bytes with a meaning stand only where the link has them. -/
theorem clean_trojanBytes {f : Form} (hclean : ∀ c ∈ urlSpecial, c ∉ f.hostPort) :
    0 ∉ f.trojanBytes ∧ 0x23 ∉ f.trojanBytes := by
  have hparts : ∀ c ∈ [(0 : UInt8), 0x23], c ∉ f.trojanBytes := by
    intro c hc
    have hspecial : c ∈ urlSpecial ∧ c ≠ 0x40 ∧ c ≠ 0x2F ∧ c ≠ 0x3F ∧
        c ∈ [(0 : UInt8), 0x23, 0x40, 0x3F, 0x3A, 0x26, 0x3D] := by
      simp only [List.mem_cons, List.not_mem_nil, or_false] at hc
      obtain rfl | rfl := hc <;> decide
    unfold Form.trojanBytes
    simp only [List.mem_append, List.mem_cons, not_or]
    exact ⟨not_mem_user hspecial.2.2.2.2 _, hspecial.2.1, hclean c hspecial.1, hspecial.2.2.1,
      hspecial.2.2.2.1, not_mem_trojanItems f (List.mem_cons_of_mem _ hspecial.1)⟩
  exact ⟨hparts 0 (by decide), hparts 0x23 (by decide)⟩

/-- What the importer reads from a link of a node whose server and port are clean. -/
theorem trojanNode_eq {f : Form} (hclean : ∀ c ∈ urlSpecial, c ∉ f.hostPort)
    (hport : 0x3A ∉ utf8 f.serverPort) (hne : utf8 f.serverPort ≠ []) (remark : Bytes) :
    trojanNode (f.trojanBytes ++ 0x23 :: remark) (start .trojan) = .ok (trojanTable f remark) := by
  have hbytes := clean_trojanBytes hclean
  have hat : 0x40 ∉ f.hostPort ++ 0x2F :: 0x3F :: queryBytes f.trojanItems := by
    simp only [List.mem_append, List.mem_cons, not_or]
    exact ⟨hclean 0x40 (by decide), by decide, by decide, not_mem_trojanItems f (by decide)⟩
  have hinfo : split (some f.trojanBytes) (ascii "@") =
      [escapeBytes isUnescaped (utf8 f.password),
        f.hostPort ++ 0x2F :: 0x3F :: queryBytes f.trojanItems] := by
    show Search.split [0x40] (stripNul f.trojanBytes) = _
    rw [stripNul_eq_self hbytes.1, Form.trojanBytes,
      Search.split_cons_of_not_mem _ (not_mem_user (by decide) _),
      Search.split_singleton_of_not_mem (by simp) hat]
  have hzero : 0 ∉ f.hostPort ++ queryBytes f.trojanItems := by
    rw [List.mem_append, not_or]
    exact ⟨hclean 0 (by decide), not_mem_trojanItems f (by decide)⟩
  have hquery := hostQuery_slash (hclean 0x3F (by decide))
    (not_mem_trojanItems f (by decide : 0x3F ∈ 0x3A :: urlSpecial)) hzero
  have hmem : 0x40 ∈ f.trojanBytes := by
    unfold Form.trojanBytes
    simp
  unfold trojanNode
  rw [splitAlias_append remark hbytes.2]
  simp only
  rw [if_neg (not_not.mpr hmem), hinfo]
  simp only [List.getElem?_cons_zero, List.getElem?_cons_succ, Option.map_some]
  rw [hquery, urlDecode_unescaped]
  simp only [bind, Except.bind]
  rw [authority_hostPort (hclean 0 (by decide)) hport hne,
    readParams_someUnlessNil lower urlDecode (readable_trojanItems f)]
  rfl

/-- The parameters that the importer reads from a `trojan` link. -/
theorem get_trojanItems (f : Form) :
    let params := readItems lower urlDecode f.trojanItems
    params.get "peer" = .nil ∧
      params.get "sni" = (if f.sni = [] then .nil else .str (utf8 f.sni)) ∧
      params.get "allowinsecure" = if f.insecure then .str (ascii "1") else .nil := by
  simp only [Table.get, at_readItems, lastValue, Form.trojanItems, List.foldl_append]
  refine ⟨?_, ?_, ?_⟩ <;> split_ifs <;> simp +decide

/-- The exported fields come out but for alias and server, whose texts have a meaning in the link. -/
theorem trojanTable_iff {f : Form} (htype : f.type = .trojan) (remark : Bytes) :
    (∀ p ∈ exported f, (trojanTable f remark).get p.1 = p.2) ↔
      urlDecode remark = utf8 f.nodeAlias ∧
        (bracketed f.hostPort).getD (utf8 f.server) = utf8 f.server := by
  obtain ⟨hpeer, hsni, hinsecure⟩ := get_trojanItems f
  unfold trojanTable
  simp only [setSni, hpeer, hsni, hinsecure]
  by_cases hnone : f.sni = [] <;> by_cases hbox : f.insecure <;>
    simp +decide (disch := decide) [exported, htype, fieldUnlessEmpty, Form.insecureField, hnone,
      hbox, field, checked, Value.truthy, Table.get_set_ne, oneIf, Value.eqStr]

/-- The names that a `trojan` link with user information gives. -/
theorem trojanNames_user (user r : Bytes) :
    trojanNames (escapeBytes isUnescaped user ++ 0x40 :: r) =
      urlNames (escapeBytes isUnescaped user ++ 0x40 :: r) := by
  unfold trojanNames
  rw [splitAlias_user r (not_mem_user (by decide) user)]
  exact if_pos (by simp)

/-- What stands in the way of the round trip of a `trojan` node. -/
structure TrojanKept (f : Form) : Prop where
  host : HostKept f urlSpecial
  cut : ¬ ascii "://" <:+: f.hostPort ++ [0x2F]
  nodeAlias : AliasKept f

/-- Where a `trojan` link has a `://` before its alias. -/
theorem link_trojanBytes (f : Form) :
    ascii "://" <:+: f.trojanBytes ↔ ascii "://" <:+: f.hostPort ++ [0x2F] := by
  have huser : ¬ ascii "://" <:+: escapeBytes isUnescaped (utf8 f.password) :=
    not_link_of_not_mem (not_mem_user (by decide) _)
  have hquery : ¬ ascii "://" <:+: queryBytes f.trojanItems :=
    not_link_of_not_mem (not_mem_trojanItems f (by decide))
  have hcut : f.hostPort ++ 0x2F :: 0x3F :: queryBytes f.trojanItems =
      (f.hostPort ++ [0x2F]) ++ 0x3F :: queryBytes f.trojanItems := by
    rw [List.append_assoc, List.singleton_append]
  unfold Form.trojanBytes
  rw [Search.infix_append_cons (by decide), hcut, Search.infix_append_cons (by decide)]
  tauto

/-- A `trojan` node comes back from its link if and only if nothing of it is taken for a mark of the
link. -/
theorem roundTrips_trojan_iff (env : Env) {f : Form} (htype : f.type = .trojan) (hfill : Filled f) :
    RoundTrips env f ↔ TrojanKept f := by
  have halias : f.nodeAlias ≠ [] := hfill.ne_nil (by simp [exported] : field "alias" _ ∈ _)
  have hport : utf8 f.serverPort ≠ [] := by
    rw [ne_eq, utf8_eq_nil]
    exact hfill.ne_nil (by simp [exported] : field "server_port" _ ∈ _)
  have hurl : buildUrl f = some (text f.type.name ++ text "://" ++ f.trojanUrl) := by
    unfold buildUrl
    rw [htype]
    rfl
  have hbytes := utf8_trojanUrl f
  have hcontent : content env f.type (utf8 f.trojanUrl) =
      if ascii "://" <:+: stripNul f.trojanBytes then
        Search.before (ascii "://") (stripNul f.trojanBytes)
      else stripNul f.trojanBytes ++ 0x23 ::
        Search.before (ascii "://") (escapeBytes isKept (utf8 f.nodeAlias)) := by
    unfold content
    rw [hbytes, before_link, htype]
    exact if_pos (Or.inr rfl)
  have hstart : ∃ r, content env f.type (utf8 f.trojanUrl) =
      escapeBytes isUnescaped (utf8 f.password) ++ 0x40 :: r := by
    unfold content
    rw [hbytes, Form.trojanBytes, List.append_assoc, List.cons_append, before_user, htype]
    exact ⟨_, if_pos (Or.inr rfl)⟩
  have hparse : ∀ t, parseText env (ascii f.type.name) (content env f.type (utf8 f.trojanUrl))
      (start f.type) = .ok (some t) ↔
        trojanNode (content env f.type (utf8 f.trojanUrl)) (start .trojan) = .ok t := by
    intro t
    rw [htype]
    exact some_map_eq_ok
  have hnames : ∀ t, trojanNode (content env f.type (utf8 f.trojanUrl)) (start .trojan) = .ok t →
      t.names = urlNames (content env f.type (utf8 f.trojanUrl)) := by
    intro t ht
    obtain ⟨r, hr⟩ := hstart
    rw [hr] at ht ⊢
    have hcore := core_trojanNode (by rfl) ht
    rw [trojanNames_user] at hcore
    exact congrArg Core.names hcore
  have hne : stripNul (utf8 f.trojanUrl) ≠ [] := by
    intro hnil
    have hat : 0x40 ∈ stripNul (utf8 f.trojanUrl) := by
      rw [hbytes, Form.trojanBytes]
      exact List.mem_filter.mpr ⟨by simp, by decide⟩
    rw [hnil] at hat
    cases hat
  rw [roundTrips_iff hurl hne (hbytes ▸ isSpace_of_getLast?_append halias)]
  · simp only [hparse]
    generalize content env f.type (utf8 f.trojanUrl) = c at hcontent hnames
    constructor
    · rintro ⟨t, ht, hfields⟩
      have hserver := hfields (field "server" f.server) (by simp [exported])
      have hserverPort := hfields (field "server_port" f.serverPort) (by simp [exported])
      have hremark := hfields (field "alias" f.nodeAlias) (by simp [exported])
      have hurlNames := hnames t ht
      rw [show t.get (field "server" f.server).1 = (urlNames c).server from
        congrArg Names.server hurlNames] at hserver
      rw [show t.get (field "server_port" f.serverPort).1 = (urlNames c).port from
        congrArg Names.port hurlNames] at hserverPort
      rw [show t.get (field "alias" f.nodeAlias).1 = (urlNames c).nodeAlias from
        congrArg Names.nodeAlias hurlNames] at hremark
      obtain ⟨hclean, hcolon⟩ := urlNames_clean hserver hserverPort
      have hhost := clean_hostPort hclean
      have hfree := clean_trojanBytes hhost
      rw [stripNul_eq_self hfree.1] at hcontent
      obtain ⟨hlink, rfl⟩ := uncut hfree.2 halias hcontent (Value.str.inj hremark)
      rw [trojanNode_eq hhost hcolon hport] at ht
      cases ht
      obtain ⟨hkept, hbrackets⟩ := (trojanTable_iff htype _).mp hfields
      exact ⟨⟨hclean, hcolon, hbrackets⟩, fun hin ↦ hlink ((link_trojanBytes f).mpr hin),
        (urlDecode_alias_iff f).mp hkept⟩
    · rintro ⟨hkept, hcut, hal⟩
      have hhost := clean_hostPort hkept.clean
      have hfree := clean_trojanBytes hhost
      rw [stripNul_eq_self hfree.1, if_neg fun hin ↦ hcut ((link_trojanBytes f).mp hin)] at hcontent
      rw [hcontent]
      refine ⟨_, trojanNode_eq hhost hkept.port hport _, (trojanTable_iff htype _).mpr ?_⟩
      exact ⟨(urlDecode_alias_iff f).mpr hal, hkept.brackets⟩
  · intro t ht
    have hurlNames := hnames t ((hparse t).mp ht)
    rw [show t.get "alias" = _ from congrArg Names.nodeAlias hurlNames]
    rfl

end OpenWrtCompile.Subscribe
