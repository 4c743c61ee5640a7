import OpenWrtCompile.Subscribe.RoundTrip.Parts

/-!
# The round trip of a `vmess` link

A `vmess` link of `buildUrl` (`url.htm:156–197`) is a JSON object, so no text of a field has a meaning in
it. Of the fields that `processData` does not read, or reads in another form, the seed of the transport
`kcp` is lost, a path stays as `encodeURI` has written it, the security `auto` is left out and the
transport `mkcp` is renamed.
-/

namespace OpenWrtCompile.Subscribe
open OpenWrtCompile.Base

/-- The table of the object `info`. -/
def Form.infoTable (f : Form) : Table := f.info.map fun p ↦ (ascii p.1, .str (utf8 p.2))

/-- The paths of `info`, which are written with `encodeURI`. -/
def PathKept (path : Text) : Prop := ∀ c ∈ utf8 path, isKept c = true

/-- What stands in the way of the round trip of a `vmess` node. -/
structure VmessKept (f : Form) : Prop where
  kcp : f.transport ≠ text "kcp" ∧ f.transport ≠ text "mkcp"
  security : f.security ≠ text "auto"
  wsPath : f.transport = text "ws" → PathKept f.wsPath
  httpPath : f.transport = text "tcp" → f.tcpGuise = text "http" → PathKept f.httpPath
  httpupgradePath : f.transport = text "httpupgrade" → PathKept f.httpupgradePath

/-- What is read of the object whatever the transport. -/
theorem get_infoTable (f : Form) :
    f.infoTable.get "add" = .str (utf8 f.server) ∧
      f.infoTable.get "port" = .str (utf8 f.serverPort) ∧
      f.infoTable.get "id" = .str (utf8 f.uuid) ∧
      f.infoTable.get "ps" = .str (utf8 f.nodeAlias) ∧
      f.infoTable.get "net" = .str (utf8 f.transport) ∧
      f.infoTable.get "security" =
        .str (if f.security = [] then ascii "auto" else utf8 f.security) := by
  unfold Form.infoTable Form.info Form.transportInfo
  refine ⟨?_, ?_, ?_, ?_, ?_, ?_⟩ <;> simp +decide [Table.get, Table.at_cons] <;> split_ifs <;>
    simp +decide [Table.at_cons]

/-- What is read of the object about TLS. -/
theorem get_infoTable_tls (f : Form) :
    f.infoTable.get "tls" = (if f.tls then .str (ascii "tls") else .nil) ∧
      (f.tls = true → f.infoTable.get "sni" = .str (utf8 f.sni) ∧
        f.infoTable.get "fp" =
          .str (if f.fingerprint = [] then ascii "random" else utf8 f.fingerprint) ∧
        f.infoTable.get "allowInsecure" = if f.insecure then .str (ascii "1") else .nil) := by
  unfold Form.infoTable Form.info Form.transportInfo Form.tlsInfo
  constructor
  · split_ifs <;> simp +decide [Table.get, Table.at_cons, Table.at_nil]
  · intro h
    refine ⟨?_, ?_, ?_⟩ <;> split_ifs <;>
      simp_all +decide [Table.get, Table.at_cons, Table.at_nil]

/-- A text is compared with a literal. -/
theorem eqStr_utf8 (s : Text) (lit : String) (h : utf8 (text lit) = ascii lit) :
    Value.eqStr (.str (utf8 s)) (ascii lit) = decide (s = text lit) := by
  unfold Value.eqStr
  rw [← h]
  simp only [utf8_inj]

/-- What is read of the object about each transport. -/
theorem get_infoTable_transport (f : Form) :
    (f.transport = text "ws" → f.infoTable.get "host" = .str (utf8 f.wsHost) ∧
        f.infoTable.get "path" = .str (utf8 (encodeURI f.wsPath))) ∧
      (f.transport = text "tcp" → f.tcpGuise = text "http" →
        f.infoTable.get "type" = .str (utf8 f.tcpGuise) ∧
        f.infoTable.get "host" = .str (utf8 f.httpHost) ∧
        f.infoTable.get "path" = .str (utf8 (encodeURI f.httpPath))) ∧
      (f.transport = text "tcp" → f.tcpGuise ≠ text "http" → f.infoTable.get "type" = .nil) ∧
      (f.transport = text "kcp" → f.infoTable.get "type" = .str (utf8 f.kcpGuise)) ∧
      (f.transport = text "grpc" →
        f.infoTable.get "serviceName" = .str (utf8 f.grpcServiceName) ∧
        f.infoTable.get "authority" = .str (utf8 f.grpcAuthority)) ∧
      (f.transport = text "httpupgrade" → f.infoTable.get "host" = .str (utf8 f.httpupgradeHost) ∧
        f.infoTable.get "path" = .str (utf8 (encodeURI f.httpupgradePath))) := by
  unfold Form.infoTable Form.info Form.transportInfo Form.tlsInfo
  refine ⟨?_, ?_, ?_, ?_, ?_, ?_⟩ <;> intro h
  · simp +decide [h, Table.get, Table.at_cons]
  · intro hguise
    simp +decide [h, hguise, Table.get, Table.at_cons]
  · intro hguise
    split_ifs <;> simp_all +decide [Table.get, Table.at_cons, Table.at_nil]
  · simp +decide [h, Table.get, Table.at_cons]
  · simp +decide [h, Table.get, Table.at_cons]
  · simp +decide [h, Table.get, Table.at_cons]

/-- A path comes out if and only if `encodeURI` leaves it. -/
theorem utf8_encodeURI_eq_iff {path : Text} :
    utf8 (encodeURI path) = utf8 path ↔ PathKept path := by
  rw [utf8_encodeURI]
  exact escapeBytes_eq_self_iff

/-- The fields that `setTls` leaves. -/
theorem get_setTls (info result : Table) (k : String) (hs : ascii "security" ≠ ascii k)
    (ht : ascii "tls" ≠ ascii k) (hn : ascii "sni" ≠ ascii k) (hf : ascii "fingerprint" ≠ ascii k)
    (hi : ascii "insecure" ≠ ascii k) : (setTls info result).get k = result.get k := by
  unfold setTls
  simp only
  split_ifs <;> simp only [Table.get_set_ne _ _ _ _ hs, Table.get_set_ne _ _ _ _ ht,
    Table.get_set_ne _ _ _ _ hn, Table.get_set_ne _ _ _ _ hf, Table.get_set_ne _ _ _ _ hi]

/-- Which fields of the transport come out. -/
theorem setNet_fields {f : Form} {result : Table} (hseed : result.get "seed" = .nil) :
    (∀ p ∈ f.transportFields, (setTls f.infoTable (setNet f.infoTable result)).get p.1 = p.2) ↔
      f.transport ≠ text "kcp" ∧
        (f.transport = text "ws" → PathKept f.wsPath) ∧
        (f.transport = text "tcp" → f.tcpGuise = text "http" → PathKept f.httpPath) ∧
        (f.transport = text "httpupgrade" → PathKept f.httpupgradePath) := by
  have hnet := (get_infoTable f).2.2.2.2.1
  obtain ⟨hws, hhttp, -, hkcp, hgrpc, hupgrade⟩ := get_infoTable_transport f
  unfold setNet Form.transportFields
  simp only [hnet, eqStr_utf8 f.transport "ws" rfl, eqStr_utf8 f.transport "tcp" rfl,
    eqStr_utf8 f.transport "kcp" rfl, eqStr_utf8 f.transport "mkcp" rfl,
    eqStr_utf8 f.transport "grpc" rfl, eqStr_utf8 f.transport "httpupgrade" rfl]
  by_cases h : f.transport = text "ws"
  · simp +decide (disch := decide) [h, hws h, field, get_setTls, Table.get_set_ne,
      utf8_encodeURI_eq_iff]
  by_cases h : f.transport = text "tcp"
  · by_cases hguise : f.tcpGuise = text "http"
    · simp +decide (disch := decide) [h, hguise, hhttp h hguise, field, get_setTls,
        Table.get_set_ne, utf8_encodeURI_eq_iff, Value.eqStr]
    · simp +decide [h, hguise]
  by_cases h : f.transport = text "kcp"
  · simp +decide (disch := decide) [h, hkcp h, field, get_setTls, Table.get_set_ne, setKcp, hseed]
  by_cases h : f.transport = text "grpc"
  · simp +decide (disch := decide) [h, hgrpc h, field, get_setTls, Table.get_set_ne]
  by_cases h : f.transport = text "httpupgrade"
  · simp +decide (disch := decide) [h, hupgrade h, field, get_setTls, Table.get_set_ne,
      utf8_encodeURI_eq_iff]
  · simp +decide [*]

/-- The transport comes out but for two that are made one. -/
theorem setNet_transport {f : Form} {result : Table}
    (hset : result.get "transport" = .str (utf8 f.transport)) :
    (setNet f.infoTable result).get "transport" =
      if f.transport = text "mkcp" then .str (ascii "kcp") else .str (utf8 f.transport) := by
  have hnet := (get_infoTable f).2.2.2.2.1
  unfold setNet
  simp only [hnet, eqStr_utf8 f.transport "ws" rfl, eqStr_utf8 f.transport "tcp" rfl,
    eqStr_utf8 f.transport "kcp" rfl, eqStr_utf8 f.transport "mkcp" rfl,
    eqStr_utf8 f.transport "grpc" rfl, eqStr_utf8 f.transport "httpupgrade" rfl]
  by_cases h : f.transport = text "mkcp"
  · simp +decide (disch := decide) [h, Table.get_set_ne, setKcp]
  by_cases h : f.transport = text "kcp"
  · simp +decide (disch := decide) [h, Table.get_set_ne, setKcp]
  · simp only [*, decide_false, Bool.or_self, Bool.false_eq_true, if_false]
    split_ifs <;> simp +decide (disch := decide) [Table.get_set_ne, hset]

/-- The fields that `setNet` leaves. -/
theorem get_setNet {info result : Table} (k : String)
    (h : k ∈ ["alias", "server", "server_port", "uuid", "security", "seed"]) :
    (setNet info result).get k = result.get k := by
  simp only [List.mem_cons, List.not_mem_nil, or_false] at h
  unfold setNet setKcp
  simp only
  obtain rfl | rfl | rfl | rfl | rfl | rfl := h <;> split_ifs <;>
    simp (disch := decide) only [Table.get_set_ne]

/-- The security comes out unless it is the one that is left out. -/
theorem setTls_security {f : Form} {result : Table} (hne : f.security ≠ [])
    (hnone : result.get "security" = .nil) :
    (setTls f.infoTable result).get "security" = .str (utf8 f.security) ↔
      f.security ≠ text "auto" := by
  have hsecurity := (get_infoTable f).2.2.2.2.2
  rw [if_neg hne] at hsecurity
  unfold setTls
  simp only [hsecurity, eqStr_utf8 f.security "auto" rfl]
  by_cases h : f.security = text "auto"
  · simp only [h, decide_true, Bool.not_true, Bool.and_false, Bool.false_eq_true, if_false]
    split_ifs <;> simp (disch := decide) [Table.get_set_ne, hnone]
  · simp only [h, decide_false, Value.truthy, Bool.not_false, Bool.and_self, if_true]
    split_ifs <;> simp (disch := decide) [Table.get_set_ne, h]

/-- The fields of TLS come out. -/
theorem setTls_fields {f : Form} (result : Table) (hfp : f.tls = true → f.fingerprint ≠ []) :
    ∀ p ∈ (if f.tls then
        [checked "tls", field "sni" f.sni, field "fingerprint" f.fingerprint] ++ f.insecureField
      else []), (setTls f.infoTable result).get p.1 = p.2 := by
  obtain ⟨htls, hfields⟩ := get_infoTable_tls f
  by_cases h : f.tls = true
  · obtain ⟨hsni, hfinger, hinsecure⟩ := hfields h
    unfold setTls
    simp only [htls, hsni, hfinger, hinsecure]
    by_cases hbox : f.insecure = true <;>
      simp +decide (disch := decide) [h, hbox, hfp h, checked, field, Form.insecureField,
        Table.get_set_ne, Value.eqStr, oneIf]
  · simp [h]

/-- Every transport comes out but the one that is renamed. -/
theorem renamedTransport_iff (s : Text) :
    (if s = text "mkcp" then Value.str (ascii "kcp") else .str (utf8 s)) = .str (utf8 s) ↔
      s ≠ text "mkcp" := by
  by_cases h : s = text "mkcp"
  · rw [if_pos h, h]
    refine iff_of_false (fun heq ↦ ?_) (fun hne ↦ hne rfl)
    have hbytes := Value.str.inj heq
    revert hbytes
    decide
  · rw [if_neg h]
    exact iff_of_true rfl h

/-- Which of the fields come out. -/
theorem vmessNode_iff {f : Form} (htype : f.type = .vmess) (hfill : Filled f) :
    (∀ p ∈ exported f, (vmessNode f.infoTable (start .vmess)).get p.1 = p.2) ↔ VmessKept f := by
  have hsecurity : f.security ≠ [] := hfill.ne_nil (by simp [exported, htype] : field "security" _ ∈ _)
  have hfp : f.tls = true → f.fingerprint ≠ [] := by
    intro htls
    exact hfill.ne_nil (by simp [exported, htype, htls] : field "fingerprint" _ ∈ _)
  obtain ⟨hadd, hport, hid, hps, hnet, -⟩ := get_infoTable f
  have hexported : exported f =
      [field "alias" f.nodeAlias, field "server" f.server, field "server_port" f.serverPort] ++
        ([field "uuid" f.uuid, field "transport" f.transport, field "security" f.security] ++
        f.transportFields ++
        if f.tls then
          [checked "tls", field "sni" f.sni, field "fingerprint" f.fingerprint] ++ f.insecureField
        else []) := by
    unfold exported
    rw [htype]
  rw [hexported, List.forall_mem_append, List.forall_mem_append, List.forall_mem_append]
  unfold vmessNode
  simp only [hadd, hport, hid, hps, hnet]
  generalize hresult : Table.set _ "alias" _ = result
  have hseed : result.get "seed" = .nil := by
    rw [← hresult]
    simp (disch := decide) only [Table.get_set_ne, get_start]
  have hnone : result.get "security" = .nil := by
    rw [← hresult]
    simp (disch := decide) only [Table.get_set_ne, get_start]
  have htransport : result.get "transport" = .str (utf8 f.transport) := by
    rw [← hresult]
    simp +decide (disch := decide) [Table.get_set_ne]
  rw [setNet_fields hseed]
  have hsecurityIff := @setTls_security f (setNet f.infoTable result) hsecurity
    ((get_setNet _ (by simp)).trans hnone)
  have htls := setTls_fields (setNet f.infoTable result) hfp
  have hnames : ∀ k ∈ ["alias", "server", "server_port", "uuid"],
      (setTls f.infoTable (setNet f.infoTable result)).get k = result.get k := by
    intro k hk
    simp only [List.mem_cons, List.not_mem_nil, or_false] at hk
    obtain rfl | rfl | rfl | rfl := hk <;>
      rw [get_setTls _ _ _ (by decide) (by decide) (by decide) (by decide) (by decide),
        get_setNet _ (by simp)]
  have hresults : result.get "alias" = .str (utf8 f.nodeAlias) ∧
      result.get "server" = .str (utf8 f.server) ∧
      result.get "server_port" = .str (utf8 f.serverPort) ∧
      result.get "uuid" = .str (utf8 f.uuid) := by
    rw [← hresult]
    simp (disch := decide) [Table.get_set_ne]
  have hset : (setTls f.infoTable (setNet f.infoTable result)).get "transport" =
      if f.transport = text "mkcp" then .str (ascii "kcp") else .str (utf8 f.transport) := by
    rw [get_setTls _ _ _ (by decide) (by decide) (by decide) (by decide) (by decide),
      setNet_transport htransport]
  generalize setTls f.infoTable (setNet f.infoTable result) = t at *
  simp only [List.forall_mem_cons, field, hnames "alias" (by simp), hnames "server" (by simp),
    hnames "server_port" (by simp), hnames "uuid" (by simp), hresults, hset, hsecurityIff]
  rw [renamedTransport_iff]
  constructor
  · rintro ⟨-, ⟨⟨-, hrenamed, hauto, -⟩, hkcp, hws, hhttp, hupgrade⟩, -⟩
    exact ⟨⟨hkcp, hrenamed⟩, hauto, hws, hhttp, hupgrade⟩
  · intro h
    exact ⟨⟨trivial, trivial, trivial, fun p hp ↦ absurd hp List.not_mem_nil⟩,
      ⟨⟨trivial, h.kcp.2, h.security, fun p hp ↦ absurd hp List.not_mem_nil⟩, h.kcp.1, h.wsPath,
        h.httpPath, h.httpupgradePath⟩, htls⟩

/-- A character of a JSON string is no zero byte. -/
theorem ne_zero_of_mem_quoteChar {c x : Char} (h : x ∈ quoteChar c) : x.toNat ≠ 0 := by
  have hdigit : ∀ n, n < 16 → (hexLower n).toNat ≠ 0 := by
    intro n hn
    have hall : ∀ k : Fin 16, (hexLower k).toNat ≠ 0 := by decide
    exact hall ⟨n, hn⟩
  unfold quoteChar at h
  simp only at h
  split_ifs at h with h1 h2 h3 h4 h5 h6 h7 <;>
    simp only [List.mem_cons, List.not_mem_nil, or_false] at h
  · obtain rfl | rfl := h
    · decide
    · omega
  · obtain rfl | rfl := h <;> decide
  · obtain rfl | rfl := h <;> decide
  · obtain rfl | rfl := h <;> decide
  · obtain rfl | rfl := h <;> decide
  · obtain rfl | rfl := h <;> decide
  · obtain rfl | rfl | rfl | rfl | rfl | rfl := h
    · decide
    · decide
    · decide
    · decide
    · exact hdigit _ (by omega)
    · exact hdigit _ (Nat.mod_lt _ (by decide))
  · subst h
    omega

/-- What a joined list has comes from its parts or from between them. -/
theorem mem_intercalate {sep x : Char} {l : List Text} (h : x ∈ List.intercalate [sep] l) :
    x = sep ∨ ∃ y ∈ l, x ∈ y := by
  induction l with
  | nil => cases h
  | cons a l ih =>
    cases l with
    | nil =>
      rw [List.intercalate_singleton] at h
      exact Or.inr ⟨a, List.mem_cons_self, h⟩
    | cons b l =>
      rw [List.intercalate_cons_cons, List.append_assoc, List.mem_append, List.mem_append,
        List.mem_singleton] at h
      obtain h | h | h := h
      · exact Or.inr ⟨a, List.mem_cons_self, h⟩
      · exact Or.inl h
      · obtain h | ⟨y, hy, hx⟩ := ih h
        · exact Or.inl h
        · exact Or.inr ⟨y, List.mem_cons_of_mem a hy, hx⟩

/-- A JSON text has no zero byte. -/
theorem zero_not_mem_stringify (info : List (String × Text)) : 0 ∉ utf8 (stringify info) := by
  have hquote : ∀ s : Text, ∀ x ∈ quote s, x.toNat ≠ 0 := by
    intro s x hx
    unfold quote at hx
    simp only [List.cons_append, List.mem_cons, List.mem_append, List.mem_flatMap,
      List.not_mem_nil, or_false] at hx
    obtain rfl | ⟨y, -, hy⟩ | rfl := hx
    · decide
    · exact ne_zero_of_mem_quoteChar hy
    · decide
  have hpair : ∀ p : String × Text, ∀ x ∈ quote (text p.1) ++ ':' :: quote p.2, x.toNat ≠ 0 := by
    intro p x hx
    obtain hx | hx := List.mem_append.mp hx
    · exact hquote _ x hx
    · obtain rfl | hx := List.mem_cons.mp hx
      · decide
      · exact hquote _ x hx
  have hall : ∀ x ∈ stringify info, x.toNat ≠ 0 := by
    intro x hx
    unfold stringify at hx
    simp only [List.cons_append, List.mem_cons, List.mem_append, List.not_mem_nil, or_false] at hx
    obtain rfl | hx | rfl := hx
    · decide
    · obtain rfl | ⟨y, hy, hx⟩ := mem_intercalate hx
      · decide
      · obtain ⟨p, -, rfl⟩ := List.mem_map.mp hy
        exact hpair p x hx
    · decide
  have hzero := @mem_utf8 (stringify info) (Char.ofNat 0) (by decide)
  intro h
  exact hall _ (hzero.mp h) (by decide)

/-- `luci.jsonc` reads the object of a link. -/
def ParsesInfo (env : Env) (f : Form) : Prop :=
  env.jsonParse (utf8 (stringify f.info)) = .table [] f.infoTable

/-- Padded base64 text is below 128. -/
theorem below128_padded (data : Bytes) : Below128 (Base64.padded data) := by
  intro c hc
  rw [Base64.padded, List.mem_append] at hc
  obtain hc | hc := hc
  · exact below128_encode data c hc
  · rw [List.eq_of_mem_replicate hc]
    decide

/-- Padded base64 text has no colon and does not end with a space. -/
theorem padded_marks {data : Bytes} {c : UInt8} (h : c ∈ Base64.padded data) :
    c ≠ 0x3A ∧ isSpace c = false := by
  rw [Base64.padded, List.mem_append] at h
  obtain h | h := h
  · have hvalue := Base64.isSome_of_mem_encode h
    constructor
    · rintro rfl
      revert hvalue
      decide
    · cases hspace : isSpace c with
      | false => rfl
      | true =>
        obtain rfl | rfl | rfl | rfl | rfl | rfl := cases_of_isSpace hspace <;> revert hvalue <;>
          decide
  · rw [List.eq_of_mem_replicate h]
    decide

/-- A `vmess` node comes back from its link if and only if none of its fields is lost. -/
theorem roundTrips_vmess_iff {env : Env} (h64 : Decodes64 env.b64decode) {f : Form}
    (hjson : ParsesInfo env f) (htype : f.type = .vmess) (hfill : Filled f) :
    RoundTrips env f ↔ VmessKept f := by
  have hurl : buildUrl f = some (text f.type.name ++ text "://" ++
      binary (Base64.padded (utf8 (stringify f.info)))) := by
    unfold buildUrl Form.vmessUrl
    rw [htype, b64EncodeUnicode_eq]
    rfl
  have hbytes : utf8 (binary (Base64.padded (utf8 (stringify f.info)))) =
      Base64.padded (utf8 (stringify f.info)) := utf8_binary (below128_padded _)
  have hstrip : stripNul (Base64.padded (utf8 (stringify f.info))) =
      Base64.padded (utf8 (stringify f.info)) :=
    stripNul_eq_self fun h ↦ (ne_of_mem_padded h).1 rfl
  have hcontent : content env f.type (utf8 (binary (Base64.padded (utf8 (stringify f.info))))) =
      utf8 (stringify f.info) := by
    unfold content
    rw [hbytes, hstrip, Search.before_of_not_infix
      (not_link_of_not_mem fun h ↦ (padded_marks h).1 rfl), htype]
    show base64Decode env (some _) = _
    rw [base64Decode_padded h64, stripNul_eq_self (zero_not_mem_stringify _)]
  have hne : Base64.padded (utf8 (stringify f.info)) ≠ [] := by
    intro hnil
    have hlen := Base64.length_lt_encode
      (fun h ↦ List.cons_ne_nil _ _ (utf8_eq_nil.mp h) : utf8 (stringify f.info) ≠ [])
    rw [Base64.padded, List.append_eq_nil_iff] at hnil
    rw [hnil.1] at hlen
    exact Nat.not_lt_zero _ hlen
  have hparse : parseText env (ascii f.type.name) (utf8 (stringify f.info)) (start f.type) =
      .ok (some (vmessNode f.infoTable (start .vmess))) := by
    rw [htype]
    show vmessText env (utf8 (stringify f.info)) (start .vmess) = _
    unfold vmessText
    simp only
    rw [hjson]
    rfl
  rw [roundTrips_iff hurl, hcontent, hparse]
  · rw [← vmessNode_iff htype hfill]
    constructor
    · rintro ⟨t, ht, hfields⟩
      cases ht
      exact hfields
    · intro hfields
      exact ⟨_, rfl, hfields⟩
  · rw [hbytes, hstrip]
    exact hne
  · intro c hc
    rw [hbytes] at hc
    exact (padded_marks (List.mem_of_getLast? hc)).2
  · intro t ht
    rw [hcontent, hparse] at ht
    cases ht
    unfold vmessNode
    rw [get_setTls _ _ _ (by decide) (by decide) (by decide) (by decide) (by decide),
      get_setNet _ (by simp), Table.get_set_self, (get_infoTable f).2.2.2.1]
    rfl

end OpenWrtCompile.Subscribe
