import OpenWrtCompile.Subscribe.RoundTrip.Parts

/-!
# The round trip of an `ssr` link

An `ssr` link of `buildUrl` (`url.htm:126–155`) is base64 text of the codes of its characters, while the
fields of a node are kept in UTF-8. So a field comes out only where its characters are below 128; the
fields before the password stand in the link as they are, between `:`, up to the first `/?`.
-/

namespace OpenWrtCompile.Subscribe
open OpenWrtCompile.Base

/-- The codes of a text come out as its encoding only where all are below 128 and none is zero. -/
theorem stripNul_latin1_iff {s : Text} :
    stripNul (latin1 s) = utf8 s ↔ IsAscii s ∧ 0 ∉ utf8 s := by
  constructor
  · intro h
    refine ⟨isAscii_of_length ?_, h ▸ zero_not_mem_stripNul _⟩
    rw [← h]
    exact (List.length_filter_le _ _).trans (Nat.le_of_eq (List.length_map _))
  · rintro ⟨hascii, hzero⟩
    rw [← utf8_of_isAscii hascii, stripNul_eq_self hzero]

/-- The fields that stand between `:` behind the address. -/
def Form.ssrFields (f : Form) : List Text := [f.serverPort, f.protocol, f.encryptMethod, f.obfs]

/-- The password as it stands in an `ssr` link. -/
def Form.ssrPassword (f : Form) : Bytes := safe (Base64.encode (latin1 f.password))

/-- An `ssr` link before its `/?`. -/
def Form.ssrHead (f : Form) : Bytes :=
  latin1 f.address ++ 0x3A :: (latin1 f.serverPort ++ 0x3A :: (latin1 f.protocol ++
    0x3A :: (latin1 f.encryptMethod ++ 0x3A :: (latin1 f.obfs ++ 0x3A :: f.ssrPassword))))

/-- The parameters of an `ssr` link. -/
def Form.ssrItems (f : Form) : List Item :=
  [(text "obfsparam", binary (safe (Base64.encode (latin1 f.obfsParam)))),
    (text "protoparam", binary (safe (Base64.encode (latin1 f.protocolParam)))),
    (text "remarks", binary (safe (Base64.encode (utf8 f.nodeAlias))))]

/-- Every code that an `ssr` link has of its fields is below 256. -/
def SsrCodes (f : Form) : Prop :=
  ∀ s ∈ f.server :: f.password :: f.obfsParam :: f.protocolParam :: f.ssrFields,
    ∀ c ∈ s, c.toNat < 256

/-- What stands in the way of the round trip of an `ssr` node. -/
structure SsrKept (f : Form) : Prop where
  codes : ∀ s ∈ f.server :: f.password :: f.obfsParam :: f.protocolParam :: f.ssrFields,
    IsAscii s ∧ 0 ∉ utf8 s
  cut : ∀ s ∈ f.server :: f.ssrFields, ¬ ascii "/?" <:+: utf8 s
  colon : ∀ s ∈ f.ssrFields, 0x3A ∉ utf8 s
  nodeAlias : 0 ∉ utf8 f.nodeAlias
  brackets : (bracketed f.ssrHead).getD (utf8 f.server) = utf8 f.server

/-- The codes of two texts. -/
theorem latin1_append (s t : Text) : latin1 (s ++ t) = latin1 s ++ latin1 t := List.map_append

/-- The codes below 256 of an address. -/
theorem codes_address {f : Form} : (∀ c ∈ f.address, c.toNat < 256) ↔ ∀ c ∈ f.server, c.toNat < 256 := by
  unfold Form.address
  split_ifs
  · simp only [List.cons_append, List.forall_mem_cons, List.forall_mem_append]
    exact ⟨fun h ↦ h.2.1, fun h ↦ ⟨by decide, h, by decide, fun c hc ↦ absurd hc List.not_mem_nil⟩⟩
  · exact Iff.rfl

/-- Base64 text in its safe form is below 128. -/
theorem codes_safe (data : Bytes) : ∀ c ∈ binary (safe (Base64.encode data)), c.toNat < 256 :=
  fun _ hc ↦ lt_of_mem_binary hc

/-- The text that an `ssr` link is made of. -/
def Form.ssrText (f : Form) : Text :=
  f.address ++ text ":" ++ f.serverPort ++ text ":" ++ f.protocol ++ text ":" ++ f.encryptMethod ++
    text ":" ++ f.obfs ++ text ":" ++ binary f.ssrPassword ++ text "/?obfsparam=" ++
    binary (safe (Base64.encode (latin1 f.obfsParam))) ++ text "&protoparam=" ++
    binary (safe (Base64.encode (latin1 f.protocolParam))) ++ text "&remarks=" ++
    binary (safe (Base64.encode (utf8 f.nodeAlias)))

/-- The codes of a text are below 256 where the test of all of them says so. -/
theorem codes_of_all {s : Text} (h : (s.all fun c ↦ decide (c.toNat < 256)) = true) :
    ∀ c ∈ s, c.toNat < 256 :=
  fun c hc ↦ of_decide_eq_true (List.all_eq_true.mp h c hc)

/-- The codes of the link are below 256 where those of the fields are that it has as they are. -/
theorem codes_ssrText (f : Form) :
    (∀ c ∈ f.ssrText, c.toNat < 256) ↔ ∀ s ∈ f.server :: f.ssrFields, ∀ c ∈ s, c.toNat < 256 := by
  have hcolon : ∀ c ∈ text ":", c.toNat < 256 := codes_of_all (by decide)
  have hobfs : ∀ c ∈ text "/?obfsparam=", c.toNat < 256 := codes_of_all (by decide)
  have hproto : ∀ c ∈ text "&protoparam=", c.toNat < 256 := codes_of_all (by decide)
  have hremarks : ∀ c ∈ text "&remarks=", c.toNat < 256 := codes_of_all (by decide)
  have hpassword : ∀ c ∈ binary f.ssrPassword, c.toNat < 256 := fun _ hc ↦ lt_of_mem_binary hc
  unfold Form.ssrText Form.ssrFields
  simp only [List.forall_mem_append, List.forall_mem_cons, codes_address, iff_true_intro hcolon,
    iff_true_intro hobfs, iff_true_intro hproto, iff_true_intro hremarks,
    iff_true_intro hpassword, iff_true_intro (codes_safe _), and_true]
  simp only [and_assoc, List.not_mem_nil, false_imp_iff, implies_true, and_true]

/-- `btoa` takes the link where all codes are below 256. -/
theorem ssrUrl_eq_some_iff {f : Form} {url : Text} :
    f.ssrUrl = some url ↔ SsrCodes f ∧ url = binary (safe (Base64.encode (latin1 f.ssrText))) := by
  have hcodes := codes_ssrText f
  unfold Form.ssrUrl SsrCodes
  unfold Form.ssrText Form.ssrPassword at hcodes ⊢
  simp only [b64encutf8safe_eq, bind, Option.bind_eq_some_iff, b64encsafe_eq_some_iff,
    Option.some.injEq, List.forall_mem_cons] at hcodes ⊢
  constructor
  · rintro ⟨_, ⟨hpassword, rfl⟩, _, ⟨hobfsParam, rfl⟩, _, ⟨hprotocolParam, rfl⟩, _, rfl, hall, hurl⟩
    have hfields := hcodes.mp hall
    exact ⟨⟨hfields.1, hpassword, hobfsParam, hprotocolParam, hfields.2⟩, hurl⟩
  · rintro ⟨⟨hserver, hpassword, hobfsParam, hprotocolParam, hfields⟩, hurl⟩
    exact ⟨_, ⟨hpassword, rfl⟩, _, ⟨hobfsParam, rfl⟩, _, ⟨hprotocolParam, rfl⟩, _, rfl,
      hcodes.mpr ⟨hserver, hfields⟩, hurl⟩

/-- Bytes outside the alphabet do not occur in the safe form of base64 text, nor do those that are
replaced. -/
theorem not_mem_safe {c : UInt8}
    (hc : (Base64.value? c = none ∨ c = 0x2B ∨ c = 0x2F) ∧ c ≠ 0x2D ∧ c ≠ 0x5F) (data : Bytes) :
    c ∉ safe (Base64.encode data) := by
  unfold safe gsubByte
  rw [List.map_map, List.mem_map]
  rintro ⟨x, hx, heq⟩
  have hvalue := Base64.isSome_of_mem_encode hx
  simp only [Function.comp_apply] at heq
  by_cases hplus : x = 0x2B
  · subst hplus
    exact hc.2.1 heq.symm
  by_cases hslash : x = 0x2F
  · subst hslash
    exact hc.2.2 heq.symm
  rw [if_neg hplus, if_neg hslash] at heq
  subst heq
  obtain hnone | h | h := hc.1
  · rw [hnone] at hvalue
    cases hvalue
  · exact hplus h
  · exact hslash h

/-- Only nothing is nothing in base64. -/
theorem safe_ne_nil {data : Bytes} (h : data ≠ []) : safe (Base64.encode data) ≠ [] := by
  intro hnil
  have hlen := Base64.length_lt_encode h
  have hsame : (safe (Base64.encode data)).length = (Base64.encode data).length := by
    unfold safe gsubByte
    rw [List.length_map, List.length_map]
  rw [hnil, List.length_nil] at hsame
  omega

/-- The codes of the link: its head, and behind `/?` its parameters. -/
theorem latin1_ssrText (f : Form) :
    latin1 f.ssrText = f.ssrHead ++ ascii "/?" ++ queryBytes f.ssrItems := by
  have hcolon : latin1 (text ":") = [0x3A] := rfl
  have hobfs : latin1 (text "/?obfsparam=") = ascii "/?" ++ (ascii "obfsparam" ++ [0x3D]) := by decide
  have hproto : latin1 (text "&protoparam=") = 0x26 :: (ascii "protoparam" ++ [0x3D]) := by decide
  have hremarks : latin1 (text "&remarks=") = 0x26 :: (ascii "remarks" ++ [0x3D]) := by decide
  have hkeys : utf8 (text "obfsparam") = ascii "obfsparam" ∧
      utf8 (text "protoparam") = ascii "protoparam" ∧ utf8 (text "remarks") = ascii "remarks" := by
    decide
  unfold Form.ssrText Form.ssrHead queryBytes Form.ssrItems
  simp only [latin1_append, latin1_binary, hcolon, hobfs, hproto, hremarks, List.map_cons,
    List.map_nil, Item.bytes, hkeys, utf8_binary_safe, intercalate_cons, List.flatMap_cons,
    List.flatMap_nil, List.append_assoc, List.cons_append, List.nil_append, List.append_nil]

/-- The parameters of an `ssr` link are readable. -/
theorem readable_ssrItems {f : Form} (hobfs : f.obfsParam ≠ []) (hproto : f.protocolParam ≠ [])
    (halias : f.nodeAlias ≠ []) : ∀ p ∈ f.ssrItems, p.Readable := by
  have hvalue : ∀ data : Bytes, data ≠ [] → utf8 (binary (safe (Base64.encode data))) ≠ [] ∧
      ∀ c ∈ [(0 : UInt8), 0x26, 0x3D], c ∉ utf8 (binary (safe (Base64.encode data))) := by
    intro data hne
    rw [utf8_binary_safe]
    refine ⟨safe_ne_nil hne, fun c hc ↦ not_mem_safe ?_ data⟩
    simp only [List.mem_cons, List.not_mem_nil, or_false] at hc
    obtain rfl | rfl | rfl := hc <;> decide
  have hlatin : ∀ {s : Text}, s ≠ [] → latin1 s ≠ [] := fun h hnil ↦ h (List.map_eq_nil_iff.mp hnil)
  have hobfsKey : utf8 (text "obfsparam") ≠ [] ∧
      ∀ c ∈ [(0 : UInt8), 0x26, 0x3D], c ∉ utf8 (text "obfsparam") :=
    ⟨by decide, forall_mem_of_all (by decide)⟩
  have hprotoKey : utf8 (text "protoparam") ≠ [] ∧
      ∀ c ∈ [(0 : UInt8), 0x26, 0x3D], c ∉ utf8 (text "protoparam") :=
    ⟨by decide, forall_mem_of_all (by decide)⟩
  have haliasKey : utf8 (text "remarks") ≠ [] ∧
      ∀ c ∈ [(0 : UInt8), 0x26, 0x3D], c ∉ utf8 (text "remarks") :=
    ⟨by decide, forall_mem_of_all (by decide)⟩
  unfold Form.ssrItems
  simp only [List.forall_mem_cons]
  exact ⟨⟨hobfsKey, hvalue _ (hlatin hobfs)⟩, ⟨hprotoKey, hvalue _ (hlatin hproto)⟩,
    ⟨haliasKey, hvalue _ fun h ↦ halias (utf8_eq_nil.mp h)⟩, fun p hp ↦ absurd hp List.not_mem_nil⟩

/-- No parameter of an `ssr` link has one of these marks. -/
theorem mark_not_mem_ssrItems {c : UInt8} (hc : c ∈ [(0 : UInt8), 0x3F]) (f : Form) :
    c ∉ queryBytes f.ssrItems := by
  have hmark : ((Base64.value? c = none ∨ c = 0x2B ∨ c = 0x2F) ∧ c ≠ 0x2D ∧ c ≠ 0x5F) ∧
      c ≠ 0x26 ∧ c ≠ 0x3D ∧
      c ∉ utf8 (text "obfsparam") ∧ c ∉ utf8 (text "protoparam") ∧ c ∉ utf8 (text "remarks") := by
    simp only [List.mem_cons, List.not_mem_nil, or_false] at hc
    obtain rfl | rfl := hc <;> decide
  obtain ⟨hmem, hamp, heq, hobfs, hproto, hremarks⟩ := hmark
  apply not_mem_queryBytes ⟨hamp, heq⟩
  unfold Form.ssrItems
  simp only [List.forall_mem_cons, utf8_binary_safe]
  exact ⟨⟨hobfs, not_mem_safe hmem _⟩, ⟨hproto, not_mem_safe hmem _⟩,
    ⟨hremarks, not_mem_safe hmem _⟩, fun p hp ↦ absurd hp List.not_mem_nil⟩

/-- The table that the importer reads from the two parts of an `ssr` link. -/
def ssrTable (env : Env) (head : Bytes) (params : Table) : Table :=
  let hostInfo := split (some head) (ascii ":")
  let result := (start .ssr).set "server" (.ofOption ((bracketed head).or hostInfo[0]?))
  let result := (((result.set "server_port" (fromEnd hostInfo 4)).set
    "protocol" (fromEnd hostInfo 3)).set "encrypt_method" (fromEnd hostInfo 2)).set
    "obfs" (fromEnd hostInfo 1)
  let result := result.set "password" (.str (base64Decode env hostInfo.getLast?))
  let result := (result.set "obfs_param" (.str (decodeParam env params "obfsparam"))).set
    "protocol_param" (.str (decodeParam env params "protoparam"))
  result.set "alias" (.str (ssrAlias env params))

/-- What the importer reads of an `ssr` link. -/
theorem ssrNode_eq_ok {env : Env} {content : Bytes} {t : Table} :
    ssrNode env content (start .ssr) = .ok t ↔
      ∃ head params, (split (some content) (ascii "/?"))[0]? = some head ∧
        readParams id id (split (some content) (ascii "/?"))[1]? = .ok params ∧
        ssrTable env head params = t := by
  unfold ssrNode
  simp only
  cases (split (some content) (ascii "/?"))[0]? with
  | none => exact iff_of_false (fun h ↦ by cases h) (fun ⟨_, _, h, _⟩ ↦ by cases h)
  | some head =>
    simp only [Option.some.injEq]
    constructor
    · intro h
      obtain ⟨params, hparams, h⟩ := bind_eq_ok.mp h
      cases h
      exact ⟨head, params, rfl, hparams, rfl⟩
    · rintro ⟨_, params, rfl, hparams, rfl⟩
      exact bind_eq_ok.mpr ⟨params, hparams, rfl⟩

/-- A piece that is there is a string. -/
theorem ofOption_eq_str {o : Option Bytes} {s : Bytes} : Value.ofOption o = .str s ↔ o = some s := by
  cases o with
  | none => exact iff_of_false (fun h ↦ by cases h) (fun h ↦ by cases h)
  | some v => exact ⟨fun h ↦ by cases h; rfl, fun h ↦ by cases h; rfl⟩

/-- Which of the exported fields come out of the two parts of an `ssr` link. -/
theorem ssrTable_iff {env : Env} {f : Form} (htype : f.type = .ssr) (head : Bytes) (params : Table) :
    (∀ p ∈ exported f, (ssrTable env head params).get p.1 = p.2) ↔
      ssrAlias env params = utf8 f.nodeAlias ∧
        (bracketed head).or (split (some head) (ascii ":"))[0]? = some (utf8 f.server) ∧
        (split (some head) (ascii ":")).reverse[4]? = some (utf8 f.serverPort) ∧
        (split (some head) (ascii ":")).reverse[3]? = some (utf8 f.protocol) ∧
        (split (some head) (ascii ":")).reverse[2]? = some (utf8 f.encryptMethod) ∧
        (split (some head) (ascii ":")).reverse[1]? = some (utf8 f.obfs) ∧
        base64Decode env (split (some head) (ascii ":")).getLast? = utf8 f.password ∧
        decodeParam env params "obfsparam" = utf8 f.obfsParam ∧
        decodeParam env params "protoparam" = utf8 f.protocolParam := by
  simp only [ssrTable, exported, htype, List.cons_append, List.nil_append, List.forall_mem_cons, field,
    fromEnd]
  simp (disch := decide) only [Table.get_set_ne, Table.get_set_self, ofOption_eq_str, Value.str.injEq]
  simp only [List.not_mem_nil, false_imp_iff, implies_true, and_true]

/-- The marks stand in the link only where it has them. -/
structure SsrClean (f : Form) : Prop where
  codes : SsrCodes f
  zero : ∀ s ∈ f.server :: f.ssrFields, 0 ∉ utf8 s
  cut : ∀ s ∈ f.server :: f.ssrFields, ¬ ascii "/?" <:+: utf8 s
  colon : ∀ s ∈ f.ssrFields, 0x3A ∉ utf8 s

/-- What does not stand in the encoding of a text does not stand in its codes. -/
theorem not_infix_latin1 {s : Text} (hs : ∀ c ∈ s, c.toNat < 256) {b : Bytes} (hb : Below128 b)
    (h : ¬ b <:+: utf8 s) : ¬ b <:+: latin1 s := fun hin ↦ h (infix_utf8_of_latin1 hs hb hin)

/-- A byte that does not stand in the encoding of a text does not stand in its codes. -/
theorem not_mem_latin1 {s : Text} (hs : ∀ c ∈ s, c.toNat < 256) {c : UInt8} (hc : c < 128)
    (h : c ∉ utf8 s) : c ∉ latin1 s := by
  rw [← List.singleton_infix_iff] at h ⊢
  exact not_infix_latin1 hs (fun x hx ↦ List.mem_singleton.mp hx ▸ hc) h

/-- The codes of the address. -/
theorem latin1_address (f : Form) :
    latin1 f.address =
      if ':' ∈ f.server then 0x5B :: latin1 f.server ++ [0x5D] else latin1 f.server := by
  unfold Form.address
  split_ifs
  · unfold latin1
    rw [List.map_append, List.map_cons]
    rfl
  · rfl

namespace SsrClean

variable {f : Form} (h : SsrClean f)
include h

/-- The codes of a field that stands in the head. -/
theorem codes_field {s : Text} (hs : s ∈ f.server :: f.ssrFields) : ∀ c ∈ s, c.toNat < 256 := by
  apply h.codes
  rw [List.mem_cons] at hs ⊢
  exact hs.imp id fun hs ↦ by simp [hs]

/-- The head has no zero byte. -/
theorem zero_head : 0 ∉ f.ssrHead := by
  have hfield : ∀ s ∈ f.server :: f.ssrFields, 0 ∉ latin1 s := fun s hs ↦
    not_mem_latin1 (h.codes_field hs) (by decide) (h.zero s hs)
  simp only [Form.ssrFields, List.forall_mem_cons] at hfield
  obtain ⟨hserver, hport, hprotocol, hmethod, hobfs, -⟩ := hfield
  have haddress : 0 ∉ latin1 f.address := by
    rw [latin1_address]
    split_ifs
    · simp [hserver]
    · exact hserver
  unfold Form.ssrHead Form.ssrPassword
  simp only [List.mem_append, List.mem_cons, not_or]
  exact ⟨haddress, by decide, hport, by decide, hprotocol, by decide, hmethod, by decide, hobfs,
    by decide, not_mem_safe (by decide) _⟩

/-- The head ends at the first `/?`. -/
theorem cut_head : ¬ ascii "/?" <:+: f.ssrHead ++ (ascii "/?").dropLast := by
  have hfield : ∀ s ∈ f.server :: f.ssrFields, ¬ ascii "/?" <:+: latin1 s := fun s hs ↦
    not_infix_latin1 (h.codes_field hs) (by unfold Below128; exact forall_mem_of_all (by decide))
      (h.cut s hs)
  simp only [Form.ssrFields, List.forall_mem_cons] at hfield
  obtain ⟨hserver, hport, hprotocol, hmethod, hobfs, -⟩ := hfield
  have haddress : ¬ ascii "/?" <:+: latin1 f.address := by
    rw [latin1_address]
    split_ifs
    · have hcut : 0x5B :: latin1 f.server ++ [0x5D] = [] ++ 0x5B :: (latin1 f.server ++ 0x5D :: []) :=
        rfl
      rw [hcut, Search.infix_append_cons (by decide), Search.infix_append_cons (by decide)]
      rintro (hin | hin | hin)
      · exact absurd (List.eq_nil_of_infix_nil hin) (by decide)
      · exact hserver hin
      · exact absurd (List.eq_nil_of_infix_nil hin) (by decide)
    · exact hserver
  have hpassword : ¬ ascii "/?" <:+: f.ssrPassword ++ (ascii "/?").dropLast := by
    intro hin
    have hmem : 0x3F ∈ f.ssrPassword ++ (ascii "/?").dropLast := hin.subset (by decide)
    rw [List.mem_append] at hmem
    exact hmem.elim (not_mem_safe (by decide) _) (by decide)
  unfold Form.ssrHead
  simp only [List.append_assoc, List.cons_append]
  rw [Search.infix_append_cons (by decide), Search.infix_append_cons (by decide),
    Search.infix_append_cons (by decide), Search.infix_append_cons (by decide),
    Search.infix_append_cons (by decide)]
  simp only [not_or]
  exact ⟨haddress, hport, hprotocol, hmethod, hobfs, hpassword⟩

/-- The link has no zero byte. -/
theorem zero_text : 0 ∉ latin1 f.ssrText := by
  rw [latin1_ssrText]
  simp only [List.mem_append, not_or]
  exact ⟨⟨h.zero_head, by decide⟩, mark_not_mem_ssrItems (by decide) f⟩

/-- The two parts of the link. -/
theorem split_text :
    split (some (latin1 f.ssrText)) (ascii "/?") = [f.ssrHead, queryBytes f.ssrItems] := by
  have hquery : queryBytes f.ssrItems ≠ [] := by
    unfold Form.ssrItems queryBytes
    rw [List.map_cons, intercalate_cons, Item.bytes]
    simp
  have hfree : ¬ ascii "/?" <:+: queryBytes f.ssrItems := fun hin ↦
    mark_not_mem_ssrItems (by decide : 0x3F ∈ [(0 : UInt8), 0x3F]) f (hin.subset (by decide))
  show Search.split (ascii "/?") (stripNul (latin1 f.ssrText)) = _
  rw [stripNul_eq_self h.zero_text, latin1_ssrText, Search.split_append_sep _ h.cut_head,
    Search.split_of_not_infix (by decide) hquery hfree]

/-- The pieces of the head. -/
theorem split_head (hne : f.password ≠ []) :
    split (some f.ssrHead) (ascii ":") =
      Search.split [0x3A] (latin1 f.address ++ [0x3A]) ++
        [latin1 f.serverPort, latin1 f.protocol, latin1 f.encryptMethod, latin1 f.obfs,
          f.ssrPassword] := by
  have hfield : ∀ s ∈ f.ssrFields, 0x3A ∉ latin1 s := fun s hs ↦
    not_mem_latin1 (h.codes_field (List.mem_cons_of_mem _ hs)) (by decide) (h.colon s hs)
  simp only [Form.ssrFields, List.forall_mem_cons] at hfield
  obtain ⟨hport, hprotocol, hmethod, hobfs, -⟩ := hfield
  have hpassword : f.ssrPassword ≠ [] := safe_ne_nil fun hnil ↦ hne (List.map_eq_nil_iff.mp hnil)
  show Search.split [0x3A] (stripNul f.ssrHead) = _
  rw [stripNul_eq_self h.zero_head, Form.ssrHead, Search.split_append_cut,
    Search.split_cons_of_not_mem _ hport, Search.split_cons_of_not_mem _ hprotocol,
    Search.split_cons_of_not_mem _ hmethod, Search.split_cons_of_not_mem _ hobfs,
    Search.split_singleton_of_not_mem hpassword (not_mem_safe (by decide) _)]

/-- The server that the importer reads. -/
theorem server_head (hne : f.password ≠ []) :
    (bracketed f.ssrHead).or (split (some f.ssrHead) (ascii ":"))[0]? =
      some ((bracketed f.ssrHead).getD (latin1 f.server)) := by
  by_cases hcolon : ':' ∈ f.server
  · have hsome : (bracketed f.ssrHead).isSome = true := by
      unfold Form.ssrHead
      rw [latin1_address, if_pos hcolon]
      exact isSome_bracketed (by simp)
    obtain ⟨m, hm⟩ := Option.isSome_iff_exists.mp hsome
    rw [hm]
    rfl
  · have hfree : 0x3A ∉ latin1 f.server := not_mem_latin1 (h.codes_field List.mem_cons_self)
      (by decide) fun hmem ↦ hcolon (colon_mem_utf8.mp hmem)
    rw [h.split_head hne, latin1_address, if_neg hcolon, Search.split_concat hfree]
    cases bracketed f.ssrHead <;> rfl

/-- The fields that the importer reads of a clean link. -/
theorem fields_iff {env : Env} (h64 : Decodes64 env.b64decode) (htype : f.type = .ssr)
    (hfill : Filled f) :
    (∃ t, ssrNode env (latin1 f.ssrText) (start .ssr) = .ok t ∧
        ∀ p ∈ exported f, t.get p.1 = p.2) ↔
      stripNul (utf8 f.nodeAlias) = utf8 f.nodeAlias ∧
        (bracketed f.ssrHead).getD (latin1 f.server) = utf8 f.server ∧
        latin1 f.serverPort = utf8 f.serverPort ∧ latin1 f.protocol = utf8 f.protocol ∧
        latin1 f.encryptMethod = utf8 f.encryptMethod ∧ latin1 f.obfs = utf8 f.obfs ∧
        stripNul (latin1 f.password) = utf8 f.password ∧
        stripNul (latin1 f.obfsParam) = utf8 f.obfsParam ∧
        stripNul (latin1 f.protocolParam) = utf8 f.protocolParam := by
  have hpassword : f.password ≠ [] :=
    hfill.ne_nil (by simp [exported, htype] : field "password" _ ∈ _)
  have hobfsParam : f.obfsParam ≠ [] :=
    hfill.ne_nil (by simp [exported, htype] : field "obfs_param" _ ∈ _)
  have hprotocolParam : f.protocolParam ≠ [] :=
    hfill.ne_nil (by simp [exported, htype] : field "protocol_param" _ ∈ _)
  have hnodeAlias : f.nodeAlias ≠ [] := hfill.ne_nil (by simp [exported] : field "alias" _ ∈ _)
  have hparams :=
    readParams_queryBytes id id (readable_ssrItems hobfsParam hprotocolParam hnodeAlias)
  have hget : ∀ (k : String) (data : Bytes),
      (readItems id id f.ssrItems).get k = .str (safe (Base64.encode data)) →
        decodeParam env (readItems id id f.ssrItems) k = stripNul data := by
    intro k data hk
    unfold decodeParam
    rw [hk]
    exact base64Decode_safe h64 data
  have hitems : (readItems id id f.ssrItems).get "obfsparam" =
        .str (safe (Base64.encode (latin1 f.obfsParam))) ∧
      (readItems id id f.ssrItems).get "protoparam" =
        .str (safe (Base64.encode (latin1 f.protocolParam))) ∧
      (readItems id id f.ssrItems).get "remarks" =
        .str (safe (Base64.encode (utf8 f.nodeAlias))) ∧
      (readItems id id f.ssrItems).get "group" = .nil := by
    simp +decide [Table.get, at_readItems, lastValue, Form.ssrItems, utf8_binary_safe]
  obtain ⟨hobfsItem, hprotoItem, haliasItem, hgroup⟩ := hitems
  have halias : ssrAlias env (readItems id id f.ssrItems) = stripNul (utf8 f.nodeAlias) := by
    unfold ssrAlias
    rw [hget "remarks" _ haliasItem, decodeParam, hgroup]
    rfl
  have hok : ∀ t, ssrNode env (latin1 f.ssrText) (start .ssr) = .ok t ↔
      ssrTable env f.ssrHead (readItems id id f.ssrItems) = t := by
    intro t
    rw [ssrNode_eq_ok, h.split_text]
    simp only [List.getElem?_cons_zero, List.getElem?_cons_succ, hparams, Option.some.injEq,
      Except.ok.injEq]
    constructor
    · rintro ⟨_, _, rfl, rfl, ht⟩
      exact ht
    · intro ht
      exact ⟨_, _, rfl, rfl, ht⟩
  simp only [hok, exists_eq_left', ssrTable_iff htype, halias, h.server_head hpassword,
    hget "obfsparam" _ hobfsItem, hget "protoparam" _ hprotoItem, Option.some.injEq]
  rw [h.split_head hpassword]
  simp only [List.reverse_append, List.reverse_cons, List.reverse_nil, List.nil_append,
    List.cons_append, List.getElem?_cons_succ, List.getElem?_cons_zero, Option.some.injEq,
    List.getLast?_append, List.getLast?_cons_cons, List.getLast?_singleton, Option.some_or]
  rw [Form.ssrPassword, base64Decode_safe h64]

end SsrClean

/-- Only a clean link gives the fields back. -/
theorem ssrClean_of_fields {env : Env} {f : Form} {content : Bytes} {t : Table}
    (hcodes : SsrCodes f) (htype : f.type = .ssr)
    (hok : ssrNode env content (start .ssr) = .ok t) (hfields : ∀ p ∈ exported f, t.get p.1 = p.2) :
    SsrClean f := by
  obtain ⟨head, params, hhead, -, rfl⟩ := ssrNode_eq_ok.mp hok
  obtain ⟨-, hserver, hport, hprotocol, hmethod, hobfs, -⟩ := (ssrTable_iff htype head params).mp hfields
  have hpart : head ∈ split (some content) (ascii "/?") := List.mem_of_getElem? hhead
  have hzero : 0 ∉ head := fun hmem ↦
    zero_not_mem_stripNul content ((infix_of_mem_split (by decide) hpart).subset hmem)
  have hcut : ¬ ascii "/?" <:+: head := Search.not_infix_of_mem_split (by decide) hpart
  have hpiece : ∀ v ∈ split (some head) (ascii ":"), v <:+: head ∧ 0x3A ∉ v := by
    intro v hv
    have hin := infix_of_mem_split (by decide) hv
    rw [stripNul_eq_self hzero] at hin
    have hfree := Search.not_infix_of_mem_split (by decide) hv
    exact ⟨hin, fun hmem ↦ hfree ((List.singleton_infix_iff _ _).mpr hmem)⟩
  have hfield : ∀ s ∈ f.ssrFields, utf8 s <:+: head ∧ 0x3A ∉ utf8 s := by
    have hread : ∀ {k : Nat} {s : Text},
        (split (some head) (ascii ":")).reverse[k]? = some (utf8 s) → utf8 s <:+: head ∧ 0x3A ∉ utf8 s :=
      fun h ↦ hpiece _ (List.mem_reverse.mp (List.mem_of_getElem? h))
    simp only [Form.ssrFields, List.forall_mem_cons]
    exact ⟨hread hport, hread hprotocol, hread hmethod, hread hobfs,
      fun s hs ↦ absurd hs List.not_mem_nil⟩
  have hin : ∀ s ∈ f.server :: f.ssrFields, utf8 s <:+: head := by
    rw [List.forall_mem_cons]
    refine ⟨?_, fun s hs ↦ (hfield s hs).1⟩
    cases hb : bracketed head with
    | some m =>
      rw [hb, Option.some_or] at hserver
      cases hserver
      exact infix_of_bracketed hb
    | none =>
      rw [hb, Option.none_or] at hserver
      exact (hpiece _ (List.mem_of_getElem? hserver)).1
  exact ⟨hcodes, fun s hs hmem ↦ hzero ((hin s hs).subset hmem),
    fun s hs h ↦ hcut (h.trans (hin s hs)), fun s hs ↦ (hfield s hs).2⟩

/-- Fields below 128 have no bytes from 128 on in the head, nor has the password. -/
theorem high_ssrHead {f : Form} (h : ∀ s ∈ f.ssrFields, IsAscii s) :
    high f.ssrHead = high (latin1 f.server) := by
  have hfield : ∀ s ∈ f.ssrFields, high (latin1 s) = 0 := by
    intro s hs
    apply high_eq_zero
    intro c hc
    obtain ⟨x, hx, rfl⟩ := List.mem_map.mp hc
    have hlt := h s hs x hx
    rw [UInt8.lt_iff_toNat_lt, UInt8.toNat_ofNat']
    show x.toNat % 2 ^ 8 < 128
    omega
  simp only [Form.ssrFields, List.forall_mem_cons] at hfield
  obtain ⟨hport, hprotocol, hmethod, hobfs, -⟩ := hfield
  have hpassword : high f.ssrPassword = 0 := high_eq_zero (below128_safe (below128_encode _))
  have hcons : ∀ {c : UInt8} (b : Bytes), c < 128 → high (c :: b) = high b := by
    intro c b hc
    have hone : high [c] = 0 := high_eq_zero fun x hx ↦ List.mem_singleton.mp hx ▸ hc
    rw [← List.singleton_append, high_append, hone, Nat.zero_add]
  have haddress : high (latin1 f.address) = high (latin1 f.server) := by
    have hend : high [0x5D] = 0 := by decide
    rw [latin1_address]
    split_ifs
    · rw [List.cons_append, hcons _ (by decide), high_append, hend, Nat.add_zero]
    · rfl
  unfold Form.ssrHead
  simp only [high_append, hcons _ (by decide : (0x3A : UInt8) < 128), haddress, hport, hprotocol,
    hmethod, hobfs, hpassword, Nat.add_zero]

/-- The server comes out in brackets, or as it is, only where its characters are below 128. -/
theorem SsrClean.isAscii_server {f : Form} (h : SsrClean f) (hfields : ∀ s ∈ f.ssrFields, IsAscii s)
    (hserver : (bracketed f.ssrHead).getD (latin1 f.server) = utf8 f.server) : IsAscii f.server := by
  apply isAscii_of_high (h.codes_field List.mem_cons_self)
  cases hb : bracketed f.ssrHead with
  | none =>
    rw [hb] at hserver
    exact Nat.le_of_eq (congrArg high hserver.symm)
  | some m =>
    rw [hb] at hserver
    have hin := high_le (infix_of_bracketed hb)
    rw [high_ssrHead hfields] at hin
    exact hserver ▸ hin

/-- The codes of a text are its encoding only where its characters are below 128. -/
theorem isAscii_of_latin1 {s : Text} (h : latin1 s = utf8 s) : IsAscii s := by
  apply isAscii_of_length
  rw [← h]
  exact Nat.le_of_eq (List.length_map _)

/-- The fields come out of a clean link if and only if they are kept. -/
theorem SsrClean.kept_iff {f : Form} (h : SsrClean f) :
    (stripNul (utf8 f.nodeAlias) = utf8 f.nodeAlias ∧
        (bracketed f.ssrHead).getD (latin1 f.server) = utf8 f.server ∧
        latin1 f.serverPort = utf8 f.serverPort ∧ latin1 f.protocol = utf8 f.protocol ∧
        latin1 f.encryptMethod = utf8 f.encryptMethod ∧ latin1 f.obfs = utf8 f.obfs ∧
        stripNul (latin1 f.password) = utf8 f.password ∧
        stripNul (latin1 f.obfsParam) = utf8 f.obfsParam ∧
        stripNul (latin1 f.protocolParam) = utf8 f.protocolParam) ↔ SsrKept f := by
  simp only [stripNul_latin1_iff]
  constructor
  · rintro ⟨halias, hserver, hport, hprotocol, hmethod, hobfs, hpassword, hobfsParam, hprotocolParam⟩
    have hfields : ∀ s ∈ f.ssrFields, IsAscii s := by
      simp only [Form.ssrFields, List.forall_mem_cons]
      exact ⟨isAscii_of_latin1 hport, isAscii_of_latin1 hprotocol, isAscii_of_latin1 hmethod,
        isAscii_of_latin1 hobfs, fun s hs ↦ absurd hs List.not_mem_nil⟩
    have hascii := h.isAscii_server hfields hserver
    refine ⟨?_, h.cut, h.colon, halias ▸ zero_not_mem_stripNul _, ?_⟩
    · simp only [List.forall_mem_cons]
      refine ⟨⟨hascii, h.zero _ List.mem_cons_self⟩, hpassword, hobfsParam, hprotocolParam, ?_⟩
      exact fun s hs ↦ ⟨hfields s hs, h.zero s (List.mem_cons_of_mem _ hs)⟩
    · rw [utf8_of_isAscii hascii] at hserver ⊢
      exact hserver
  · intro hkept
    have hcodes := hkept.codes
    simp only [Form.ssrFields, List.forall_mem_cons] at hcodes
    obtain ⟨hserver, hpassword, hobfsParam, hprotocolParam, hport, hprotocol, hmethod, hobfs, -⟩ :=
      hcodes
    have hbrackets := hkept.brackets
    rw [utf8_of_isAscii hserver.1] at hbrackets ⊢
    exact ⟨stripNul_eq_self hkept.nodeAlias, hbrackets, (utf8_of_isAscii hport.1).symm,
      (utf8_of_isAscii hprotocol.1).symm, (utf8_of_isAscii hmethod.1).symm,
      (utf8_of_isAscii hobfs.1).symm, hpassword, hobfsParam, hprotocolParam⟩

/-- What is kept leaves a clean link. -/
theorem SsrKept.clean {f : Form} (h : SsrKept f) : SsrClean f := by
  have hascii : ∀ {s : Text}, IsAscii s → ∀ c ∈ s, c.toNat < 256 := fun hs c hc ↦
    (hs c hc).trans (by decide)
  refine ⟨fun s hs ↦ hascii (h.codes s hs).1, fun s hs ↦ (h.codes s ?_).2, h.cut, h.colon⟩
  rw [List.mem_cons] at hs ⊢
  exact hs.imp id fun hs ↦ by simp [hs]

/-- An `ssr` node comes back from its link if and only if its characters are below 128 and none of its
fields is taken for a mark of the link. -/
theorem roundTrips_ssr_iff {env : Env} (h64 : Decodes64 env.b64decode) {f : Form}
    (htype : f.type = .ssr) (hfill : Filled f) : RoundTrips env f ↔ SsrKept f := by
  by_cases hcodes : SsrCodes f
  swap
  · refine iff_of_false ?_ fun h ↦ hcodes h.clean.codes
    rintro ⟨link, result, hlink, -⟩
    unfold buildUrl at hlink
    rw [htype] at hlink
    obtain ⟨url, hurl, -⟩ := Option.bind_eq_some_iff.mp hlink
    exact hcodes (ssrUrl_eq_some_iff.mp hurl).1
  have hurl : buildUrl f = some (text f.type.name ++ text "://" ++
      binary (safe (Base64.encode (latin1 f.ssrText)))) := by
    unfold buildUrl
    rw [htype]
    show Option.bind f.ssrUrl _ = _
    rw [ssrUrl_eq_some_iff.mpr ⟨hcodes, rfl⟩]
    rfl
  have hcontent : content env f.type (utf8 (binary (safe (Base64.encode (latin1 f.ssrText))))) =
      stripNul (latin1 f.ssrText) := by
    unfold content
    rw [utf8_binary_safe, stripNul_eq_self (zero_not_mem_safe _),
      Search.before_of_not_infix (not_link_of_not_mem (not_mem_safe (by decide) _)), htype]
    exact base64Decode_safe h64 _
  have hne : stripNul (utf8 (binary (safe (Base64.encode (latin1 f.ssrText))))) ≠ [] := by
    rw [utf8_binary_safe, stripNul_eq_self (zero_not_mem_safe _)]
    apply safe_ne_nil
    rw [latin1_ssrText]
    simp [ascii]
  have hlast : ∀ c ∈ (utf8 (binary (safe (Base64.encode (latin1 f.ssrText))))).getLast?,
      isSpace c = false := by
    intro c hc
    rw [utf8_binary_safe] at hc
    cases hspace : isSpace c with
    | false => rfl
    | true =>
      refine absurd (List.mem_of_getLast? hc) (not_mem_safe ?_ _)
      obtain rfl | rfl | rfl | rfl | rfl | rfl := cases_of_isSpace hspace <;> decide
  have hparse : ∀ c t, parseText env (ascii f.type.name) c (start f.type) = .ok (some t) ↔
      ssrNode env c (start .ssr) = .ok t := by
    intro c t
    rw [htype]
    exact some_map_eq_ok
  rw [roundTrips_iff hurl hne hlast]
  · simp only [hparse, hcontent]
    constructor
    · rintro ⟨t, ht, hfields⟩
      have hclean := ssrClean_of_fields hcodes htype ht hfields
      rw [stripNul_eq_self hclean.zero_text] at ht
      exact hclean.kept_iff.mp ((hclean.fields_iff h64 htype hfill).mp ⟨t, ht, hfields⟩)
    · intro hkept
      have hclean := hkept.clean
      rw [stripNul_eq_self hclean.zero_text]
      exact (hclean.fields_iff h64 htype hfill).mpr (hclean.kept_iff.mpr hkept)
  · intro t ht
    obtain ⟨head, params, -, -, rfl⟩ := ssrNode_eq_ok.mp ((hparse _ t).mp ht)
    unfold ssrTable
    rw [Table.get_set_self]
    rfl

end OpenWrtCompile.Subscribe
