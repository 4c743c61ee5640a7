import OpenWrtCompile.Subscribe.RoundTrip.Ssr

/-!
# The round trip of an `ss` link

An `ss` link of `buildUrl` (`url.htm:99–125`) has method and password as base64 text of the codes of
their characters, and the plugin in the encoding of `encodeURI`, its options even twice, while the script
decodes once and cuts the plugin at the marks that `encodeURI` leaves.
-/

namespace OpenWrtCompile.Subscribe
open OpenWrtCompile.Base

/-- Method and password as they stand in an `ss` link. -/
def Form.ssUser (f : Form) : Bytes :=
  safe (Base64.encode (latin1 (f.encryptMethodSs ++ text ":" ++ f.password)))

/-- The bytes of the plugin before `encodeURI`. -/
def Form.pluginBytes (f : Form) : Bytes :=
  utf8 f.plugin ++
    if f.pluginOpts = [] then [] else escapeBytes isKept (0x3B :: utf8 f.pluginOpts)

/-- The parameters of an `ss` link. -/
def Form.pluginItems (f : Form) : List Item :=
  if f.plugin = [] then []
  else
    [(text "plugin", encodeURI (f.plugin ++
      if f.pluginOpts = [] then [] else encodeURI (text ";" ++ f.pluginOpts)))]

/-- They are the ones that `buildUrl` joins. -/
theorem pluginParam_eq (f : Form) : f.pluginParam = joined f.pluginItems := by
  unfold Form.pluginParam Form.pluginItems
  split
  · rfl
  · simp [joined, text]

/-- The value of the plugin. -/
theorem utf8_plugin (f : Form) :
    utf8 (encodeURI (f.plugin ++
      if f.pluginOpts = [] then [] else encodeURI (text ";" ++ f.pluginOpts))) =
        escapeBytes isKept f.pluginBytes := by
  rw [utf8_encodeURI, utf8_append]
  unfold Form.pluginBytes
  split
  · rfl
  · rw [utf8_encodeURI, utf8_append]
    rfl

/-- The query of an `ss` link. -/
theorem queryBytes_pluginItems (f : Form) :
    queryBytes f.pluginItems =
      if f.plugin = [] then [] else ascii "plugin=" ++ escapeBytes isKept f.pluginBytes := by
  unfold queryBytes Form.pluginItems
  split
  · rfl
  · rw [List.map_singleton, List.intercalate_singleton, Item.bytes, utf8_plugin]
    rfl

/-- An `ss` link before its alias. -/
def Form.ssBytes (f : Form) : Bytes :=
  f.ssUser ++ 0x40 :: (f.hostPort ++ 0x2F :: 0x3F :: queryBytes f.pluginItems)

/-- Every code that an `ss` link has of its fields is below 256. -/
def SsCodes (f : Form) : Prop :=
  ∀ s ∈ [f.encryptMethodSs, f.password], ∀ c ∈ s, c.toNat < 256

/-- `btoa` takes method and password where all codes are below 256. -/
theorem ssUrl_eq_some_iff {f : Form} {url : Text} :
    f.ssUrl = some url ↔ SsCodes f ∧ url = binary f.ssUser ++ text "@" ++ f.address ++ text ":" ++
      f.serverPort ++ text "/?" ++ f.withAlias f.pluginParam := by
  have hcolon : ∀ c ∈ text ":", c.toNat < 256 := codes_of_all (by decide)
  unfold Form.ssUrl SsCodes Form.ssUser
  simp only [bind, Option.bind_eq_some_iff, b64encsafe_eq_some_iff, List.forall_mem_append,
    iff_true_intro hcolon, and_true, List.forall_mem_cons, List.not_mem_nil, false_imp_iff,
    implies_true]
  constructor
  · rintro ⟨user, ⟨hcodes, rfl⟩, hurl⟩
    exact ⟨hcodes, (Option.some.inj hurl).symm⟩
  · rintro ⟨hcodes, rfl⟩
    exact ⟨_, ⟨hcodes, rfl⟩, rfl⟩

/-- The bytes of an `ss` link. -/
theorem utf8_ssUrl (f : Form) :
    utf8 (binary f.ssUser ++ text "@" ++ f.address ++ text ":" ++ f.serverPort ++ text "/?" ++
      f.withAlias f.pluginParam) =
        f.ssBytes ++ 0x23 :: escapeBytes isKept (utf8 f.nodeAlias) := by
  have hat : utf8 (text "@") = [0x40] := rfl
  have hcolon : utf8 (text ":") = [0x3A] := rfl
  have hquery : utf8 (text "/?") = [0x2F, 0x3F] := rfl
  have huser : utf8 (binary f.ssUser) = f.ssUser := utf8_binary (below128_safe (below128_encode _))
  unfold Form.ssBytes Form.hostPort
  rw [pluginParam_eq]
  simp only [utf8_append, utf8_withAlias, huser, hat, hcolon, hquery, List.append_assoc,
    List.cons_append, List.nil_append]

/-! ### What stands in the way -/

/-- The marks at which the link is cut in its plugin. -/
def pluginMarks : List Bytes := [ascii "#", ascii "&", ascii "=", ascii "/?", ascii "://"]

/-- What stands in the way of the round trip of a plugin: it has no mark and no `+`, its options are left
by `encodeURI`, and the script neither cuts nor renames its name. -/
structure PluginKept (f : Form) : Prop where
  marks : ∀ s ∈ [f.plugin, f.pluginOpts], ∀ m ∈ pluginMarks, ¬ m <:+: utf8 s
  plus : ∀ s ∈ [f.plugin, f.pluginOpts], 0x2B ∉ utf8 s
  opts : ∀ c ∈ utf8 f.pluginOpts, isKept c = true
  name : 0x3B ∉ utf8 f.plugin
  obfs : f.plugin ≠ text "simple-obfs"

/-- What stands in the way of the round trip of an `ss` node. -/
structure SsKept (f : Form) : Prop where
  user : ∀ s ∈ [f.encryptMethodSs, f.password], IsAscii s ∧ 0 ∉ utf8 s
  method : 0x3A ∉ utf8 f.encryptMethodSs
  host : HostKept f [0, 0x23, 0x40]
  slash : ∀ s ∈ [f.server, f.serverPort], ¬ ascii "/?" <:+: utf8 s
  cut : ¬ ascii "://" <:+: f.hostPort ++ [0x2F]
  nodeAlias : AliasKept f
  plugin : f.plugin ≠ [] → PluginKept f

/-! ### The plugin -/

/-- The name of a plugin, which stands before its options. -/
def pluginName (info : Bytes) : Bytes := (cut 0x3B info).elim info Prod.fst

/-- The name that the script keeps. -/
def renamed (name : Bytes) : Bytes :=
  if name = ascii "simple-obfs" then ascii "obfs-local" else name

/-- The fields of the plugin as they are read of its value. -/
theorem get_setPlugin {params result : Table} {v : Bytes} (hv : params.get "plugin" = .str v)
    (hopts : result.get "plugin_opts" = .nil) :
    (setPlugin params result).get "plugin" = .str (renamed (pluginName (urlDecode v))) ∧
      (setPlugin params result).get "plugin_opts" =
        .ofOption ((cut 0x3B (urlDecode v)).map Prod.snd) := by
  unfold setPlugin
  rw [hv]
  cases hcut : cut 0x3B (urlDecode v) with
  | none =>
    have hname : pluginName (urlDecode v) = urlDecode v := by
      unfold pluginName
      rw [hcut, Option.elim_none]
    rw [hname]
    simp only [hcut, Table.get_set_self, Value.eqStr, decide_eq_true_eq, Option.map_none]
    split
    · next h =>
      have hrenamed : renamed (urlDecode v) = ascii "obfs-local" := if_pos h
      simp (disch := decide) only [hrenamed, Table.get_set_ne, Table.get_set_self, hopts]
      exact ⟨trivial, rfl⟩
    · next h =>
      have hrenamed : renamed (urlDecode v) = urlDecode v := if_neg h
      simp (disch := decide) only [hrenamed, Table.get_set_ne, Table.get_set_self, hopts]
      exact ⟨trivial, rfl⟩
  | some p =>
    have hname : pluginName (urlDecode v) = p.1 := by
      unfold pluginName
      rw [hcut, Option.elim_some]
    have hplugin : (((result.set "plugin" (.str p.1)).set "plugin_opts" (.str p.2)).get "plugin") =
        .str p.1 := by
      simp (disch := decide) only [Table.get_set_ne, Table.get_set_self]
    rw [hname]
    simp only [hcut, hplugin, Value.eqStr, decide_eq_true_eq, Option.map_some]
    split
    · next h =>
      have hrenamed : renamed p.1 = ascii "obfs-local" := if_pos h
      simp (disch := decide) only [hrenamed, Table.get_set_ne, Table.get_set_self]
      exact ⟨trivial, rfl⟩
    · next h =>
      have hrenamed : renamed p.1 = p.1 := if_neg h
      simp only [hrenamed, hplugin, Table.get_set_self]
      exact ⟨trivial, rfl⟩

/-- A name that is kept and is not longer than before. -/
theorem renamed_eq_iff {name b : Bytes} (hle : name.length ≤ b.length) :
    renamed name = b ↔ name = b ∧ b ≠ ascii "simple-obfs" := by
  unfold renamed
  split
  · next h =>
    constructor
    · rintro rfl
      rw [h] at hle
      exact absurd hle (by decide)
    · rintro ⟨rfl, hne⟩
      exact absurd h hne
  · next h =>
    constructor
    · rintro rfl
      exact ⟨rfl, h⟩
    · exact fun h ↦ h.1

/-- What is read of the value of the plugin. -/
theorem urlDecode_pluginBytes (f : Form) :
    urlDecode (escapeBytes isKept f.pluginBytes) = gsubByte 0x2B 0x20 (utf8 f.plugin) ++
      if f.pluginOpts = [] then []
      else 0x3B :: gsubByte 0x2B 0x20 (escapeBytes isKept (utf8 f.pluginOpts)) := by
  have happend : ∀ a b : Bytes,
      gsubByte 0x2B 0x20 (a ++ b) = gsubByte 0x2B 0x20 a ++ gsubByte 0x2B 0x20 b :=
    fun a b ↦ List.map_append
  rw [urlDecode_kept]
  unfold Form.pluginBytes
  rw [happend]
  congr 1
  split
  · rfl
  · rw [escapeBytes_cons, if_pos (by decide), happend]
    rfl

/-- The semicolons of a text whose `+` is replaced. -/
theorem semicolon_mem_gsubByte {b : Bytes} : 0x3B ∈ gsubByte 0x2B 0x20 b ↔ 0x3B ∈ b := by
  unfold gsubByte
  rw [List.mem_map]
  constructor
  · rintro ⟨c, hc, heq⟩
    split at heq
    · exact absurd heq (by decide)
    · exact heq ▸ hc
  · exact fun h ↦ ⟨0x3B, h, if_neg (by decide)⟩

/-- The name and the options come out of the value if and only if there is nothing in them that is read in
another way. -/
theorem plugin_iff (f : Form) :
    (renamed (pluginName (urlDecode (escapeBytes isKept f.pluginBytes))) = utf8 f.plugin ∧
        (f.pluginOpts ≠ [] → (cut 0x3B (urlDecode (escapeBytes isKept f.pluginBytes))).map Prod.snd =
          some (utf8 f.pluginOpts))) ↔
      (∀ s ∈ [f.plugin, f.pluginOpts], 0x2B ∉ utf8 s) ∧ (∀ c ∈ utf8 f.pluginOpts, isKept c = true) ∧
        0x3B ∉ utf8 f.plugin ∧ f.plugin ≠ text "simple-obfs" := by
  have hobfs : utf8 f.plugin ≠ ascii "simple-obfs" ↔ f.plugin ≠ text "simple-obfs" :=
    not_congr (utf8_inj (t := text "simple-obfs"))
  have hlen : (gsubByte 0x2B 0x20 (utf8 f.plugin)).length = (utf8 f.plugin).length :=
    List.length_map _
  rw [urlDecode_pluginBytes, List.forall_mem_cons, List.forall_mem_singleton, ← hobfs]
  by_cases hsemi : 0x3B ∈ utf8 f.plugin
  · -- the name ends at the first semicolon
    refine iff_of_false ?_ fun h ↦ h.2.2.1 hsemi
    rintro ⟨hname, -⟩
    obtain ⟨a, r, heq, ha⟩ := List.eq_append_cons_of_mem (semicolon_mem_gsubByte.mpr hsemi)
    have hcut : pluginName (gsubByte 0x2B 0x20 (utf8 f.plugin) ++
        if f.pluginOpts = [] then []
        else 0x3B :: gsubByte 0x2B 0x20 (escapeBytes isKept (utf8 f.pluginOpts))) = a := by
      unfold pluginName
      rw [heq, List.append_assoc, List.cons_append, cut_append _ ha]
      rfl
    have hlt : a.length < (utf8 f.plugin).length := by
      rw [← hlen, heq, List.length_append, List.length_cons]
      omega
    rw [hcut, renamed_eq_iff hlt.le] at hname
    rw [hname.1] at hlt
    exact Nat.lt_irrefl _ hlt
  · have hfree := mt semicolon_mem_gsubByte.mp hsemi
    by_cases hopts : f.pluginOpts = []
    · have hname : pluginName (gsubByte 0x2B 0x20 (utf8 f.plugin) ++ []) =
          gsubByte 0x2B 0x20 (utf8 f.plugin) := by
        unfold pluginName
        rw [List.append_nil, cut_of_not_mem hfree, Option.elim_none]
      rw [if_pos hopts, hname, renamed_eq_iff hlen.le, gsubByte_eq_self_iff (by decide), hopts]
      simp [hsemi]
    · have hcut : cut 0x3B (gsubByte 0x2B 0x20 (utf8 f.plugin) ++
          0x3B :: gsubByte 0x2B 0x20 (escapeBytes isKept (utf8 f.pluginOpts))) =
            some (gsubByte 0x2B 0x20 (utf8 f.plugin),
              gsubByte 0x2B 0x20 (escapeBytes isKept (utf8 f.pluginOpts))) := cut_append _ hfree
      have hself : gsubByte 0x2B 0x20 (escapeBytes isKept (utf8 f.pluginOpts)) =
          utf8 f.pluginOpts ↔
            0x2B ∉ utf8 f.pluginOpts ∧ ∀ c ∈ utf8 f.pluginOpts, isKept c = true := by
        constructor
        · intro h
          have hsame := congrArg List.length h
          rw [gsubByte, List.length_map] at hsame
          have hkept := kept_of_length_escapeBytes hsame
          rw [escapeBytes_of_kept hkept] at h
          exact ⟨(gsubByte_eq_self_iff (by decide)).mp h, hkept⟩
        · rintro ⟨hplus, hkept⟩
          rw [escapeBytes_of_kept hkept]
          exact (gsubByte_eq_self_iff (by decide)).mpr hplus
      unfold pluginName
      rw [if_neg hopts, hcut, Option.elim_some, Option.map_some, renamed_eq_iff hlen.le,
        gsubByte_eq_self_iff (by decide), Option.some_inj, hself]
      tauto

/-! ### A clean link -/

/-- The bytes of a mark are left by `encodeURI` and stand in no escape. -/
theorem plain_pluginMarks : ∀ m ∈ pluginMarks, m ≠ [] ∧ 0x3B ∉ m ∧ ∀ c ∈ m, Plain isKept c := by
  unfold pluginMarks Plain
  simp only [List.forall_mem_cons, List.not_mem_nil, false_imp_iff, implies_true, and_true]
  exact ⟨⟨by decide, by decide, forall_mem_of_all (by decide)⟩,
    ⟨by decide, by decide, forall_mem_of_all (by decide)⟩,
    ⟨by decide, by decide, forall_mem_of_all (by decide)⟩,
    ⟨by decide, by decide, forall_mem_of_all (by decide)⟩,
    by decide, by decide, forall_mem_of_all (by decide)⟩

/-- The marks in the value of the plugin. -/
theorem mark_pluginBytes (f : Form) {m : Bytes} (hm : m ∈ pluginMarks) :
    m <:+: escapeBytes isKept f.pluginBytes ↔ m <:+: utf8 f.plugin ∨ m <:+: utf8 f.pluginOpts := by
  obtain ⟨hne, hsemi, hplain⟩ := plain_pluginMarks m hm
  rw [infix_escapeBytes hne hplain]
  unfold Form.pluginBytes
  by_cases hopts : f.pluginOpts = []
  · have hnil : ¬ m <:+: [] := fun h ↦ hne (List.infix_nil.mp h)
    rw [if_pos hopts, List.append_nil, hopts]
    exact (or_iff_left hnil).symm
  · rw [if_neg hopts, escapeBytes_cons, if_pos (by decide), List.singleton_append,
      Search.infix_append_cons hsemi, infix_escapeBytes hne hplain]

/-- The marks stand in the link only where it has them. -/
structure SsClean (f : Form) : Prop where
  host : ∀ c ∈ [(0 : UInt8), 0x23, 0x40], c ∉ f.hostPort
  slash : ¬ ascii "/?" <:+: f.hostPort
  port : 0x3A ∉ utf8 f.serverPort
  plugin : f.plugin ≠ [] → ∀ m ∈ pluginMarks, ¬ m <:+: escapeBytes isKept f.pluginBytes

/-- Method and password hold none of the marks, as base64 text. -/
theorem not_mem_ssUser {c : UInt8} (hc : c ∈ [(0 : UInt8), 0x23, 0x40, 0x2F, 0x3F, 0x3A]) (f : Form) :
    c ∉ f.ssUser := by
  refine not_mem_safe ?_ _
  simp only [List.mem_cons, List.not_mem_nil, or_false] at hc
  obtain rfl | rfl | rfl | rfl | rfl | rfl := hc <;> decide

/-- No zero byte is in the query. -/
theorem zero_not_mem_query (f : Form) : 0 ∉ queryBytes f.pluginItems := by
  rw [queryBytes_pluginItems]
  split
  · exact List.not_mem_nil
  · rw [List.mem_append, not_or]
    exact ⟨by decide, zero_not_mem_escapeBytes _⟩

namespace SsClean

variable {f : Form} (h : SsClean f)
include h

/-- A byte that is a mark is not in the query. -/
theorem not_mem_query {c : UInt8} (hc : c ∈ [(0 : UInt8), 0x23]) : c ∉ queryBytes f.pluginItems := by
  simp only [List.mem_cons, List.not_mem_nil, or_false] at hc
  obtain rfl | rfl := hc
  · exact zero_not_mem_query f
  · rw [queryBytes_pluginItems]
    split
    · exact List.not_mem_nil
    · next hplugin =>
      have hmarks := h.plugin hplugin (ascii "#") (by decide)
      rw [List.mem_append, not_or]
      exact ⟨by decide, fun hmem ↦ hmarks ((List.singleton_infix_iff _ _).mpr hmem)⟩

/-- The query is not cut. -/
theorem cut_query : ¬ ascii "/?" <:+: queryBytes f.pluginItems ∧
    ¬ ascii "://" <:+: queryBytes f.pluginItems := by
  have hform : ∀ b : Bytes, ascii "plugin=" ++ b = ascii "plugin" ++ 0x3D :: b := fun b ↦ rfl
  rw [queryBytes_pluginItems]
  split
  · exact ⟨by decide, by decide⟩
  · next hplugin =>
    rw [hform, Search.infix_append_cons (by decide), Search.infix_append_cons (by decide)]
    exact ⟨not_or.mpr ⟨by decide, h.plugin hplugin _ (by decide)⟩,
      not_or.mpr ⟨by decide, h.plugin hplugin _ (by decide)⟩⟩

/-- The parameter of the plugin is readable. -/
theorem readable_items : ∀ p ∈ f.pluginItems, p.Readable := by
  unfold Form.pluginItems
  split
  · exact fun p hp ↦ absurd hp List.not_mem_nil
  · next hplugin =>
    have hkey : utf8 (text "plugin") ≠ [] ∧ ∀ c ∈ [(0 : UInt8), 0x26, 0x3D], c ∉ utf8 (text "plugin") :=
      ⟨by decide, forall_mem_of_all (by decide)⟩
    intro p hp
    rw [List.mem_singleton.mp hp]
    refine ⟨hkey, ?_, ?_⟩
    · rw [utf8_plugin, ne_eq, escapeBytes_eq_nil]
      unfold Form.pluginBytes
      rw [List.append_eq_nil_iff, utf8_eq_nil]
      exact fun hnil ↦ hplugin hnil.1
    · intro c hc
      rw [utf8_plugin]
      simp only [List.mem_cons, List.not_mem_nil, or_false] at hc
      obtain rfl | rfl | rfl := hc
      · exact zero_not_mem_escapeBytes _
      · exact fun hmem ↦ h.plugin hplugin (ascii "&") (by decide)
          ((List.singleton_infix_iff _ _).mpr hmem)
      · exact fun hmem ↦ h.plugin hplugin (ascii "=") (by decide)
          ((List.singleton_infix_iff _ _).mpr hmem)

/-- No zero byte and no `#` stands before the alias. -/
theorem not_mem_bytes {c : UInt8} (hc : c ∈ [(0 : UInt8), 0x23]) : c ∉ f.ssBytes := by
  have hquery := h.not_mem_query hc
  have hother : c ∉ f.ssUser ∧ c ∉ f.hostPort ∧ c ≠ 0x40 ∧ c ≠ 0x2F ∧ c ≠ 0x3F := by
    simp only [List.mem_cons, List.not_mem_nil, or_false] at hc
    obtain rfl | rfl := hc
    · exact ⟨not_mem_ssUser (by decide) f, h.host 0 (by decide), by decide, by decide, by decide⟩
    · exact ⟨not_mem_ssUser (by decide) f, h.host 0x23 (by decide), by decide, by decide, by decide⟩
  unfold Form.ssBytes
  simp only [List.mem_append, List.mem_cons, not_or]
  exact ⟨hother.1, hother.2.2.1, hother.2.1, hother.2.2.2.1, hother.2.2.2.2, hquery⟩

end SsClean

/-- The table that the importer reads from a clean link with this method and password. -/
def ssTable (f : Form) (method password remark : Bytes) : Table :=
  let result := setPlugin (readItems id id f.pluginItems) (start .ss)
  let result := (result.set "server_port" (.str (utf8 f.serverPort))).set
    "server" (.str ((bracketed f.hostPort).getD (utf8 f.server)))
  ((result.set "encrypt_method_ss" (.str method)).set "password" (.str password)).set
    "alias" (.str (urlDecode remark))

/-- The link is not cut at `/?` before its query. -/
theorem uncut_head {f : Form} (hslash : ¬ ascii "/?" <:+: f.hostPort) :
    ¬ ascii "/?" <:+: (f.ssUser ++ 0x40 :: f.hostPort) ++ (ascii "/?").dropLast := by
  have huser : ¬ ascii "/?" <:+: f.ssUser :=
    fun hin ↦ not_mem_ssUser (by decide) f (hin.subset (by decide : (0x2F : UInt8) ∈ ascii "/?"))
  have hend : ¬ ascii "/?" <:+: f.hostPort ++ [0x2F] := by
    rintro ⟨x, y, hxy⟩
    obtain rfl | ⟨y, d, rfl⟩ := y.eq_nil_or_concat
    · have hlast : (x ++ [0x2F]) ++ [0x3F] = f.hostPort ++ [0x2F] := by
        simpa [ascii] using hxy
      exact absurd (List.append_inj' hlast rfl).2 (by decide)
    · have hlast : (x ++ ascii "/?" ++ y) ++ [d] = f.hostPort ++ [0x2F] := by
        simpa using hxy
      exact hslash ⟨x, y, (List.append_inj' hlast rfl).1⟩
  show ¬ ascii "/?" <:+: (f.ssUser ++ 0x40 :: f.hostPort) ++ [0x2F]
  rw [List.append_assoc, List.cons_append, Search.infix_append_cons (by decide)]
  exact not_or.mpr ⟨huser, hend⟩

/-- An `ss` link is its head, `/?` and its query. -/
theorem ssBytes_eq (f : Form) :
    f.ssBytes = (f.ssUser ++ 0x40 :: f.hostPort) ++ ascii "/?" ++ queryBytes f.pluginItems := by
  unfold Form.ssBytes
  simp [ascii]

/-- What the script finds before the plugin of a clean link, and the plugin. -/
theorem SsClean.ssQuery_eq {f : Form} (h : SsClean f) :
    ssQuery f.ssBytes (start .ss) = .ok (f.ssUser ++ 0x40 :: f.hostPort,
      setPlugin (readItems id id f.pluginItems) (start .ss)) := by
  have hform := ssBytes_eq f
  have hfirst := uncut_head h.slash
  have hsplit : (split (some f.ssBytes) (ascii "/?"))[1]? =
      someUnlessNil (queryBytes f.pluginItems) := by
    show (Search.split (ascii "/?") (stripNul f.ssBytes))[1]? = _
    rw [stripNul_eq_self (h.not_mem_bytes (by decide)), hform, Search.split_append_sep _ hfirst,
      List.getElem?_cons_succ]
    unfold someUnlessNil
    split
    · next hnil =>
      rw [hnil]
      rfl
    · next hnil =>
      rw [Search.split_of_not_infix (by decide) hnil h.cut_query.1]
      rfl
  have hfind : Search.find? (ascii "/?") f.ssBytes = some (f.ssUser ++ 0x40 :: f.hostPort).length := by
    rw [hform]
    exact Search.find?_append_sep _ hfirst
  have htake : f.ssBytes.take (f.ssUser ++ 0x40 :: f.hostPort).length =
      f.ssUser ++ 0x40 :: f.hostPort := by
    rw [hform, List.append_assoc, List.take_left]
  unfold ssQuery
  rw [hfind]
  simp only
  rw [hsplit, readParams_someUnlessNil id id h.readable_items, htake]
  rfl

/-- What the importer reads of a clean link. -/
theorem ssNode_eq {env : Env} (h64 : Decodes64 env.b64decode) {f : Form} (h : SsClean f)
    (hport : utf8 f.serverPort ≠ []) (remark : Bytes) {method password : Bytes}
    (hcut : cut 0x3A (stripNul (latin1 (f.encryptMethodSs ++ text ":" ++ f.password))) =
      some (method, password)) :
    ssNode env (f.ssBytes ++ 0x23 :: remark) (start .ss) = .ok (ssTable f method password remark) := by
  have hzero : 0 ∉ f.ssUser ++ 0x40 :: f.hostPort := by
    rw [List.mem_append, List.mem_cons, not_or, not_or]
    exact ⟨not_mem_ssUser (by decide) f, by decide, h.host 0 (by decide)⟩
  have hhost : f.hostPort ≠ [] := by
    unfold Form.hostPort
    simp
  have hinfo : split (some (base64Decode env (some (f.ssUser ++ 0x40 :: f.hostPort)))) (ascii "@") =
      [f.ssUser, f.hostPort] := by
    rw [base64Decode_of_at h64 (by simp)]
    show Search.split [0x40] (stripNul _) = _
    rw [stripNul_eq_self hzero, Search.split_cons_of_not_mem _ (not_mem_ssUser (by decide) f),
      Search.split_singleton_of_not_mem hhost (h.host 0x40 (by decide))]
  have huser : ssUserinfo env [f.ssUser, f.hostPort] =
      stripNul (latin1 (f.encryptMethodSs ++ text ":" ++ f.password)) := base64Decode_safe h64 _
  unfold ssNode
  rw [splitAlias_append remark (h.not_mem_bytes (by decide))]
  simp only
  rw [h.ssQuery_eq]
  simp only [bind, Except.bind]
  unfold ssHost
  simp only
  rw [hinfo, huser, hcut]
  simp only [List.getLast?_cons_cons, List.getLast?_singleton]
  rw [authority_hostPort (h.host 0 (by decide)) h.port hport]
  rfl

/-! ### The fields of a clean link -/

/-- Method and password without zero bytes, as they are decoded. -/
theorem stripNul_ssText (f : Form) :
    stripNul (latin1 (f.encryptMethodSs ++ text ":" ++ f.password)) =
      stripNul (latin1 f.encryptMethodSs) ++ 0x3A :: stripNul (latin1 f.password) := by
  rw [latin1_append, latin1_append, stripNul_append, stripNul_append, List.append_assoc]
  rfl

/-- A text that is stripped of its zero bytes is not longer than its encoding. -/
theorem length_stripNul_latin1 (s : Text) : (stripNul (latin1 s)).length ≤ (utf8 s).length := by
  have hle : (stripNul (latin1 s)).length ≤ s.length :=
    (List.length_filter_le _ _).trans (Nat.le_of_eq (List.length_map _))
  exact hle.trans (length_le_utf8 s)

/-- Method and password come out if and only if their characters are below 128 and not zero, and the
method has no `:`. -/
theorem ssUser_iff {f : Form} {method password : Bytes}
    (hcut : cut 0x3A (stripNul (latin1 (f.encryptMethodSs ++ text ":" ++ f.password))) =
      some (method, password)) :
    method = utf8 f.encryptMethodSs ∧ password = utf8 f.password ↔
      (∀ s ∈ [f.encryptMethodSs, f.password], IsAscii s ∧ 0 ∉ utf8 s) ∧
        0x3A ∉ utf8 f.encryptMethodSs := by
  rw [stripNul_ssText] at hcut
  rw [List.forall_mem_cons, List.forall_mem_singleton, ← stripNul_latin1_iff, ← stripNul_latin1_iff]
  constructor
  · rintro ⟨rfl, rfl⟩
    obtain ⟨heq, hcolon⟩ := cut_eq_some_iff.mp hcut
    have hmethod := length_stripNul_latin1 f.encryptMethodSs
    have hpassword := length_stripNul_latin1 f.password
    have hlen := congrArg List.length heq
    simp only [List.length_append, List.length_cons] at hlen
    -- neither text is longer than it was
    obtain ⟨hfront, hback⟩ := List.append_inj heq (by omega)
    exact ⟨⟨hfront, (List.cons.inj hback).2⟩, hcolon⟩
  · rintro ⟨⟨hmethod, hpassword⟩, hcolon⟩
    rw [hmethod, hpassword, cut_append _ hcolon] at hcut
    obtain ⟨rfl, rfl⟩ := Prod.mk.inj (Option.some.inj hcut)
    exact ⟨rfl, rfl⟩

/-- The value of the plugin as it is read. -/
theorem get_pluginItems {f : Form} (hplugin : f.plugin ≠ []) :
    (readItems id id f.pluginItems).get "plugin" = .str (escapeBytes isKept f.pluginBytes) := by
  unfold Form.pluginItems Table.get
  rw [at_readItems, if_neg hplugin, lastValue, List.foldl_cons, List.foldl_nil, utf8_plugin]
  exact if_pos rfl

/-- The exported fields that come out. -/
theorem ssTable_iff {f : Form} (htype : f.type = .ss) (method password remark : Bytes) :
    (∀ p ∈ exported f, (ssTable f method password remark).get p.1 = p.2) ↔
      urlDecode remark = utf8 f.nodeAlias ∧
        (bracketed f.hostPort).getD (utf8 f.server) = utf8 f.server ∧
        (method = utf8 f.encryptMethodSs ∧ password = utf8 f.password) ∧
        (f.plugin ≠ [] →
          renamed (pluginName (urlDecode (escapeBytes isKept f.pluginBytes))) = utf8 f.plugin ∧
            (f.pluginOpts ≠ [] →
              (cut 0x3B (urlDecode (escapeBytes isKept f.pluginBytes))).map Prod.snd =
                some (utf8 f.pluginOpts))) := by
  unfold ssTable exported
  rw [htype]
  simp only [List.cons_append, List.nil_append, List.forall_mem_cons, field]
  simp (disch := decide) only [Table.get_set_ne, Table.get_set_self, Value.str.injEq, true_and]
  by_cases hplugin : f.plugin = []
  · simp only [hplugin, ↓reduceIte, List.not_mem_nil, false_imp_iff, implies_true, and_true, ne_eq,
      not_true_eq_false]
  · obtain ⟨hname, hopts⟩ := get_setPlugin (get_pluginItems hplugin)
      (get_start .ss "plugin_opts" (by decide))
    unfold fieldUnlessEmpty
    by_cases hnone : f.pluginOpts = []
    · simp only [hplugin, hnone, ↓reduceIte, List.forall_mem_cons, List.not_mem_nil, false_imp_iff,
        implies_true, and_true, ne_eq, not_false_eq_true, not_true_eq_false, true_imp_iff]
      simp (disch := decide) only [Table.get_set_ne, hname, Value.str.injEq]
      tauto
    · simp only [hplugin, hnone, ↓reduceIte, List.forall_mem_cons, List.not_mem_nil, false_imp_iff,
        implies_true, and_true, ne_eq, not_false_eq_true, true_imp_iff, field]
      simp (disch := decide) only [Table.get_set_ne, hname, hopts, Value.str.injEq, ofOption_eq_str]
      tauto

/-! ### Only a clean link -/

/-- The marks at which an `ss` link is cut in server and port. -/
def hostMarks : List Bytes := [[0], ascii "#", ascii "@", ascii "/?"]

/-- The part before the plugin is cut at `/?`. -/
theorem ssInfo_eq (c : Bytes) : ssInfo c = Search.before (ascii "/?") (splitAlias c).1 := by
  unfold ssInfo Search.before
  simp only
  cases Search.find? (ascii "/?") (splitAlias c).1 <;> rfl

/-- It starts the part before the alias. -/
theorem ssInfo_prefix (c : Bytes) : ssInfo c <+: (splitAlias c).1 ∧ ¬ ascii "/?" <:+: ssInfo c := by
  rw [ssInfo_eq]
  exact ⟨Search.before_start _ _, Search.not_infix_before (by decide)⟩

/-- The alias of any `ss` link with an `@`. -/
theorem ssNames_nodeAlias {env : Env} (h64 : Decodes64 env.b64decode) {c : Bytes}
    (hat : 0x40 ∈ ssInfo c) :
    (ssNames env c).nodeAlias = .str (urlDecode (splitAlias c).2) := by
  have hne : split (some (ssInfo c)) (ascii "@") ≠ [] := by
    rw [ne_eq, split_eq_nil_iff (by decide)]
    intro hnil
    have hmem : 0x40 ∈ stripNul (ssInfo c) := List.mem_filter.mpr ⟨hat, by decide⟩
    rw [hnil] at hmem
    cases hmem
  unfold ssNames ssHostInfo
  rw [base64Decode_of_at h64 hat, List.getLast?_eq_some_getLast hne]

/-- The server and the port of any `ss` link with an `@` are clean. -/
theorem ssNames_clean {env : Env} (h64 : Decodes64 env.b64decode) {c s p : Bytes} (hzero : 0 ∉ c)
    (hat : 0x40 ∈ ssInfo c) (hs : (ssNames env c).server = .str s)
    (hp : (ssNames env c).port = .str p) :
    (∀ m ∈ hostMarks, ¬ m <:+: s ∧ ¬ m <:+: p) ∧ 0x3A ∉ p := by
  obtain ⟨hinfo, hslash⟩ := ssInfo_prefix c
  obtain ⟨hhash, halias⟩ := splitAlias_fst c
  have hstrip : stripNul (ssInfo c) = ssInfo c :=
    stripNul_eq_self fun hmem ↦ hzero (halias.subset (hinfo.subset hmem))
  unfold ssNames ssHostInfo at hs hp
  rw [base64Decode_of_at h64 hat] at hs hp
  cases hlast : (split (some (ssInfo c)) (ascii "@")).getLast? with
  | none =>
    rw [hlast] at hs
    cases hs
  | some h =>
    rw [hlast] at hs hp
    have hpiece := List.mem_of_getLast? hlast
    have hin := infix_of_mem_split (by decide) hpiece
    rw [hstrip] at hin
    have hbyte : ∀ {x : UInt8}, [x] <:+: h → x ∈ ssInfo c := fun hx ↦
      hin.subset ((List.singleton_infix_iff _ _).mp hx)
    have hfree : ∀ m ∈ hostMarks, ¬ m <:+: h := by
      unfold hostMarks
      simp only [List.forall_mem_cons]
      refine ⟨fun hx ↦ hzero (halias.subset (hinfo.subset (hbyte hx))),
        fun hx ↦ hhash (hinfo.subset (hbyte hx)), Search.not_infix_of_mem_split (by decide) hpiece,
        fun hx ↦ hslash (hx.trans hin), fun m hm ↦ absurd hm List.not_mem_nil⟩
    have hdefault : ∀ m ∈ hostMarks, ¬ m <:+: ascii "1080" := by decide
    have hauth : authority (ascii "1080") h = (.str s, .str p) := Prod.ext hs hp
    have hnone : 0 ∉ h := fun hmem ↦ hfree [0] (by decide) ((List.singleton_infix_iff _ _).mpr hmem)
    obtain ⟨hserver, hport⟩ := authority_infix hnone hauth
    refine ⟨fun m hm ↦ ⟨fun hx ↦ hfree m hm (hx.trans hserver), fun hx ↦ ?_⟩,
      colon_not_mem_port (by decide) hauth⟩
    obtain rfl | hport := hport
    · exact hdefault m hm hx
    · exact hfree m hm (hx.trans hport)

/-- The end of the branch leaves the other fields. -/
theorem get_ssHost {env : Env} {info remark : Bytes} {result t : Table}
    (h : ssHost env info remark result = .ok t) {k : String}
    (hk : ∀ n ∈ ["server_port", "server", "encrypt_method_ss", "password", "alias"],
      ascii n ≠ ascii k) : t.get k = result.get k := by
  unfold ssHost at h
  simp only at h
  split at h
  · cases h
    rfl
  · split at h
    · cases h
    · cases h
      rw [Table.get_set_ne _ _ _ _ (hk _ (by decide)), Table.get_set_ne _ _ _ _ (hk _ (by decide)),
        Table.get_set_ne _ _ _ _ (hk _ (by decide)), Table.get_set_ne _ _ _ _ (hk _ (by decide)),
        Table.get_set_ne _ _ _ _ (hk _ (by decide))]

/-- The value of the plugin that is read of a start of the link is a part of the one that was written,
without marks. -/
theorem exists_plugin {f : Form} (hslash : ¬ ascii "/?" <:+: f.hostPort) {info rest : Bytes}
    {result : Table} (hzero : 0 ∉ info) (hinfo : info <+: f.ssBytes) (hhash : 0x23 ∉ info)
    (hlink : ¬ ascii "://" <:+: info) (hok : ssQuery info (start .ss) = .ok (rest, result))
    {name : Bytes} (hname : result.get "plugin" = .str name) (hplugin : f.plugin ≠ []) :
    ∃ v, (∀ m ∈ pluginMarks, ¬ m <:+: v) ∧ v <:+: escapeBytes isKept f.pluginBytes ∧
      name = renamed (pluginName (urlDecode v)) ∧
        result.get "plugin_opts" = .ofOption ((cut 0x3B (urlDecode v)).map Prod.snd) := by
  have hnil : (start .ss).get "plugin" = .nil := get_start .ss "plugin" (by decide)
  have hnilOpts : (start .ss).get "plugin_opts" = .nil := get_start .ss "plugin_opts" (by decide)
  unfold ssQuery at hok
  cases hfind : Search.find? (ascii "/?") info with
  | none =>
    rw [hfind] at hok
    cases hok
    rw [hnil] at hname
    cases hname
  | some i =>
    rw [hfind] at hok
    obtain ⟨params, hparams, heq⟩ := bind_eq_ok.mp hok
    cases heq
    cases hvalue : params.get "plugin" with
    | str v =>
      obtain ⟨hread, hopts⟩ := get_setPlugin hvalue hnilOpts
      rw [hread] at hname
      cases hname
      obtain ⟨p, hp, a, b, rfl, rfl, hpart, -, hequal⟩ := exists_of_at_readParams hparams hvalue
      cases hq : (split (some info) (ascii "/?"))[1]? with
      | none =>
        rw [hq] at hp
        cases hp
      | some q =>
        rw [hq] at hp
        have hquery : q ∈ split (some info) (ascii "/?") := List.mem_of_getElem? hq
        have hin := infix_of_mem_split (by decide) hquery
        have hpiece := infix_of_mem_split (by decide) hp
        rw [stripNul_eq_self hzero] at hin
        rw [stripNul_eq_self (zero_not_mem_of_mem_split (by decide) hquery)] at hpiece
        have hb : b <:+: p := (List.suffix_append (ascii "plugin=") b).isInfix.trans hpart.isInfix
        have hstart : q <+: queryBytes f.pluginItems := by
          apply Search.prefix_of_second_piece (uncut_head hslash) (ssBytes_eq f ▸ hinfo)
          rw [← hq]
          show _ = (Search.split (ascii "/?") (stripNul info))[1]?
          rw [stripNul_eq_self hzero]
        have hwhole : ascii "plugin=" ++ b <:+: ascii "plugin=" ++ escapeBytes isKept f.pluginBytes := by
          have hitems := queryBytes_pluginItems f
          rw [if_neg hplugin] at hitems
          rw [← hitems]
          exact hpart.isInfix.trans (hpiece.trans hstart.isInfix)
        refine ⟨b, ?_, Search.infix_of_append_infix hwhole, rfl, hopts⟩
        unfold pluginMarks
        simp only [List.forall_mem_cons]
        have hbyte : ∀ {x : UInt8}, [x] <:+: b → x ∈ b := (List.singleton_infix_iff _ _).mp
        exact ⟨fun hx ↦ hhash ((hb.trans (hpiece.trans hin)).subset (hbyte hx)),
          fun hx ↦ Search.not_infix_of_mem_split (by decide) hp (hx.trans hb),
          fun hx ↦ hequal (hbyte hx),
          fun hx ↦ Search.not_infix_of_mem_split (by decide) hquery (hx.trans (hb.trans hpiece)),
          fun hx ↦ hlink (hx.trans (hb.trans (hpiece.trans hin))),
          fun m hm ↦ absurd hm List.not_mem_nil⟩
    | _ =>
      have hsame : (setPlugin params (start .ss)).get "plugin" = .nil := by
        unfold setPlugin
        rw [hvalue]
        simp only [hnil]
        rfl
      rw [hsame] at hname
      cases hname

/-- A plugin that comes out has no mark. -/
theorem marks_of_plugin {f : Form} {v : Bytes} (hfree : ∀ m ∈ pluginMarks, ¬ m <:+: v)
    (hv : v <:+: escapeBytes isKept f.pluginBytes)
    (hname : utf8 f.plugin = renamed (pluginName (urlDecode v)))
    (hopts : f.pluginOpts ≠ [] →
      (cut 0x3B (urlDecode v)).map Prod.snd = some (utf8 f.pluginOpts)) :
    ∀ m ∈ pluginMarks, ¬ m <:+: escapeBytes isKept f.pluginBytes := by
  have hspace : ∀ m ∈ pluginMarks, 0x20 ∉ m := by decide
  have hlocal : ∀ m ∈ pluginMarks, ¬ m <:+: ascii "obfs-local" := by decide
  intro m hm hin
  obtain ⟨hne, -, hplain⟩ := plain_pluginMarks m hm
  have hkept : ∀ c ∈ m, isKept c = true ∧ c ≠ 0x20 := fun c hc ↦
    ⟨(hplain c hc).1, fun h ↦ hspace m hm (h ▸ hc)⟩
  have hdecoded : ¬ m <:+: urlDecode v := fun hx ↦
    hfree m hm (infix_of_infix_urlDecode (by decide) hkept hv hx).1
  obtain hin | hin := (mark_pluginBytes f hm).mp hin
  · rw [hname] at hin
    unfold renamed at hin
    split at hin
    · exact hlocal m hm hin
    · unfold pluginName at hin
      cases hcut : cut 0x3B (urlDecode v) with
      | none =>
        rw [hcut] at hin
        exact hdecoded hin
      | some p =>
        rw [hcut] at hin
        have heq := (cut_eq_some_iff.mp hcut).1
        exact hdecoded (hin.trans (heq ▸ (List.prefix_append p.1 _).isInfix))
  · have hsome : f.pluginOpts ≠ [] := by
      intro hnil
      rw [hnil] at hin
      exact hne (List.infix_nil.mp hin)
    obtain ⟨p, hp, hsnd⟩ := Option.map_eq_some_iff.mp (hopts hsome)
    have heq := (cut_eq_some_iff.mp hp).1
    rw [← hsnd] at hin
    exact hdecoded (hin.trans (heq ▸ ((List.suffix_cons 0x3B p.2).trans
      (List.suffix_append p.1 _)).isInfix))

/-- An `@` behind a text without `#` and `/` stands before the plugin. -/
theorem at_mem_ssInfo {user : Bytes} (r : Bytes) (hhash : 0x23 ∉ user) (hslash : 0x2F ∉ user) :
    0x40 ∈ ssInfo (user ++ 0x40 :: r) := by
  have huser : ¬ ascii "/?" <:+: user := fun h ↦ hslash (h.subset (by decide))
  rw [ssInfo_eq, splitAlias_user r hhash]
  show 0x40 ∈ Search.before (ascii "/?") (user ++ 0x40 :: (splitAlias r).1)
  rw [Search.before_append_cons _ (by decide) huser]
  simp

/-- No text of which neither the colon nor a bracket is a part stands in both server and port. -/
theorem infix_hostPort {f : Form} {m : Bytes} (hne : m ≠ [])
    (hm : 0x3A ∉ m ∧ 0x5B ∉ m ∧ 0x5D ∉ m) :
    m <:+: f.hostPort ↔ m <:+: utf8 f.server ∨ m <:+: utf8 f.serverPort := by
  have hnil : ¬ m <:+: [] := fun h ↦ hne (List.infix_nil.mp h)
  unfold Form.hostPort
  rw [Search.infix_append_cons hm.1, utf8_address]
  split
  · rw [← List.nil_append (0x5B :: utf8 f.server ++ [0x5D]), List.cons_append,
      Search.infix_append_cons hm.2.1, Search.infix_append_cons hm.2.2]
    tauto
  · rfl

/-- Only a clean link gives the fields back. -/
theorem ssClean_of_fields {env : Env} (h64 : Decodes64 env.b64decode) {f : Form}
    (htype : f.type = .ss) {c remark : Bytes} {t : Table} (hzero : 0 ∉ c)
    (hc : c <+: stripNul f.ssBytes ++ 0x23 :: remark) (hlink : ¬ ascii "://" <:+: c)
    (hat : 0x40 ∈ ssInfo c) (hok : ssNode env c (start .ss) = .ok t)
    (hfields : ∀ p ∈ exported f, t.get p.1 = p.2) : SsClean f := by
  have hserver := hfields (field "server" f.server) (by simp [exported])
  have hserverPort := hfields (field "server_port" f.serverPort) (by simp [exported])
  have hnames : t.names = ssNames env c := congrArg Core.names (core_ssNode (by rfl) hok)
  rw [show t.get (field "server" f.server).1 = (ssNames env c).server from
    congrArg Names.server hnames] at hserver
  rw [show t.get (field "server_port" f.serverPort).1 = (ssNames env c).port from
    congrArg Names.port hnames] at hserverPort
  obtain ⟨hmarks, hcolon⟩ := ssNames_clean h64 hzero hat hserver hserverPort
  have hbyte : ∀ {x : UInt8}, [x] ∈ hostMarks → x ∉ utf8 f.server ∧ x ∉ utf8 f.serverPort :=
    fun hx ↦ ⟨fun h ↦ (hmarks _ hx).1 ((List.singleton_infix_iff _ _).mpr h),
      fun h ↦ (hmarks _ hx).2 ((List.singleton_infix_iff _ _).mpr h)⟩
  have hhost : ∀ x ∈ [(0 : UInt8), 0x23, 0x40], x ∉ f.hostPort := by
    have hpart : ∀ {x : UInt8}, [x] ∈ hostMarks → x ∉ [(0x3A : UInt8), 0x5B, 0x5D] → x ∉ f.hostPort :=
      fun hx hother ↦ not_mem_hostPort (hbyte hx).1 (hbyte hx).2 hother
    simp only [List.forall_mem_cons]
    exact ⟨hpart (by decide) (by decide), hpart (by decide) (by decide), hpart (by decide) (by decide),
      fun x hx ↦ absurd hx List.not_mem_nil⟩
  have hslash : ¬ ascii "/?" <:+: f.hostPort := by
    rw [infix_hostPort (by decide) (by decide)]
    exact not_or.mpr (hmarks _ (by decide))
  refine ⟨hhost, hslash, hcolon, fun hplugin ↦ ?_⟩
  obtain ⟨hhash, hinfo⟩ := splitAlias_fst c
  have hstart : (splitAlias c).1 <+: f.ssBytes := by
    have hstrip : stripNul f.ssBytes = f.ssBytes := by
      apply stripNul_eq_self
      unfold Form.ssBytes
      simp only [List.mem_append, List.mem_cons, not_or]
      exact ⟨not_mem_ssUser (by decide) f, by decide, hhost 0 (by decide), by decide, by decide,
        zero_not_mem_query f⟩
    exact Search.prefix_of_prefix_append_cons (hstrip ▸ hinfo.trans hc) hhash
  unfold ssNode at hok
  obtain ⟨⟨rest, result⟩, hquery, hend⟩ := bind_eq_ok.mp hok
  have hsame : t.get "plugin" = result.get "plugin" ∧
      t.get "plugin_opts" = result.get "plugin_opts" :=
    ⟨get_ssHost hend (by decide), get_ssHost hend (by decide)⟩
  have hname := hfields (field "plugin" f.plugin) (by simp [exported, htype, hplugin])
  rw [show t.get (field "plugin" f.plugin).1 = _ from hsame.1] at hname
  obtain ⟨v, hfree, hv, heq, hopts⟩ := exists_plugin hslash
    (fun hmem ↦ hzero (hinfo.subset hmem)) hstart hhash (fun h ↦ hlink (h.trans hinfo.isInfix))
    hquery hname hplugin
  refine marks_of_plugin hfree hv heq fun hsome ↦ ?_
  have hfield := hfields (field "plugin_opts" f.pluginOpts)
    (by simp [exported, htype, hplugin, fieldUnlessEmpty, hsome])
  rw [show t.get (field "plugin_opts" f.pluginOpts).1 = _ from hsame.2, hopts] at hfield
  exact ofOption_eq_str.mp hfield

/-- Where a clean link has a `://`. -/
theorem SsClean.link_iff {f : Form} (h : SsClean f) :
    ascii "://" <:+: f.ssBytes ↔ ascii "://" <:+: f.hostPort ++ [0x2F] := by
  have huser : ¬ ascii "://" <:+: f.ssUser := not_link_of_not_mem (not_mem_ssUser (by decide) f)
  have hcut : f.hostPort ++ 0x2F :: 0x3F :: queryBytes f.pluginItems =
      (f.hostPort ++ [0x2F]) ++ 0x3F :: queryBytes f.pluginItems := by
    rw [List.append_assoc, List.singleton_append]
  unfold Form.ssBytes
  rw [Search.infix_append_cons (by decide), hcut, Search.infix_append_cons (by decide)]
  exact (or_iff_right huser).trans (or_iff_left h.cut_query.2)

/-- What is kept leaves a clean link. -/
theorem SsKept.clean {f : Form} (h : SsKept f) : SsClean f := by
  have hpart : ∀ {x : UInt8}, x ∈ [(0 : UInt8), 0x23, 0x40] → x ∉ [(0x3A : UInt8), 0x5B, 0x5D] →
      x ∉ f.hostPort :=
    fun hx hother ↦ not_mem_hostPort (h.host.clean _ hx).1 (h.host.clean _ hx).2 hother
  refine ⟨?_, ?_, h.host.port, fun hplugin m hm ↦ ?_⟩
  · simp only [List.forall_mem_cons]
    exact ⟨hpart (by decide) (by decide), hpart (by decide) (by decide), hpart (by decide) (by decide),
      fun x hx ↦ absurd hx List.not_mem_nil⟩
  · rw [infix_hostPort (by decide) (by decide), not_or]
    exact ⟨h.slash f.server (by simp), h.slash f.serverPort (by simp)⟩
  · rw [mark_pluginBytes f hm, not_or]
    have hmarks := (h.plugin hplugin).marks
    exact ⟨hmarks f.plugin (by simp) m hm, hmarks f.pluginOpts (by simp) m hm⟩

/-- The fields come out of a clean link if and only if they are kept. -/
theorem SsClean.kept_iff {env : Env} (h64 : Decodes64 env.b64decode) {f : Form} (h : SsClean f)
    (htype : f.type = .ss) (hport : utf8 f.serverPort ≠ [])
    (hlink : ¬ ascii "://" <:+: f.ssBytes) :
    (∃ t, ssNode env (f.ssBytes ++ 0x23 ::
        Search.before (ascii "://") (escapeBytes isKept (utf8 f.nodeAlias))) (start .ss) = .ok t ∧
      ∀ p ∈ exported f, t.get p.1 = p.2) ↔ SsKept f := by
  have hcolon : 0x3A ∈ stripNul (latin1 (f.encryptMethodSs ++ text ":" ++ f.password)) := by
    rw [stripNul_ssText]
    simp
  obtain ⟨⟨method, password⟩, hcut⟩ := Option.isSome_iff_exists.mp (cut_isSome.mpr hcolon)
  rw [ssNode_eq h64 h hport _ hcut]
  simp only [Except.ok.injEq, exists_eq_left', ssTable_iff htype, plugin_iff, ssUser_iff hcut,
    urlDecode_alias_iff]
  constructor
  · rintro ⟨halias, hbrackets, ⟨huser, hmethod⟩, hplugin⟩
    have hbyte : ∀ c ∈ [(0 : UInt8), 0x23, 0x40], c ∉ utf8 f.server ∧ c ∉ utf8 f.serverPort := by
      intro c hc
      have hother : 0x3A ∉ [c] ∧ 0x5B ∉ [c] ∧ 0x5D ∉ [c] := by
        simp only [List.mem_cons, List.not_mem_nil, or_false] at hc
        obtain rfl | rfl | rfl := hc <;> decide
      have hnone := h.host c hc
      rw [← List.singleton_infix_iff, infix_hostPort (List.cons_ne_nil c []) hother, not_or,
        List.singleton_infix_iff, List.singleton_infix_iff] at hnone
      exact hnone
    have hslash := h.slash
    rw [infix_hostPort (by decide) (by decide), not_or] at hslash
    refine ⟨huser, hmethod, ⟨hbyte, h.port, hbrackets⟩, ?_, fun hin ↦ hlink (h.link_iff.mpr hin),
      halias, fun hne ↦ ?_⟩
    · rw [List.forall_mem_cons, List.forall_mem_singleton]
      exact hslash
    · obtain ⟨hplus, hopts, hname, hobfs⟩ := hplugin hne
      refine ⟨?_, hplus, hopts, hname, hobfs⟩
      have hmarks : ∀ m ∈ pluginMarks, ¬ m <:+: utf8 f.plugin ∧ ¬ m <:+: utf8 f.pluginOpts :=
        fun m hm ↦ not_or.mp ((mark_pluginBytes f hm).not.mp (h.plugin hne m hm))
      rw [List.forall_mem_cons, List.forall_mem_singleton]
      exact ⟨fun m hm ↦ (hmarks m hm).1, fun m hm ↦ (hmarks m hm).2⟩
  · intro hkept
    refine ⟨hkept.nodeAlias, hkept.host.brackets, ⟨hkept.user, hkept.method⟩, fun hne ↦ ?_⟩
    have hplugin := hkept.plugin hne
    exact ⟨hplugin.plus, hplugin.opts, hplugin.name, hplugin.obfs⟩

/-- An `ss` node comes back from its link if and only if nothing of it is taken for a mark of the link
and nothing is encoded that the script does not decode. -/
theorem roundTrips_ss_iff {env : Env} (h64 : Decodes64 env.b64decode) {f : Form}
    (htype : f.type = .ss) (hfill : Filled f) : RoundTrips env f ↔ SsKept f := by
  have halias : f.nodeAlias ≠ [] := hfill.ne_nil (by simp [exported] : field "alias" _ ∈ _)
  have hport : utf8 f.serverPort ≠ [] := by
    rw [ne_eq, utf8_eq_nil]
    exact hfill.ne_nil (by simp [exported] : field "server_port" _ ∈ _)
  by_cases hcodes : SsCodes f
  swap
  · refine iff_of_false ?_ fun h ↦ hcodes fun s hs c hc ↦
      ((h.user s hs).1 c hc).trans (by decide)
    rintro ⟨link, result, hlink, -⟩
    unfold buildUrl at hlink
    rw [htype] at hlink
    obtain ⟨url, hurl, -⟩ := Option.bind_eq_some_iff.mp hlink
    exact hcodes (ssUrl_eq_some_iff.mp hurl).1
  have hbytes := utf8_ssUrl f
  have hssUrl := ssUrl_eq_some_iff.mpr ⟨hcodes, rfl⟩
  generalize binary f.ssUser ++ text "@" ++ f.address ++ text ":" ++ f.serverPort ++ text "/?" ++
    f.withAlias f.pluginParam = url at hbytes hssUrl
  have hurl : buildUrl f = some (text f.type.name ++ text "://" ++ url) := by
    unfold buildUrl
    rw [htype]
    show Option.bind f.ssUrl _ = _
    rw [hssUrl]
    rfl
  have hcontent : content env f.type (utf8 url) =
      Search.before (ascii "://")
        (stripNul (f.ssBytes ++ 0x23 :: escapeBytes isKept (utf8 f.nodeAlias))) := by
    unfold content
    rw [hbytes, htype]
    exact if_pos (Or.inl rfl)
  have hstart : ∃ r, content env f.type (utf8 url) = f.ssUser ++ 0x40 :: r := by
    have huser : stripNul f.ssUser = f.ssUser := stripNul_eq_self (not_mem_ssUser (by decide) f)
    rw [hcontent, Form.ssBytes, List.append_assoc, List.cons_append, stripNul_append, huser]
    exact ⟨_, Search.before_append_cons _ (by decide)
      (not_link_of_not_mem (not_mem_ssUser (by decide) f))⟩
  have hat : 0x40 ∈ ssInfo (content env f.type (utf8 url)) := by
    obtain ⟨r, hr⟩ := hstart
    rw [hr]
    exact at_mem_ssInfo r (not_mem_ssUser (by decide) f) (not_mem_ssUser (by decide) f)
  have hparse : ∀ t, parseText env (ascii f.type.name) (content env f.type (utf8 url))
      (start f.type) = .ok (some t) ↔
        ssNode env (content env f.type (utf8 url)) (start .ss) = .ok t := by
    intro t
    rw [htype]
    exact some_map_eq_ok
  have hne : stripNul (utf8 url) ≠ [] := by
    intro hnil
    have hmem : 0x40 ∈ stripNul (utf8 url) := by
      rw [hbytes, Form.ssBytes]
      exact List.mem_filter.mpr ⟨by simp, by decide⟩
    rw [hnil] at hmem
    cases hmem
  rw [roundTrips_iff hurl hne (hbytes ▸ isSpace_of_getLast?_append halias)]
  · simp only [hparse]
    generalize content env f.type (utf8 url) = c at hcontent hat
    have hif := hcontent.trans (before_link f)
    constructor
    · rintro ⟨t, ht, hfields⟩
      have hpart := hcontent ▸ Search.before_start (ascii "://")
        (stripNul (f.ssBytes ++ 0x23 :: escapeBytes isKept (utf8 f.nodeAlias)))
      have hzero : 0 ∉ c := fun hmem ↦ zero_not_mem_stripNul _ (hpart.subset hmem)
      have hclean : SsClean f := by
        rw [stripNul_append] at hpart
        exact ssClean_of_fields h64 htype hzero hpart
          (hcontent ▸ Search.not_infix_before (by decide)) hat ht hfields
      rw [stripNul_eq_self (hclean.not_mem_bytes (by decide))] at hif
      have hremark := hfields (field "alias" f.nodeAlias) (by simp [exported])
      have hnames : t.names = ssNames env c := congrArg Core.names (core_ssNode (by rfl) ht)
      rw [show t.get (field "alias" f.nodeAlias).1 = (ssNames env c).nodeAlias from
        congrArg Names.nodeAlias hnames, ssNames_nodeAlias h64 hat] at hremark
      obtain ⟨hlink, rfl⟩ := uncut (hclean.not_mem_bytes (by decide)) halias hif
        (Value.str.inj hremark)
      exact (hclean.kept_iff h64 htype hport hlink).mp ⟨t, ht, hfields⟩
    · intro hkept
      have hclean := hkept.clean
      have hlink : ¬ ascii "://" <:+: f.ssBytes := fun hin ↦ hkept.cut (hclean.link_iff.mp hin)
      rw [stripNul_eq_self (hclean.not_mem_bytes (by decide)), if_neg hlink] at hif
      rw [hif]
      exact (hclean.kept_iff h64 htype hport hlink).mpr hkept
  · intro t ht
    have hnames : t.names = ssNames env _ :=
      congrArg Core.names (core_ssNode (by rfl) ((hparse t).mp ht))
    rw [show t.get "alias" = _ from congrArg Names.nodeAlias hnames, ssNames_nodeAlias h64 hat]
    rfl

end OpenWrtCompile.Subscribe
