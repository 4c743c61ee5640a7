import OpenWrtCompile.Overwall.ConfigFiles

/-!
# What the configuration files denote

A file denotes the values of the options if the shell puts each value in as it is, and the value needs no
escape in JSON; in a directory in which the words of the values match no other names, only then. The
plugin is added if its values hold no `&` and no `@` besides, and if what stands for the address in the
pattern is found in no other line.
-/

namespace OpenWrtCompile.Overwall.ConfigFiles
open OpenWrtCompile.Base OpenWrtCompile.Base.ShellWords OpenWrtCompile.Base.Replacement

/-! ## The values -/

/-- The object with the members. -/
def object (members : List (String × Json)) : Json := .obj (members.map fun p ↦ (ascii p.1, p.2))

/-- The file denotes a value, and so does the file with the plugin where it is added. -/
def Output.Denotes (out : Output) (value edited : Json) : Prop :=
  Base.Denotes out.file value ∧ ∀ file, out.edited = some file → Base.Denotes file edited

namespace Options

variable (o : Options)

/-- The time. -/
def timeoutNumber : JsonNumber := o.timeout.getD defaultTimeout

/-- The members of the plugin. -/
def pluginMembers : List (String × Json) :=
  [("plugin", .str o.plugin), ("plugin_opts", .str o.pluginOpts)]

/-- The members of a server for `ss` behind the first. -/
def ssServerMembers : List (String × Json) :=
  [("server_port", .num o.serverPort), ("password", .str o.password),
    ("timeout", .num o.timeoutNumber), ("method", .str o.encryptMethodSs),
    ("fast_open", .bool o.fastOpen)]

/-- The addresses that a server listens on. -/
def serverMember : String × Json := ("server", .arr [.str (ascii "::"), .str (ascii "0.0.0.0")])

/-- The value for a server of 2022. -/
def ss2022ServerJson : Json :=
  object [("inbounds", .arr [object [("port", .num o.serverPort),
      ("protocol", .str (ascii "shadowsocks")),
      ("settings", object [("password", .str o.password), ("method", .str o.encryptMethodSs),
        ("network", .str (ascii "tcp,udp"))]),
      ("sniffing", object [("enabled", .bool true),
        ("destOverride", .arr [.str (ascii "http"), .str (ascii "tls")])])]]),
    ("outbounds", .arr [object [("protocol", .str (ascii "freedom")),
      ("streamSettings", object [("sockopt", object [("tcpFastOpen", .bool o.fastOpen)])])]])]

/-- The members of a server for `ssr`. -/
def ssrServerMembers : List (String × Json) :=
  [serverMember, ("server_port", .num o.serverPort), ("password", .str o.password),
    ("timeout", .num o.timeoutNumber), ("method", .str o.encryptMethod),
    ("protocol", .str o.protocol), ("protocol_param", .str o.protocolParam), ("obfs", .str o.obfs),
    ("obfs_param", .str o.obfsParam), ("fast_open", .bool o.fastOpen)]

/-- What the file of a server has to denote, without and with the plugin. -/
def serviceJson : ServerType → Json × Json
  | .ss =>
    (object (serverMember :: o.ssServerMembers),
      object (serverMember :: (o.pluginMembers ++ o.ssServerMembers)))
  | .ss2022 => (o.ss2022ServerJson, o.ss2022ServerJson)
  | .ssr => (object o.ssrServerMembers, object o.ssrServerMembers)
  | .other => (.null, .null)

end Options

namespace Call

variable (c : Call)

/-- The members for `ss` behind the first. -/
def ssMembers : List (String × Json) :=
  [("server_port", .num c.options.serverPort), ("local_address", .str c.listen.text),
    ("local_port", .num c.lport), ("password", .str c.options.password),
    ("timeout", .num c.options.timeoutNumber), ("method", .str c.options.encryptMethodSs),
    ("reuse_port", .bool true), ("fast_open", .bool c.options.fastOpen)]

/-- The members for `ssr`. -/
def ssrMembers : List (String × Json) :=
  [("server", .str c.hostip.text), ("server_port", .num c.options.serverPort),
    ("local_address", .str c.listen.text), ("local_port", .num c.lport),
    ("password", .str c.options.password), ("timeout", .num c.options.timeoutNumber),
    ("method", .str c.options.encryptMethod), ("protocol", .str c.options.protocol),
    ("protocol_param", .str c.options.protocolParam), ("obfs", .str c.options.obfs),
    ("obfs_param", .str c.options.obfsParam), ("fast_open", .bool c.options.fastOpen)]

/-- The members for `naiveproxy`. -/
def naiveMembers : List (String × Json) :=
  [("listen", .str (c.proto ++ ascii "://0.0.0.0:" ++ c.lport.text)),
    ("proxy", .str (ascii "https://" ++ c.options.username ++ ascii ":" ++ c.options.password ++
      ascii "@" ++ c.options.server ++ ascii ":" ++ c.options.serverPort.text)),
    ("concurrency", .str c.concurrency)]

/-- What the file of a node has to denote, without and with the plugin. -/
def configJson : Json × Json :=
  match c.type with
  | .ss =>
    (object (("server", .str c.hostip.text) :: c.ssMembers),
      object (("server", .str c.hostip.text) :: (c.options.pluginMembers ++ c.ssMembers)))
  | .ssr => (object c.ssrMembers, object c.ssrMembers)
  | .naiveproxy => (object c.naiveMembers, object c.naiveMembers)
  | .other => (.null, .null)

/-- The file of a node denotes the values of its options. -/
def Written (sh : Shell) : Prop :=
  ∀ out, c.genConfigFile sh = some out → out.Denotes c.configJson.1 c.configJson.2

end Call

/-- The file of a server denotes the values of its options. -/
def Options.Written (sh : Shell) (o : Options) (type : ServerType) : Prop :=
  ∀ out, o.genServiceFile sh type = some out →
    out.Denotes (o.serviceJson type).1 (o.serviceJson type).2

/-! ## The condition -/

/-- The shell puts the value in as it is, and the value needs no escape. -/
structure Safe (sh : Shell) (value : Bytes) : Prop where
  kept : Kept sh.names value
  bare : value.all isBare = true

namespace Options

variable (sh : Shell) (o : Options)

/-- The plugin is installed. -/
def PluginFound : Prop := sh.which (fields sh.names (get sh o.plugin)) = true

/-- The values of the plugin can be added behind a text, which is found in no other line. -/
structure PluginSafe (found : Bytes) (lines : List Bytes) : Prop where
  plugin : Safe sh o.plugin
  opts : Safe sh o.pluginOpts
  clear : ∀ c ∈ o.plugin ++ o.pluginOpts, c ≠ 0x26 ∧ c ≠ 0x40
  once : ∀ l ∈ lines, finds (wordPattern found) l = false

/-- The values that a file for `ssr` has. -/
def ssrValues : List Bytes :=
  [o.password, o.encryptMethod, o.protocol, o.protocolParam, o.obfs, o.obfsParam]

/-- The values that the file of a server has. -/
def serviceValues : ServerType → List Bytes
  | .ss | .ss2022 => [o.password, o.encryptMethodSs]
  | .ssr => o.ssrValues
  | .other => []

/-- The condition for a server. -/
def ServiceSafe (type : ServerType) : Prop :=
  (∀ v ∈ o.serviceValues type, Safe sh v) ∧
    (type = .ss → o.PluginFound sh → o.PluginSafe sh (ascii "0.0.0.0\"],") [])

end Options

namespace Call

variable (sh : Shell) (c : Call)

/-- Nothing is written. -/
def Skipped : Prop := c.method sh ∈ methods2022 ∨ c.type = .naiveproxy ∧ c.slot = .udp

/-- The values that the file of a node has. -/
def configValues : List Bytes :=
  match c.type with
  | .ss => [c.options.password, c.options.encryptMethodSs]
  | .ssr => c.options.ssrValues
  | .naiveproxy => [c.options.username, c.options.password, c.options.server]
  | .other => []

/-- The lines besides the first in which the pattern may be found. -/
def otherLines : List Bytes :=
  [strLine "local_address" c.listen.text, strLine "password" c.options.password,
    strLine "method" c.options.encryptMethodSs]

/-- The condition for a node. -/
def ConfigSafe : Prop :=
  c.Skipped sh ∨ (∀ v ∈ c.configValues, Safe sh v) ∧
    (c.type = .ss → c.options.PluginFound sh →
      c.options.PluginSafe sh (c.hostip.text ++ ascii "\",") c.otherLines)

end Call

/-- The words of the values of the plugin match no other names, and they are put in without `@`. -/
structure Options.PluginOrdinary (sh : Shell) (o : Options) : Prop where
  leaves : ∀ v ∈ [o.plugin, o.pluginOpts], Leaves sh.names v
  delimiter : 0x40 ∉ Options.get sh o.plugin ++ Options.get sh o.pluginOpts

/-- The words of the values that the file of a server has match no other names. -/
structure Options.ServiceOrdinary (sh : Shell) (o : Options) (type : ServerType) : Prop where
  leaves : ∀ v ∈ o.serviceValues type, Leaves sh.names v
  plugin : type = .ss → o.PluginFound sh → o.PluginOrdinary sh

/-- The words of the values that the file of a node has match no other names. -/
structure Call.ConfigOrdinary (sh : Shell) (c : Call) : Prop where
  leaves : ∀ v ∈ c.configValues, Leaves sh.names v
  plugin : c.type = .ss → c.options.PluginFound sh → c.options.PluginOrdinary sh

/-! ## The values as they are put in -/

/-- The value of an option without a default. -/
theorem get_eq (sh : Shell) (v : Bytes) : Options.get sh v = echoed sh.names v := by
  have hwords : words (captured (v ++ [0x0A])) = words v := by
    rw [captured_append_newline, words_captured]
  show echoed sh.names (if _ then [] else captured (v ++ [0x0A])) = _
  split
  · rename_i hnil
    rw [hnil] at hwords
    exact echoed_congr hwords
  · exact echoed_congr hwords

/-- No value grows where its words match no other names. -/
theorem length_get {sh : Shell} {v : Bytes} (h : Leaves sh.names v) :
    (Options.get sh v).length ≤ v.length := by
  rw [get_eq]
  exact h.length_echoed

/-- A value that is put in as it is. -/
theorem Safe.get_eq {sh : Shell} {v : Bytes} (h : Safe sh v) : Options.get sh v = v := by
  rw [ConfigFiles.get_eq]
  exact h.kept.echoed_eq

/-- A value that is put in as it is and needs no escape is read as it is. -/
theorem Safe.lexJson_quoted {sh : Shell} {v : Bytes} (h : Safe sh v) :
    lexJson (quoted (Options.get sh v)) = some [.str v] := by
  rw [h.get_eq]
  exact lexJson_quoted_of_bare h.bare

/-- A value of which the words match no other names is read as it is only then. -/
theorem safe_of_get_eq {sh : Shell} {v : Bytes} (hv : Leaves sh.names v)
    (heq : Options.get sh v = v) (hbare : v.all isBare = true) : Safe sh v := by
  rw [ConfigFiles.get_eq] at heq
  exact ⟨(echoed_eq_self_iff hv).mp heq, hbare⟩

/-- A value of which the words match no other names is read as it is only then. -/
theorem safe_of_lexJson_quoted {sh : Shell} {v : Bytes} (hv : Leaves sh.names v)
    (h : lexJson (quoted (Options.get sh v)) = some [.str v]) : Safe sh v := by
  obtain ⟨heq, hbare⟩ := eq_of_lexJson_quoted h (length_get hv)
  exact safe_of_get_eq hv heq hbare

/-- A number is put in as it is. -/
theorem uciGetByName_number (sh : Shell) (n : JsonNumber) (default : Bytes) :
    sh.uciGetByName n.text default = n.text := by
  obtain ⟨text, valid⟩ := n
  obtain ⟨hall, hnum⟩ := Bool.and_eq_true_iff.mp valid
  have hbyte : ∀ c ∈ text, isNumberByte c = true := List.all_eq_true.mp hall
  have hne : text ≠ [] := by
    rintro rfl
    exact absurd hnum (by decide)
  have hno : ∀ d : UInt8, isNumberByte d = false → d ∉ text := by
    intro d hd hmem
    rw [hbyte d hmem] at hd
    cases hd
  have hifs : ∀ c ∈ text, isIfs c = false := by
    intro c hc
    have h1 : c ≠ 0x20 := fun h ↦ hno 0x20 (by decide) (h ▸ hc)
    have h2 : c ≠ 0x09 := fun h ↦ hno 0x09 (by decide) (h ▸ hc)
    have h3 : c ≠ 0x0A := fun h ↦ hno 0x0A (by decide) (h ▸ hc)
    simp [isIfs, h1, h2, h3]
  have hwords : words text = [text] := by
    unfold words
    rw [List.splitOnP_eq_singleton hifs, List.filter_cons_of_pos (by simpa using hne),
      List.filter_nil]
  have hoption : isOption text = false := by
    by_contra hopt
    rw [Bool.not_eq_false] at hopt
    unfold isOption at hopt
    split at hopt
    · rename_i c r
      have hc := List.all_eq_true.mp hopt c List.mem_cons_self
      have hdigit : isJsonDigit c = false := by
        simp only [Bool.or_eq_true, decide_eq_true_eq] at hc
        obtain (rfl | rfl) | rfl := hc <;> rfl
      -- no digit is behind the sign
      unfold isJsonNumber at hnum
      simp [hdigit, isDigits] at hnum
    · cases hopt
  have hkept : Kept sh.names text := by
    refine ⟨?_, ?_, ?_⟩
    · intro w hw
      rw [hwords, List.mem_singleton] at hw
      subst hw
      refine Or.inl (sh.names_plain _ fun c hc hspecial ↦ ?_)
      have hplain : ∀ d ∈ ascii "*?[\\", isNumberByte d = false := forall_mem_of_all (by decide)
      exact hno c (hplain c hspecial) hc
    · rw [hwords]
      simp [joined, List.intercalate]
    · intro w hw
      rw [hwords] at hw
      obtain rfl := Option.some.inj hw
      exact hoption
  have hcaptured : captured (text ++ [0x0A]) = text := by
    rw [captured_append_newline, captured_eq_self]
    rintro c hc rfl
    exact hno 0x0A (by decide) (List.mem_of_getLast? hc)
  show echoed sh.names (if captured (text ++ [0x0A]) = [] then _ else captured (text ++ [0x0A])) = text
  rw [hcaptured, if_neg hne, hkept.echoed_eq]

/-! ## Lines -/

/-- The tokens of a member in front of another. -/
def lineTokens (m : String × Json) : List JsonToken :=
  [.str (ascii m.1), .colon] ++ m.2.tokens ++ [.comma]

/-- The tokens of members and of the end of their object. -/
def membersTokens (members : List (String × Json)) : List JsonToken :=
  memberTokens (members.map fun p ↦ (ascii p.1, p.2)) ++ [.closeObj]

/-- A line with a string has four tokens or more, and is the member if the text between the quotation
marks is read as the string. -/
theorem reads_strLine (key : String) (hkey : (ascii key).all isBare = true) (b v : Bytes) :
    Reads (strLine key b) (lineTokens (key, .str v)) (lexJson (quoted b) = some [.str v]) := by
  have hpre : ∀ l, lexJson (quoted (ascii key) ++ [0x3A] ++ l) =
      (lexJson l).map ([.str (ascii key), .colon] ++ ·) := by
    intro l
    rw [List.append_assoc]
    exact lexJson_member hkey l
  have hcomma : Reads (ascii ",") [.comma] True := .of_eq rfl
  have hsealed : Sealed (ascii ",") := fun body h ↦ by cases h
  have htokens : lineTokens (key, .str v) = [.str (ascii key), .colon] ++ [.str v] ++ [.comma] := by
    simp [lineTokens, Json.tokens]
  have hform : strLine key b = quoted (ascii key) ++ [0x3A] ++ quoted b ++ ascii "," := by
    simp [strLine, member]
  rw [htokens, hform]
  exact (Reads.string_append hpre hsealed hcomma).congr (iff_of_eq (and_true _))

/-- A line with a string that needs no escape. -/
theorem reads_strLine_bare (key : String) (hkey : (ascii key).all isBare = true) {b : Bytes}
    (hb : b.all isBare = true) : Reads (strLine key b) (lineTokens (key, .str b)) True :=
  (reads_strLine key hkey b b).congr (iff_true_intro (lexJson_quoted_of_bare hb))

/-- A line with a number. -/
theorem reads_rawLine_num (key : String) (hkey : (ascii key).all isBare = true) (n : JsonNumber) :
    Reads (rawLine key n.text) (lineTokens (key, .num n)) True := by
  refine .of_eq ?_
  unfold rawLine
  rw [lexJson_member hkey, lexJson_num n]
  · simp [lineTokens, Json.tokens, show lexJson (ascii ",") = some [.comma] from rfl]
  · intro c hc
    obtain rfl := Option.some.inj hc
    rfl

/-- The line of the port. -/
theorem reads_portLine (key : String) (hkey : (ascii key).all isBare = true) (sh : Shell)
    (o : Options) : Reads (rawLine key (o.port sh)) (lineTokens (key, .num o.serverPort)) True := by
  have hport : o.port sh = o.serverPort.text := uciGetByName_number sh _ _
  rw [hport]
  exact reads_rawLine_num key hkey _

/-- The time. -/
theorem timeoutText_eq (sh : Shell) (o : Options) : o.timeoutText sh = o.timeoutNumber.text := by
  unfold Options.timeoutText Options.timeoutNumber
  cases o.timeout with
  | none =>
    have h := uciGetByName_number sh defaultTimeout []
    show echoed sh.names (ascii "60") = ascii "60"
    exact h
  | some n => exact uciGetByName_number sh n _

/-- The line of the time. -/
theorem reads_timeoutLine (sh : Shell) (o : Options) : Reads (rawLine "timeout" (o.timeoutText sh))
    (lineTokens ("timeout", .num o.timeoutNumber)) True := by
  rw [timeoutText_eq]
  exact reads_rawLine_num "timeout" (by decide) _

/-- The line with `true`. -/
theorem reads_reuseLine : Reads (rawLine "reuse_port" (ascii "true"))
    (lineTokens ("reuse_port", .bool true)) True := by
  have hbool := lexJson_bool true (ascii ",")
  rw [if_pos rfl] at hbool
  refine .of_eq ?_
  unfold rawLine
  rw [lexJson_member (by decide), hbool]
  simp [lineTokens, Json.tokens, show lexJson (ascii ",") = some [.comma] from rfl]

namespace Reads

variable {line : Bytes} {ls : List Bytes} {P Q : Prop} {m m' : String × Json}
  {members : List (String × Json)}

/-- The line of a member in front of other members. -/
theorem member (hl : Base.Reads line (lineTokens m) P)
    (hls : Base.Reads (hereDoc ls) (membersTokens (m' :: members)) Q) :
    Base.Reads (hereDoc (line :: ls)) (membersTokens (m :: m' :: members)) (P ∧ Q) := by
  have htokens : membersTokens (m :: m' :: members) =
      lineTokens m ++ membersTokens (m' :: members) := by
    simp [membersTokens, lineTokens, memberTokens, commaUnless]
  rw [htokens]
  exact hl.cons hls

/-- The first line. -/
theorem object (hls : Base.Reads (hereDoc ls) (membersTokens members) Q) :
    Base.Reads (hereDoc (ascii "\x7b" :: ls)) (object members).tokens Q := by
  have hopen : Base.Reads (ascii "\x7b") [.openObj] True := .of_eq rfl
  have htokens : (ConfigFiles.object members).tokens = [.openObj] ++ membersTokens members := by
    simp [ConfigFiles.object, membersTokens, Json.tokens]
  rw [htokens]
  exact (hopen.cons hls).congr (iff_of_eq (true_and Q))

end Reads

/-- The last lines. -/
theorem reads_fastLine (o : Options) :
    Base.Reads (hereDoc [Base.member (ascii "fast_open") o.fast, ascii "\x7d"])
      (membersTokens [("fast_open", .bool o.fastOpen)]) True := by
  have hfast := lexJson_bool o.fastOpen []
  rw [List.append_nil] at hfast
  have hline : Base.Reads (Base.member (ascii "fast_open") o.fast)
      [.str (ascii "fast_open"), .colon, .bool o.fastOpen] True := by
    refine .of_eq ?_
    rw [lexJson_member (by decide)]
    unfold Options.fast
    rw [hfast]
    rfl
  have hclose : Base.Reads (ascii "\x7d") [.closeObj] True := .of_eq rfl
  have htokens : membersTokens [("fast_open", .bool o.fastOpen)] =
      [.str (ascii "fast_open"), .colon, .bool o.fastOpen] ++ ([.closeObj] ++ []) := by
    simp [membersTokens, memberTokens, commaUnless, Json.tokens]
  rw [htokens]
  exact (hline.cons (hclose.cons .hereDoc_nil)).congr (by simp)

/-! ## Files -/

/-- The address needs no escape. -/
theorem Address.bare (a : Address) : a.text.all isBare = true := by
  rw [List.all_eq_true]
  intro c hc
  have haddr := List.all_eq_true.mp a.bytes c hc
  have hne : ∀ d : UInt8, isAddressByte d = false → c ≠ d := by
    rintro d hd rfl
    rw [hd] at haddr
    cases haddr
  have hge : ¬ c < 0x20 := by
    intro hlt
    have h : ∀ k, k < 32 → isAddressByte (UInt8.ofNat k) = false := by decide
    have hfalse := forall_byte_lt (P := fun c ↦ isAddressByte c = false) h c hlt
    rw [hfalse] at haddr
    cases haddr
  simp [isBare, hne 0x22 (by decide), hne 0x5C (by decide), hge]

/-- The values are read as they are. -/
def ReadsAll (sh : Shell) (values : List Bytes) : Prop :=
  ∀ v ∈ values, lexJson (quoted (Options.get sh v)) = some [.str v]

/-- The line of an option that is a string. -/
theorem reads_optionLine (key : String) (hkey : (ascii key).all isBare = true) (sh : Shell)
    (v : Bytes) : Base.Reads (strLine key (Options.get sh v)) (lineTokens (key, .str v))
      (lexJson (quoted (Options.get sh v)) = some [.str v]) := reads_strLine key hkey _ v

/-- The lines with the method and what is behind it for `ssr`. -/
theorem reads_ssrLines (sh : Shell) (o : Options) :
    Base.Reads (hereDoc [strLine "password" (Options.get sh o.password),
        rawLine "timeout" (o.timeoutText sh), strLine "method" (Options.get sh o.encryptMethod),
        strLine "protocol" (Options.get sh o.protocol),
        strLine "protocol_param" (Options.get sh o.protocolParam),
        strLine "obfs" (Options.get sh o.obfs), strLine "obfs_param" (Options.get sh o.obfsParam),
        Base.member (ascii "fast_open") o.fast, ascii "\x7d"])
      (membersTokens [("password", .str o.password), ("timeout", .num o.timeoutNumber),
        ("method", .str o.encryptMethod), ("protocol", .str o.protocol),
        ("protocol_param", .str o.protocolParam), ("obfs", .str o.obfs),
        ("obfs_param", .str o.obfsParam), ("fast_open", .bool o.fastOpen)])
      (ReadsAll sh o.ssrValues) := by
  have hreads := Reads.member (reads_optionLine "password" (by decide) sh o.password) <|
    Reads.member (reads_timeoutLine sh o) <|
    Reads.member (reads_optionLine "method" (by decide) sh o.encryptMethod) <|
    Reads.member (reads_optionLine "protocol" (by decide) sh o.protocol) <|
    Reads.member (reads_optionLine "protocol_param" (by decide) sh o.protocolParam) <|
    Reads.member (reads_optionLine "obfs" (by decide) sh o.obfs) <|
    Reads.member (reads_optionLine "obfs_param" (by decide) sh o.obfsParam) <|
    reads_fastLine o
  refine hreads.congr ?_
  simp only [true_and, and_true, ReadsAll, Options.ssrValues, List.forall_mem_cons,
    List.not_mem_nil, false_imp_iff, implies_true]

namespace Call

variable (sh : Shell) (c : Call)

/-- The file for `ss`. -/
theorem denotes_ssLines :
    Base.Denotes (hereDoc (c.ssLines sh)) (object (("server", .str c.hostip.text) :: c.ssMembers)) ↔
      ReadsAll sh [c.options.password, c.options.encryptMethodSs] := by
  have hreads := Reads.object <|
    Reads.member (reads_strLine_bare "server" (by decide) c.hostip.bare) <|
    Reads.member (reads_portLine "server_port" (by decide) sh c.options) <|
    Reads.member (reads_strLine_bare "local_address" (by decide) c.listen.bare) <|
    Reads.member (reads_rawLine_num "local_port" (by decide) c.lport) <|
    Reads.member (reads_optionLine "password" (by decide) sh c.options.password) <|
    Reads.member (reads_timeoutLine sh c.options) <|
    Reads.member (reads_optionLine "method" (by decide) sh c.options.encryptMethodSs) <|
    Reads.member reads_reuseLine <| reads_fastLine c.options
  refine hreads.iff.trans ?_
  simp only [true_and, and_true, ReadsAll, List.forall_mem_cons, List.not_mem_nil,
    false_imp_iff, implies_true]

/-- The file for `ssr`. -/
theorem denotes_ssrLines :
    Base.Denotes (hereDoc (c.ssrLines sh)) (object c.ssrMembers) ↔ ReadsAll sh c.options.ssrValues := by
  have hreads := Reads.object <|
    Reads.member (reads_strLine_bare "server" (by decide) c.hostip.bare) <|
    Reads.member (reads_portLine "server_port" (by decide) sh c.options) <|
    Reads.member (reads_strLine_bare "local_address" (by decide) c.listen.bare) <|
    Reads.member (reads_rawLine_num "local_port" (by decide) c.lport) <|
    reads_ssrLines sh c.options
  refine hreads.iff.trans ?_
  simp only [true_and]

/-- A number needs no escape. -/
theorem bare_number (n : JsonNumber) : n.text.all isBare = true := by
  obtain ⟨hall, -⟩ := Bool.and_eq_true_iff.mp n.valid
  have h : ∀ k, k < 256 → isNumberByte (UInt8.ofNat k) = true → isBare (UInt8.ofNat k) = true := by
    decide +kernel
  rw [List.all_eq_true] at hall ⊢
  intro c hc
  exact forall_byte_lt (P := fun c ↦ isNumberByte c = true → isBare c = true) h c c.toNat_lt
    (hall c hc)

/-- The number of threads needs no escape. -/
theorem bare_concurrency : c.concurrency.all isBare = true := by
  unfold concurrency
  cases c.threads with
  | none => decide
  | some n => exact bare_number n

/-- What `naiveproxy` listens on needs no escape. -/
theorem bare_listen : (c.proto ++ ascii "://0.0.0.0:" ++ c.lport.text).all isBare = true := by
  have hproto : c.proto.all isBare = true := by
    unfold proto
    split <;> decide
  rw [List.all_append, List.all_append, hproto, bare_number]
  decide

/-- The address of the proxy as it is put in. -/
def proxyText : Bytes :=
  ascii "https://" ++ Options.get sh c.options.username ++ ascii ":" ++
    Options.get sh c.options.password ++ ascii "@" ++ Options.get sh c.options.server ++
    ascii ":" ++ c.options.port sh

/-- The address of the proxy. -/
def proxy : Bytes :=
  ascii "https://" ++ c.options.username ++ ascii ":" ++ c.options.password ++ ascii "@" ++
    c.options.server ++ ascii ":" ++ c.options.serverPort.text

/-- The file for `naiveproxy`. -/
theorem denotes_naiveLines :
    Base.Denotes (hereDoc (c.naiveLines sh)) (object c.naiveMembers) ↔
      lexJson (quoted (c.proxyText sh)) = some [.str c.proxy] := by
  have hline : Base.Reads (Base.member (ascii "concurrency") (quoted c.concurrency))
      [.str (ascii "concurrency"), .colon, .str c.concurrency] True := by
    refine .of_eq ?_
    rw [lexJson_member (by decide), lexJson_quoted_of_bare c.bare_concurrency]
    rfl
  have hclose : Base.Reads (ascii "\x7d") [.closeObj] True := .of_eq rfl
  have htokens : membersTokens [("concurrency", .str c.concurrency)] =
      [.str (ascii "concurrency"), .colon, .str c.concurrency] ++ ([.closeObj] ++ []) := by
    simp [membersTokens, memberTokens, commaUnless, Json.tokens]
  have hlast := hline.cons (hclose.cons .hereDoc_nil)
  rw [← htokens] at hlast
  have hreads := Reads.object <|
    Reads.member (reads_strLine_bare "listen" (by decide) c.bare_listen) <|
    Reads.member (reads_strLine "proxy" (by decide) (c.proxyText sh) c.proxy) hlast
  refine hreads.iff.trans ?_
  simp only [true_and, and_true]

end Call

namespace Options

variable (sh : Shell) (o : Options)

/-- The line with the addresses of a server. -/
theorem reads_serverLine : Base.Reads (ascii "\"server\":[\"::\",\"0.0.0.0\"],")
    (lineTokens serverMember) True := by
  have hline : lexJson (ascii "\"server\":[\"::\",\"0.0.0.0\"],") = some [.str (ascii "server"), .colon,
      .openArr, .str (ascii "::"), .comma, .str (ascii "0.0.0.0"), .closeArr, .comma] := by
    decide +kernel
  refine .of_eq (hline.trans ?_)
  simp [lineTokens, serverMember, Json.tokens, itemTokens, commaUnless]

/-- The file of a server for `ss`. -/
theorem denotes_ssServerLines :
    Base.Denotes (hereDoc (o.ssServerLines sh)) (object (serverMember :: o.ssServerMembers)) ↔
      ReadsAll sh [o.password, o.encryptMethodSs] := by
  have hreads := Reads.object <| Reads.member reads_serverLine <|
    Reads.member (reads_portLine "server_port" (by decide) sh o) <|
    Reads.member (reads_optionLine "password" (by decide) sh o.password) <|
    Reads.member (reads_timeoutLine sh o) <|
    Reads.member (reads_optionLine "method" (by decide) sh o.encryptMethodSs) <|
    reads_fastLine o
  refine hreads.iff.trans ?_
  simp only [true_and, and_true, ReadsAll, List.forall_mem_cons, List.not_mem_nil,
    false_imp_iff, implies_true]

/-- The file of a server for `ssr`. -/
theorem denotes_ssrServerLines :
    Base.Denotes (hereDoc (o.ssrServerLines sh)) (object o.ssrServerMembers) ↔
      ReadsAll sh o.ssrValues := by
  have hreads := Reads.object <| Reads.member reads_serverLine <|
    Reads.member (reads_portLine "server_port" (by decide) sh o) <| reads_ssrLines sh o
  refine hreads.iff.trans ?_
  simp only [true_and]

/-- No token starts with this letter. -/
theorem lexJson_m (l : Bytes) : lexJson (0x6D :: l) = none := by
  have hread : readToken 0x6D l = none := by
    unfold readToken
    have htake : (0x6D :: l).takeWhile isNumberByte = [] := List.takeWhile_cons_of_neg (by decide)
    simp [htake, isJsonNumber, isDigits]
  rw [lexJson_cons rfl, hread, Option.bind_none]

/-- What is behind a string that is followed by the start of a key cannot be read as the rest of it. -/
theorem sealed_key {c : UInt8} {l : Bytes} (hc : lexJson (c :: l) = none) :
    Sealed (0x2C :: 0x22 :: c :: l) := by
  intro body h
  rw [scanString_plain (by decide) (by decide), scanString_quote] at h
  obtain rfl := Option.some.inj h
  exact Or.inr hc

/-- The line with the password and the method of a server of 2022. -/
theorem reads_settingsLine : Base.Reads (o.settingsLine sh)
    ([.str (ascii "settings"), .colon, .openObj, .str (ascii "password"), .colon] ++
      [.str o.password] ++ ([.comma, .str (ascii "method"), .colon] ++ [.str o.encryptMethodSs] ++
        [.comma, .str (ascii "network"), .colon, .str (ascii "tcp,udp"), .closeObj, .comma]))
    (lexJson (quoted (get sh o.password)) = some [.str o.password] ∧
      lexJson (quoted (get sh o.encryptMethodSs)) = some [.str o.encryptMethodSs] ∧ True) := by
  have hend : Base.Reads (ascii ",\"network\":\"tcp,udp\"\x7d,")
      [.comma, .str (ascii "network"), .colon, .str (ascii "tcp,udp"), .closeObj, .comma] True :=
    .of_eq (by decide +kernel)
  have hsealed : Sealed (ascii ",\"network\":\"tcp,udp\"\x7d,") := sealed_key (by decide +kernel)
  have hmethod : ∀ l, lexJson (ascii ",\"method\":" ++ l) =
      (lexJson l).map ([.comma, .str (ascii "method"), .colon] ++ ·) := by
    intro l
    show lexJson (0x2C :: member (ascii "method") l) = _
    rw [lexJson_comma, lexJson_member (by decide), Option.map_map]
    rfl
  have hpassword : ∀ l, lexJson (ascii "\t\t\"settings\":\x7b\"password\":" ++ l) =
      (lexJson l).map
        ([.str (ascii "settings"), .colon, .openObj, .str (ascii "password"), .colon] ++ ·) := by
    intro l
    show lexJson (ascii "\t\t" ++ member (ascii "settings") (0x7B :: member (ascii "password") l)) = _
    rw [lexJson_blanks rfl, lexJson_member (by decide), lexJson_openObj, lexJson_member (by decide),
      Option.map_map, Option.map_map]
    rfl
  have hform : o.settingsLine sh = ascii "\t\t\"settings\":\x7b\"password\":" ++
      quoted (get sh o.password) ++ (ascii ",\"method\":" ++ quoted (get sh o.encryptMethodSs) ++
        ascii ",\"network\":\"tcp,udp\"\x7d,") := by
    simp [settingsLine, quoted, ascii]
  have hrest := Reads.string_append (b := get sh o.encryptMethodSs) (v := o.encryptMethodSs) hmethod
    hsealed hend
  rw [hform]
  exact Reads.string_append hpassword (sealed_key (lexJson_m _)) hrest

/-- Blanks in front of a line. -/
theorem reads_blanks {a l : Bytes} {e : List JsonToken} {P : Prop} (ha : a.all isJsonBlank = true)
    (h : Base.Reads l e P) : Base.Reads (a ++ l) e P := by
  have hlex := lexJson_blanks ha l
  exact ⟨fun ts hts ↦ h.bounds ts (hlex ▸ hts), by rw [hlex]; exact h.iff⟩

/-- The line with the socket options. -/
theorem lexJson_outboundsLine :
    lexJson o.outboundsLine =
      some [.str (ascii "outbounds"), .colon, .openArr, .openObj, .str (ascii "protocol"), .colon,
        .str (ascii "freedom"), .comma, .str (ascii "streamSettings"), .colon, .openObj,
        .str (ascii "sockopt"), .colon, .openObj, .str (ascii "tcpFastOpen"), .colon,
        .bool o.fastOpen, .closeObj, .closeObj, .closeObj, .closeArr] := by
  unfold outboundsLine fast
  cases o.fastOpen
  · decide +kernel
  · decide +kernel

/-- The file of a server of 2022. -/
theorem denotes_ss2022ServerLines :
    Base.Denotes (hereDoc (o.ss2022ServerLines sh)) o.ss2022ServerJson ↔
      ReadsAll sh [o.password, o.encryptMethodSs] := by
  have hopen : Base.Reads (ascii "\x7b") [.openObj] True := .of_eq rfl
  have hinbounds : Base.Reads (ascii "\t\"inbounds\":[\x7b")
      [.str (ascii "inbounds"), .colon, .openArr, .openObj] True := .of_eq (by decide +kernel)
  have hprotocol : Base.Reads (ascii "\t\t\"protocol\":\"shadowsocks\",")
      [.str (ascii "protocol"), .colon, .str (ascii "shadowsocks"), .comma] True :=
    .of_eq (by decide +kernel)
  have hsniffing : Base.Reads
      (ascii "\t\t\"sniffing\":\x7b\"enabled\":true,\"destOverride\":[\"http\", \"tls\"]\x7d")
      [.str (ascii "sniffing"), .colon, .openObj, .str (ascii "enabled"), .colon, .bool true, .comma,
        .str (ascii "destOverride"), .colon, .openArr, .str (ascii "http"), .comma,
        .str (ascii "tls"), .closeArr, .closeObj] True := .of_eq (by decide +kernel)
  have hend : Base.Reads (ascii "\t\x7d],") [.closeObj, .closeArr, .comma] True :=
    .of_eq (by decide +kernel)
  have hclose : Base.Reads (ascii "\x7d") [.closeObj] True := .of_eq rfl
  have hport := reads_blanks (a := ascii "\t\t") (by decide) (reads_portLine "port" (by decide) sh o)
  have hreads := hopen.cons <| hinbounds.cons <| hport.cons <| hprotocol.cons <|
    (o.reads_settingsLine sh).cons <| hsniffing.cons <| hend.cons <|
    (Base.Reads.of_eq o.lexJson_outboundsLine).cons <| hclose.cons .hereDoc_nil
  have htokens := hreads.iff
  unfold Base.Denotes
  refine Iff.trans (Iff.of_eq (congrArg (lexJson _ = ·) (congrArg some ?_))) (htokens.trans ?_)
  · simp [ss2022ServerJson, object, Json.tokens, itemTokens, memberTokens, commaUnless, lineTokens]
  · simp only [true_and, and_true, ReadsAll, List.forall_mem_cons, List.not_mem_nil,
      false_imp_iff, implies_true]

end Options

/-! ## Values and files -/

/-- Values that meet the condition are read as they are. -/
theorem readsAll_of_safe {sh : Shell} {values : List Bytes} (h : ∀ v ∈ values, Safe sh v) :
    ReadsAll sh values := fun v hv ↦ (h v hv).lexJson_quoted

/-- Values of which the words match no other names are read as they are only then. -/
theorem safe_of_readsAll {sh : Shell} {values : List Bytes} (hv : ∀ v ∈ values, Leaves sh.names v)
    (h : ReadsAll sh values) : ∀ v ∈ values, Safe sh v :=
  fun v hmem ↦ safe_of_lexJson_quoted (hv v hmem) (h v hmem)

namespace Call

variable {sh : Shell} {c : Call}

/-- The port of the proxy. -/
theorem port_eq (sh : Shell) (o : Options) : o.port sh = o.serverPort.text :=
  uciGetByName_number sh _ _

/-- The address of the proxy is read as it is where its values meet the condition. -/
theorem lexJson_proxy
    (h : ∀ v ∈ [c.options.username, c.options.password, c.options.server], Safe sh v) :
    lexJson (quoted (c.proxyText sh)) = some [.str c.proxy] := by
  simp only [List.forall_mem_cons, List.not_mem_nil, false_imp_iff, implies_true, and_true] at h
  obtain ⟨husername, hpassword, hserver⟩ := h
  have htext : c.proxyText sh = c.proxy := by
    unfold proxyText proxy
    rw [husername.get_eq, hpassword.get_eq, hserver.get_eq, port_eq]
  have hbare : c.proxy.all isBare = true := by
    unfold proxy
    simp only [List.all_append, husername.bare, hpassword.bare, hserver.bare, bare_number]
    decide
  rw [htext]
  exact lexJson_quoted_of_bare hbare

/-- The address of the proxy is read as it is only then where the words match no other names. -/
theorem safe_of_lexJson_proxy
    (hleaves : ∀ v ∈ [c.options.username, c.options.password, c.options.server], Leaves sh.names v)
    (h : lexJson (quoted (c.proxyText sh)) = some [.str c.proxy]) :
    ∀ v ∈ [c.options.username, c.options.password, c.options.server], Safe sh v := by
  simp only [List.forall_mem_cons, List.not_mem_nil, false_imp_iff, implies_true,
    and_true] at hleaves ⊢
  obtain ⟨husername, hpassword, hserver⟩ := hleaves
  have hu := length_get husername
  have hp := length_get hpassword
  have hs := length_get hserver
  have hport := port_eq sh c.options
  have hle : (c.proxyText sh).length ≤ c.proxy.length := by
    unfold proxyText proxy
    simp only [List.length_append, hport]
    omega
  obtain ⟨heq, hbare⟩ := eq_of_lexJson_quoted h hle
  have hlen := congrArg List.length heq
  unfold proxyText proxy at heq hlen
  simp only [List.length_append, hport] at hlen
  rw [hport] at heq
  -- no value is longer than it was, so that each keeps its length
  have heq₁ := List.append_cancel_right (List.append_cancel_right heq)
  obtain ⟨heq₂, hserverEq⟩ := List.append_inj' heq₁ (by omega)
  obtain ⟨heq₃, hpasswordEq⟩ := List.append_inj' (List.append_cancel_right heq₂) (by omega)
  have husernameEq := List.append_cancel_left (List.append_cancel_right heq₃)
  unfold proxy at hbare
  simp only [List.all_append, Bool.and_eq_true] at hbare
  exact ⟨safe_of_get_eq husername husernameEq hbare.1.1.1.1.1.1.2,
    safe_of_get_eq hpassword hpasswordEq hbare.1.1.1.1.2,
    safe_of_get_eq hserver hserverEq hbare.1.1.2⟩

end Call

end OpenWrtCompile.Overwall.ConfigFiles
