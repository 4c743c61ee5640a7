import OpenWrtCompile.Obfs.Tls12Handshake
import OpenWrtCompile.Server.TlsHeader

/-!
# The server name that the client sends

The host list of `tls12_ticket_auth_client_encode` (`tls1.2_ticket.c:139–228`) and the parser of
`tls.c`: which text the ClientHello carries as its server name, and that the parser returns it.
-/

namespace OpenWrtCompile.Obfs
open OpenWrtCompile.Base OpenWrtCompile.Server

/-- A host name of the list: something without a comma or a NUL that does not end in a digit. -/
structure IsHostEntry (e : Bytes) : Prop where
  ne_nil : e ≠ []
  comma : 0x2C ∉ e
  nul : 0 ∉ e
  last : ∀ c, e.getLast? = some c → ¬ (0x30 ≤ c ∧ c ≤ 0x39)

/-- An obfs param that lists host names, fewer than 256 bytes of it. -/
structure HostList where
  entries : List Bytes
  ne_nil : entries ≠ []
  hosts : ∀ e ∈ entries, IsHostEntry e
  short : ([0x2C].intercalate entries).length < 256

/-- The param as it is written. -/
def HostList.text (l : HostList) : Bytes := [0x2C].intercalate l.entries

/-- The message is a ClientHello with the one server name `e`, and the parser returns it. -/
def CarriesName (msg e : Bytes) : Prop :=
  (∃ hello : ClientHello, hello.record = msg ∧
    hello.extensions.map (List.filter fun x ↦ x.high = 0 ∧ x.low = 0) =
      some [⟨0, 0, serverNameBody e⟩]) ∧
    ∀ env : TlsEnv, env.hostnameNull = false → env.mallocFails = false →
      ∃ off, (parseTlsHeader env msg).result = .error (.name off e.length (e ++ [0]))

/-! ### The list and its pieces -/

theorem afterCommas_of_not_mem {e : Bytes} (h : 0x2C ∉ e) : afterCommas e = [] := by
  induction e with
  | nil => rfl
  | cons c e ih =>
    rw [List.mem_cons, not_or] at h
    rw [afterCommas, if_neg (Ne.symm h.1), ih h.2]

theorem afterCommas_append {e : Bytes} (t : Bytes) (h : 0x2C ∉ e) :
    afterCommas (e ++ 0x2C :: t) = t :: afterCommas t := by
  induction e with
  | nil => rfl
  | cons c e ih =>
    rw [List.mem_cons, not_or] at h
    rw [List.cons_append, afterCommas, if_neg (Ne.symm h.1), ih h.2]

/-- The pointers go to what each entry and those behind it make together. -/
theorem phost_intercalate {es : List Bytes} (h : ∀ e ∈ es, 0x2C ∉ e) (hne : es ≠ []) :
    phost ([0x2C].intercalate es) =
      (List.range es.length).map fun k ↦ [0x2C].intercalate (es.drop k) := by
  induction es with
  | nil => exact absurd rfl hne
  | cons e es ih =>
    have he := h e List.mem_cons_self
    cases es with
    | nil => simp [phost, afterCommas_of_not_mem he]
    | cons x es =>
      have hrest := ih (fun y hy ↦ h y (List.mem_cons_of_mem e hy)) (List.cons_ne_nil _ _)
      have hjoin : [0x2C].intercalate (e :: x :: es) =
          e ++ 0x2C :: [0x2C].intercalate (x :: es) := by
        rw [List.intercalate_cons_cons, List.append_assoc, List.singleton_append]
      rw [hjoin, phost, afterCommas_append _ he, List.length_cons, List.range_succ_eq_map,
        List.map_cons, List.map_map]
      rw [phost] at hrest
      rw [hrest, ← hjoin]
      rfl

/-- A joined list of two entries or more has a comma. -/
theorem comma_mem_intercalate {es : List Bytes} (h : 1 < es.length) :
    0x2C ∈ [0x2C].intercalate es := by
  match es, h with
  | e :: x :: es, _ => simp [List.intercalate_cons_cons]

/-- Without its first entries a joined list is a part of itself. -/
theorem intercalate_drop_suffix (es : List Bytes) (k : Nat) :
    [0x2C].intercalate (es.drop k) <:+ [0x2C].intercalate es := by
  induction es generalizing k with
  | nil => simp
  | cons e es ih =>
    cases k with
    | zero => exact List.suffix_refl _
    | succ k =>
      rw [List.drop_succ_cons]
      refine (ih k).trans ?_
      cases es with
      | nil => exact List.nil_suffix
      | cons x es =>
        rw [List.intercalate_cons_cons]
        exact List.suffix_append _ _

/-- Each entry of a list takes a byte, and a comma before the next. -/
theorem length_le_intercalate {es : List Bytes} (h : ∀ e ∈ es, e ≠ []) :
    2 * es.length ≤ ([0x2C].intercalate es).length + 1 := by
  induction es with
  | nil => simp
  | cons e es ih =>
    have he := List.length_pos_iff.mpr (h e List.mem_cons_self)
    have hrest := ih fun y hy ↦ h y (List.mem_cons_of_mem e hy)
    cases es with
    | nil =>
      rw [List.intercalate_singleton, List.length_singleton]
      omega
    | cons x es =>
      rw [List.intercalate_cons_cons, List.length_append, List.length_append, List.length_cons,
        List.length_singleton]
      omega

/-- The end of a joined list is the end of its last entry. -/
theorem getLast?_intercalate {es : List Bytes} (h : ∀ e ∈ es, IsHostEntry e) (hne : es ≠ []) :
    ∃ e ∈ es, ([0x2C].intercalate es).getLast? = e.getLast? := by
  induction es with
  | nil => exact absurd rfl hne
  | cons e es ih =>
    cases es with
    | nil => exact ⟨e, List.mem_cons_self, by rw [List.intercalate_singleton]⟩
    | cons x es =>
      obtain ⟨y, hy, hlast⟩ := ih (fun z hz ↦ h z (List.mem_cons_of_mem e hz))
        (List.cons_ne_nil _ _)
      refine ⟨y, List.mem_cons_of_mem e hy, ?_⟩
      have hyne := (h y (List.mem_cons_of_mem e hy)).ne_nil
      have hsome : ([0x2C].intercalate (x :: es)).getLast? ≠ none := by
        rw [hlast, Ne, List.getLast?_eq_none_iff]
        exact hyne
      rw [List.intercalate_cons_cons, List.append_assoc, List.getLast?_append, List.getLast?_append,
        hlast]
      cases hl : y.getLast? with
      | none => exact absurd (List.getLast?_eq_none_iff.mp hl) hyne
      | some c => rfl

theorem not_mem_intercalate {c : UInt8} {es : List Bytes} (hc : c ≠ 0x2C) (h : ∀ e ∈ es, c ∉ e) :
    c ∉ [0x2C].intercalate es := by
  induction es with
  | nil => simp
  | cons e es ih =>
    have he := h e List.mem_cons_self
    have hrest := ih fun y hy ↦ h y (List.mem_cons_of_mem e hy)
    cases es with
    | nil => simpa using he
    | cons x es =>
      rw [List.intercalate_cons_cons]
      simp only [List.mem_append, List.mem_singleton, not_or]
      exact ⟨⟨he, hc⟩, hrest⟩

namespace HostList
variable (l : HostList)

/-- The entry that a draw points at. -/
def picked (draw : UInt64) : Nat := draw.toNat % l.entries.length

/-- The chosen entry and everything behind it. -/
def chosen (draw : UInt64) : Bytes := [0x2C].intercalate (l.entries.drop (l.picked draw))

theorem picked_lt (draw : UInt64) : l.picked draw < l.entries.length :=
  Nat.mod_lt _ (List.length_pos_iff.mpr l.ne_nil)

theorem phost_text : phost l.text =
    (List.range l.entries.length).map fun k ↦ [0x2C].intercalate (l.entries.drop k) :=
  phost_intercalate (fun e he ↦ (l.hosts e he).comma) l.ne_nil

theorem chosenHost_text (draw : UInt64) : chosenHost l.text draw = l.chosen draw := by
  have hlt := l.picked_lt draw
  rw [chosenHost, phost_text, List.length_map, List.length_range, List.getElem?_map]
  rw [show draw.toNat % l.entries.length = l.picked draw from rfl, List.getElem?_range hlt]
  rfl

theorem drop_ne_nil (draw : UInt64) : l.entries.drop (l.picked draw) ≠ [] := by
  rw [Ne, List.drop_eq_nil_iff, not_le]
  exact l.picked_lt draw

theorem hosts_drop (draw : UInt64) : ∀ e ∈ l.entries.drop (l.picked draw), IsHostEntry e :=
  fun e he ↦ l.hosts e (List.mem_of_mem_drop he)

theorem length_chosen_le (draw : UInt64) : (l.chosen draw).length ≤ l.text.length :=
  (intercalate_drop_suffix l.entries _).length_le

theorem text_ne_nil : l.text ≠ [] := by
  have hmany := length_le_intercalate fun e he ↦ (l.hosts e he).ne_nil
  have hpos := List.length_pos_iff.mpr l.ne_nil
  have htext : ([0x2C].intercalate l.entries).length = l.text.length := rfl
  exact List.length_pos_iff.mp (by omega)

theorem nul_not_mem_text : 0 ∉ l.text :=
  not_mem_intercalate (by decide) fun e he ↦ (l.hosts e he).nul

theorem nul_not_mem_chosen (draw : UInt64) : 0 ∉ l.chosen draw :=
  not_mem_intercalate (by decide) fun e he ↦ (l.hosts_drop draw e he).nul

/-- The chosen text does not end in a digit, so it is what the message names. -/
theorem serverName_text (draw : UInt64) : serverName l.text draw = l.chosen draw := by
  obtain ⟨e, he, hlast⟩ := getLast?_intercalate (l.hosts_drop draw) (l.drop_ne_nil draw)
  have hhost := l.hosts_drop draw e he
  rw [serverName, chosenHost_text, if_neg]
  rw [chosen, hlast]
  cases hl : e.getLast? with
  | none => simp
  | some c => simpa using hhost.last c hl

theorem hostFits_text (draw : UInt64) : hostFits l.text draw = true := by
  have hshort : l.text.length < 256 := l.short
  have hmany := length_le_intercalate fun e he ↦ (l.hosts e he).ne_nil
  have hchosen := l.length_chosen_le draw
  have htext : ([0x2C].intercalate l.entries).length = l.text.length := rfl
  rw [hostFits, chosenHost_text, phost_text, List.length_map, List.length_range]
  simp only [Bool.and_eq_true, decide_eq_true_eq]
  omega

theorem chosen_ne_nil (draw : UInt64) : l.chosen draw ≠ [] := by
  have hmany := length_le_intercalate fun e he ↦ (l.hosts_drop draw e he).ne_nil
  have hpos := List.length_pos_iff.mpr (l.drop_ne_nil draw)
  have htext : ([0x2C].intercalate (l.entries.drop (l.picked draw))).length =
    (l.chosen draw).length := rfl
  exact List.length_pos_iff.mp (by omega)

/-- The chosen text is one entry exactly when the last entry was picked. -/
theorem chosen_mem_iff (draw : UInt64) :
    l.chosen draw ∈ l.entries ↔ l.picked draw = l.entries.length - 1 := by
  have hlt := l.picked_lt draw
  constructor
  · intro hmem
    by_contra hne
    have hmany : 1 < (l.entries.drop (l.picked draw)).length := by
      rw [List.length_drop]
      omega
    exact (l.hosts _ hmem).comma (comma_mem_intercalate hmany)
  · intro hk
    have hone : l.entries.drop (l.picked draw) = [l.entries[l.picked draw]] := by
      rw [List.drop_eq_getElem_cons hlt, List.drop_of_length_le (by omega)]
    rw [chosen, hone, List.intercalate_singleton]
    exact List.getElem_mem hlt

theorem hostsText_text (info : ServerInfo) (host : Bytes) :
    hostsText { info with param := some l.text } host = l.text := by
  rw [hostsText]
  simp only [cString_of_not_mem l.nul_not_mem_text, if_neg l.text_ne_nil]

end HostList

/-! ### The message -/

/-- The extensions of the ClientHello. -/
def helloExtensions (sni rand : Bytes) : List Extension :=
  [⟨0xFF, 0x01, [0x00]⟩, ⟨0x00, 0x00, serverNameBody sni⟩, ⟨0x00, 0x17, []⟩, ⟨0x00, 0x23, rand⟩,
    ⟨0x00, 0x0D, tlsData3.drop 4 |>.take 22⟩, ⟨0x00, 0x05, [0x01, 0x00, 0x00, 0x00, 0x00]⟩,
    ⟨0x00, 0x12, []⟩, ⟨0x75, 0x50, []⟩, ⟨0x00, 0x0B, [0x01, 0x00]⟩,
    ⟨0x00, 0x0A, [0x00, 0x04, 0x00, 0x17, 0x00, 0x18]⟩]

/-- `tls_data` is these extensions, one behind the other. -/
theorem tlsData_eq (sni rand : Bytes) (hrand : rand.length = 208) :
    tlsData sni rand = (helloExtensions sni rand).flatMap Extension.bytes := by
  have hname : serverNameBody sni =
      bytes16 (sni.length + 3) ++ ([0] ++ (bytes16 sni.length ++ sni)) := by
    rw [serverNameBody, vector16, List.length_cons, length_vector16]
    rfl
  have hticket : vector16 rand = [0x00, 0xD0] ++ rand := by
    rw [vector16, hrand]
    rfl
  simp only [helloExtensions, List.flatMap_cons, List.flatMap_nil, Extension.bytes, hticket]
  simp only [vector16, hname, tlsData, List.append_assoc]
  rfl

/-- The fields of the ClientHello. -/
def helloFields (auth clientId sni rand : Bytes) : HelloFields where
  recordMinor := 0x01
  version := [0x03, 0x03]
  random := auth
  sessionId := clientId
  suites := (tlsData0.drop 2).take 28
  compression := [0x00]
  extensions := some (helloExtensions sni rand)

section hello
variable {auth clientId sni rand : Bytes} (hauth : auth.length = 32) (hid : clientId.length = 32)
  (hrand : rand.length = 208)

include hrand in
theorem length_tlsData : (tlsData sni rand).length = sni.length + 289 := by
  simp only [tlsData, List.length_append, hrand, tlsData1, tlsData2, tlsData3, List.length_cons,
    List.length_nil, bytes16]
  omega

include hid hrand in
theorem body_helloFields : (helloFields auth clientId sni rand).body =
    helloBody auth clientId (tlsData sni rand) := by
  have hsession : vector8 clientId = [0x20] ++ clientId := by
    rw [vector8, hid]
    rfl
  simp only [HelloFields.body, HelloFields.extensionBlock, helloFields, hsession, helloBody,
    ← tlsData_eq sni rand hrand, List.append_assoc]
  rfl

include hauth hid hrand in
theorem length_body_helloFields (sni : Bytes) :
    (helloFields auth clientId sni rand).body.length = sni.length + 390 := by
  rw [body_helloFields hid hrand]
  simp only [helloBody, List.length_append, length_tlsData hrand, hauth, hid, tlsData0,
    List.length_cons, List.length_nil, bytes16]
  omega

include hauth hid hrand in
/-- The message is what the client writes backwards from the end of its block. -/
theorem record_helloFields (hsni : sni.length < 256) :
    (helloFields auth clientId sni rand).record =
      wrapHello (helloBody auth clientId (tlsData sni rand)) := by
  have hlength := length_body_helloFields hauth hid hrand sni
  have hhigh : (helloFields auth clientId sni rand).body.length / 65536 = 0 := by omega
  have hmessage : (helloFields auth clientId sni rand).message =
      [0x01, 0x00] ++ bytes16 (helloFields auth clientId sni rand).body.length ++
        (helloFields auth clientId sni rand).body := by
    rw [HelloFields.message, hhigh]
    rfl
  have hsize : (helloFields auth clientId sni rand).message.length =
      (helloFields auth clientId sni rand).body.length + 4 := by
    rw [hmessage]
    simp only [List.length_append, bytes16, List.length_cons, List.length_nil]
    omega
  rw [HelloFields.record, vector16, hsize, hmessage, wrapHello, body_helloFields hid hrand]
  simp only [List.append_assoc]
  rfl

theorem length_suites : (helloFields auth clientId sni rand).suites.length < 65536 := by
  show ((tlsData0.drop 2).take 28).length < 65536
  decide

theorem length_compression : (helloFields auth clientId sni rand).compression.length < 256 := by
  show [(0x00 : UInt8)].length < 256
  decide

include hid in
theorem length_sessionId : (helloFields auth clientId sni rand).sessionId.length < 256 := by
  show clientId.length < 256
  omega

include hauth hid hrand in
theorem length_message (hsni : sni.length < 256) :
    (helloFields auth clientId sni rand).message.length < 65536 := by
  have := length_body_helloFields hauth hid hrand sni
  simp only [HelloFields.message, List.length_cons, List.length_append, bytes16, List.length_nil]
  omega

/-- These fields make a well-formed ClientHello. -/
def helloOf (hsni : sni.length < 256) : ClientHello where
  toHelloFields := helloFields auth clientId sni rand
  version_length := rfl
  random_length := hauth
  sessionId_length := length_sessionId hid
  suites_length := length_suites
  compression_length := length_compression
  message_length := length_message hauth hid hrand hsni

include hauth hid hrand in
/-- The parser returns the name the client wrote. -/
theorem parseTlsHeader_wrapHello {env : TlsEnv} (hnull : env.hostnameNull = false)
    (hmem : env.mallocFails = false) (hsni : sni.length < 256) (hne : sni ≠ []) (hz : 0 ∉ sni) :
    ∃ off, (parseTlsHeader env (wrapHello (helloBody auth clientId (tlsData sni rand)))).result =
      .error (.name off sni.length (sni ++ [0])) := by
  rw [← record_helloFields hauth hid hrand hsni]
  have hother : ∀ e ∈ [(⟨0xFF, 0x01, [0x00]⟩ : Extension)], ¬ (e.high = 0 ∧ e.low = 0) := by
    intro e he
    rw [List.mem_singleton.mp he]
    decide
  exact parseTlsHeader_clientHello hnull hmem (helloOf hauth hid hrand hsni) rfl hother hne hz

end hello

/-- The first flight names the chosen entry together with everything behind it, and nothing else. -/
theorem exists_clientEncode (hmac : Bytes → Bytes → Bytes)
    (hlength : ∀ k d, obfsHmacSha1Len ≤ (hmac k d).length) (info : ServerInfo) (l : HostList)
    (host : Bytes) (g : GlobalData) (hid : g.localClientId.length = 32) (ld : LocalData)
    (hstart : ld.handshakeStatus = .start) (c : Call) :
    ∃ ld' msg, clientEncode hmac { info with param := some l.text } host g ld c = some (ld', msg) ∧
      ∀ e, CarriesName msg e ↔ e = l.chosen (c.draw 0) := by
  have hauth : (packAuthData hmac { info with param := some l.text } g c.now
      (c.randBytes 208 18)).length = 32 := by
    rw [packAuthData, List.length_append, length_take_hmac hlength, List.length_append,
      Call.length_randBytes]
    rfl
  have hrand : (c.randBytes 0 208).length = 208 := Call.length_randBytes ..
  have hsni : (l.chosen (c.draw 0)).length < 256 :=
    lt_of_le_of_lt (l.length_chosen_le _) l.short
  have hencode : clientEncode hmac { info with param := some l.text } host g ld c =
      some ({ ld with sendBuffer := ld.sendBuffer ++ packData c.data
                      handshakeStatus := .clientHelloSent },
        wrapHello (helloBody (packAuthData hmac { info with param := some l.text } g c.now
          (c.randBytes 208 18)) g.localClientId
          (tlsData (l.chosen (c.draw 0)) (c.randBytes 0 208)))) := by
    rw [clientEncode, if_neg (by rw [hstart]; decide)]
    simp only [hstart, if_true, clientHello, l.hostsText_text, l.hostFits_text, l.serverName_text,
      Option.map_some]
  refine ⟨_, _, hencode, fun e ↦ ?_⟩
  have hparse (env : TlsEnv) (h₁ : env.hostnameNull = false) (h₂ : env.mallocFails = false) :=
    parseTlsHeader_wrapHello hauth hid hrand h₁ h₂ hsni (l.chosen_ne_nil _) (l.nul_not_mem_chosen _)
  constructor
  · rintro ⟨-, hname⟩
    -- both names come from the one run of the parser
    obtain ⟨off, hoff⟩ := hname ⟨true, false, false⟩ rfl rfl
    obtain ⟨off', hoff'⟩ := hparse ⟨true, false, false⟩ rfl rfl
    rw [hoff] at hoff'
    exact List.append_cancel_right (SniReply.name.inj (Except.error.inj hoff')).2.2
  · rintro rfl
    exact ⟨⟨helloOf hauth hid hrand hsni, record_helloFields hauth hid hrand hsni, rfl⟩, hparse⟩

/-- For every list of hosts and every draw, the ClientHello carries one entry of the list, and the
parser returns it, exactly when the draw falls on the last entry: otherwise the entries behind the
picked one are part of the name. -/
theorem clientEncode_carriesName_iff (hmac : Bytes → Bytes → Bytes)
    (hlength : ∀ k d, obfsHmacSha1Len ≤ (hmac k d).length) (info : ServerInfo) (l : HostList)
    (host : Bytes) (g : GlobalData) (hid : g.localClientId.length = 32) (ld : LocalData)
    (hstart : ld.handshakeStatus = .start) (c : Call) :
    ∃ ld' msg, clientEncode hmac { info with param := some l.text } host g ld c = some (ld', msg) ∧
      ((∃ e ∈ l.entries, CarriesName msg e) ↔
        (c.draw 0).toNat % l.entries.length = l.entries.length - 1) := by
  obtain ⟨ld', msg, hencode, hcarries⟩ := exists_clientEncode hmac hlength info l host g hid ld
    hstart c
  refine ⟨ld', msg, hencode, ?_⟩
  simp only [hcarries, exists_eq_right]
  exact l.chosen_mem_iff (c.draw 0)

/-- `a,bc`. -/
def twoHosts : HostList where
  entries := [ascii "a", ascii "bc"]
  ne_nil := by decide
  hosts := by
    simp only [List.forall_mem_cons, List.not_mem_nil, false_implies, implies_true, and_true]
    refine ⟨⟨by decide, by decide, by decide, ?_⟩, ⟨by decide, by decide, by decide, ?_⟩⟩
    · rintro c ⟨⟩
      decide
    · rintro c ⟨⟩
      decide
  short := by decide

/-- A first call with every draw at `n`. -/
def firstCall (n : UInt64) : Call := ⟨[], fun _ ↦ n, fun _ ↦ 0, 0⟩

/-- A client with 32 bytes of id. -/
def someClient : GlobalData := ⟨List.replicate 32 0, [], 0⟩

theorem clientEncode_carriesName_iff_twoHosts :
    ∃ ld' msg, clientEncode (fun _ _ ↦ List.replicate 20 0) ⟨[], some twoHosts.text⟩ [] someClient
        localDataInit (firstCall 1) = some (ld', msg) ∧
      ((∃ e ∈ twoHosts.entries, CarriesName msg e) ↔
        ((firstCall 1).draw 0).toNat % twoHosts.entries.length = twoHosts.entries.length - 1) :=
  clientEncode_carriesName_iff _ (fun _ _ ↦ by decide) ⟨[], none⟩ twoHosts [] someClient (by decide)
    localDataInit rfl (firstCall 1)

/-- With the first of two hosts drawn, the name in the ClientHello is the whole list. -/
theorem clientEncode_carries_list :
    ∃ ld' msg, clientEncode (fun _ _ ↦ List.replicate 20 0) ⟨[], some twoHosts.text⟩ [] someClient
        localDataInit (firstCall 0) = some (ld', msg) ∧
      CarriesName msg (ascii "a,bc") ∧ ¬ ∃ e ∈ twoHosts.entries, CarriesName msg e := by
  obtain ⟨ld', msg, hencode, hcarries⟩ := exists_clientEncode (fun _ _ ↦ List.replicate 20 0)
    (fun _ _ ↦ by decide) ⟨[], none⟩ twoHosts [] someClient (by decide) localDataInit rfl
    (firstCall 0)
  refine ⟨ld', msg, hencode, (hcarries _).mpr (by decide), ?_⟩
  simp only [hcarries, exists_eq_right]
  decide

end OpenWrtCompile.Obfs
