import OpenWrtCompile.Http.Transparency

/-!
# The host of a request and the list of hosts

`shadowsocksr-libev/src/server/http_simple.c:114–144, 177–248, 290–370, 382–472`: the client draws a
host of `param` and writes `Host: name:port`, without the port where it is 80; the server reads the
host up to the first `:` of all that follows, and compares it with the names of `param`.
-/

namespace OpenWrtCompile.Http
open OpenWrtCompile.Base

/-- `phost[host_num]`: the host that the client draws. -/
def chosenHost (info : ServerInfo) (draws : Draws) : Bytes :=
  (splitHosts info.hosts).1.getD (draws.pick.toNat % (splitHosts info.hosts).1.length) []

/-- The server takes the whole request of a client: where it has a list of hosts, the host it reads is
the one that the client chose, and one of the list. -/
def Recognised (plugin : Plugin) (draws : Draws) (client server : ServerInfo) (mem : Memory)
    (data : Bytes) : Prop :=
  ∃ o wire, plugin.clientEncode draws (httpSimpleNewObfs client) data = some (o, wire) ∧
    (∃ o' out, httpSimpleServerDecode mem (httpSimpleNewObfs server) wire = some (o', some out)) ∧
    ∀ param, server.param = some param → cString param 0 ≠ [] →
      getHostFromHttpHeader (cString mem.freshHost 0) (wire ++ mem.behindRecv) =
          some (chosenHost client draws) ∧
        chosenHost client draws ∈ (splitHosts (cString param 0)).1

/-- The first `:` ends the host: a port follows it, and it holds none itself. Where nothing stands in
front of the first `:`, nothing is copied, and the host is what the new block holds. -/
def HostRead (info : ServerInfo) (draws : Draws) (mem : Memory) : Prop :=
  (info.port ≠ 80 ∧ chosenHost info draws ≠ [] ∧ 0x3A ∉ chosenHost info draws) ∨
    ((hostport info draws).head? = some 0x3A ∧ cString mem.freshHost 0 = chosenHost info draws)

/-- `hostport`, without the port where it is 80. -/
theorem hostport_eq (info : ServerInfo) (draws : Draws) :
    hostport info draws =
      if info.port = 80 then chosenHost info draws
      else chosenHost info draws ++ 0x3A :: decimal info.port.toNat := by
  unfold hostport chosenHost
  split
  · rfl
  · exact List.append_assoc _ _ _

/-- There is a host to draw. -/
theorem splitHosts_ne_nil (s : Bytes) : (splitHosts s).1 ≠ [] := by
  induction s with
  | nil => exact List.cons_ne_nil _ _
  | cons c s ih =>
    unfold splitHosts
    split
    · exact List.cons_ne_nil _ _
    · split
      · next h =>
        rw [h] at ih
        exact absurd rfl ih
      · split
        · exact List.cons_ne_nil _ _
        · exact List.cons_ne_nil _ _

/-- The host that is drawn is one of the list. -/
theorem chosenHost_mem (info : ServerInfo) (draws : Draws) :
    chosenHost info draws ∈ (splitHosts info.hosts).1 := by
  have hpos := List.length_pos_iff.mpr (splitHosts_ne_nil info.hosts)
  have hlt := Nat.mod_lt draws.pick.toNat hpos
  rw [chosenHost, List.getD_eq_getElem?_getD, List.getElem?_eq_getElem hlt, Option.getD_some]
  exact List.getElem_mem hlt

/-- Without `#` there is no body. -/
theorem splitHosts_body {s : Bytes} (h : 0x23 ∉ s) : (splitHosts s).2 = none := by
  induction s with
  | nil => rfl
  | cons c s ih =>
    rw [List.mem_cons, not_or] at h
    have hrest := ih h.2
    unfold splitHosts
    rw [if_neg (Ne.symm h.1)]
    split
    · next hs =>
      rw [hs] at hrest
      exact hrest
    · next hs =>
      rw [hs] at hrest
      split <;> exact hrest

/-! ## The host that is read -/

/-- A list is cut at its first `c` in one way. -/
theorem takeWhile_append_cons {c : UInt8} {a : Bytes} (b : Bytes) (h : c ∉ a) :
    (a ++ c :: b).takeWhile (· ≠ c) = a := by
  rw [List.takeWhile_append_of_pos]
  · simp
  · intro x hx
    apply decide_eq_true
    rintro rfl
    exact h hx

/-- `Host: ` is found behind the first line, which holds no `:`. -/
theorem find?_host (plugin : Plugin) (head rest : Bytes) :
    Search.find? (ascii "Host: ") (requestLine plugin head ++ ascii "\r\nHost: " ++ rest) =
      some ((requestLine plugin head).length + 2) := by
  have hcolon : (0x3A : UInt8) ∉ requestLine plugin head ++ ascii "\r\nHost" := by
    rw [List.mem_append, not_or]
    exact ⟨not_mem_requestLine plugin head (by decide), by decide⟩
  have hname : ascii "\r\nHost: " = crlf ++ ascii "Host: " := by decide
  have hbefore : requestLine plugin head ++ crlf ++ (ascii "Host: ").dropLast =
      requestLine plugin head ++ ascii "\r\nHost" ++ 0x3A :: [] := by
    have hlast : crlf ++ (ascii "Host: ").dropLast = ascii "\r\nHost" ++ [0x3A] := by decide
    rw [List.append_assoc, hlast, List.append_assoc]
  have hnot : ¬ ascii "Host: " <:+: requestLine plugin head ++ crlf ++ (ascii "Host: ").dropLast := by
    rintro ⟨u, v, huv⟩
    have hinner : u ++ ascii "Host: " ++ v = (u ++ ascii "Host") ++ 0x3A :: (0x20 :: v) := by
      have hlast : ascii "Host: " = ascii "Host" ++ [0x3A, 0x20] := by decide
      rw [hlast, List.append_assoc, List.append_assoc, List.append_assoc]
      rfl
    rw [hbefore, hinner] at huv
    have hends := (List.append_cons_inj_of_notMem hcolon List.not_mem_nil).mp huv.symm
    cases hends.2.2
  rw [hname, ← List.append_assoc, Search.find?_append_sep rest hnot, List.length_append]
  rfl

/-- The host is what stands in front of the first `:` behind `Host: `. -/
theorem getHost_request (plugin : Plugin) (head fresh rest : Bytes) {a : Bytes} (hnul : 0 ∉ a)
    (hcolon : 0x3A ∉ a) (hlen : a.length ≤ 1024) :
    getHostFromHttpHeader fresh
        (requestLine plugin head ++ ascii "\r\nHost: " ++ (a ++ 0x3A :: rest)) =
      some (if a = [] then fresh else a) := by
  have hstart : 0 ∉ requestLine plugin head ++ ascii "\r\nHost: " := by
    rw [List.mem_append, not_or]
    exact ⟨not_mem_requestLine plugin head (by decide), by decide⟩
  have hafter : 0 ∉ a ++ [0x3A] := by
    rw [List.mem_append, not_or]
    exact ⟨hnul, by decide⟩
  have hstring (t : Bytes) : cString (a ++ 0x3A :: t) 0 = a ++ 0x3A :: cString t 0 := by
    have h := cString_append t hafter
    rwa [List.append_assoc, List.append_assoc] at h
  have hhost : strstr (requestLine plugin head ++ ascii "\r\nHost: " ++ (a ++ 0x3A :: rest))
      (ascii "Host: ") = some ((requestLine plugin head).length + 2) := by
    rw [strstr, cString_append _ hstart]
    exact find?_host plugin head _
  have hbegin : (cString (requestLine plugin head ++ ascii "\r\nHost: " ++ (a ++ 0x3A :: rest)) 0).drop
      ((requestLine plugin head).length + 2 + 6) = a ++ 0x3A :: cString rest 0 := by
    have hlength : (requestLine plugin head).length + 2 + 6 =
        (requestLine plugin head ++ ascii "\r\nHost: ").length := by
      rw [List.length_append]
      rfl
    rw [cString_append _ hstart, hstring, hlength, List.drop_left]
  have hfind : strstr (a ++ 0x3A :: cString rest 0) (ascii ":") = some a.length := by
    have hpat : ascii ":" = [0x3A] := by decide
    have hself : Search.find? [0x3A] (0x3A :: cString (cString rest 0) 0) = some 0 :=
      Search.find?_at_start ⟨_, rfl⟩
    rw [strstr, hpat, hstring, Search.find?_append_of_not_mem _ hcolon, hself]
    rfl
  simp only [getHostFromHttpHeader, hhost, hbegin, hfind]
  by_cases hnil : a = []
  · rw [if_pos hnil, if_pos (List.length_eq_zero_iff.mpr hnil)]
  · rw [if_neg hnil, if_neg (mt List.length_eq_zero_iff.mp hnil), if_neg (Nat.not_lt.mpr hlen),
      List.take_left]

/-- The lines behind `Host` without a body of the user's: their first `:` ends `User-Agent`. -/
theorem headerLines_none (plugin : Plugin) (draws : Draws) :
    ∃ rest, headerLines plugin draws none = ascii "User-Agent" ++ 0x3A :: rest := by
  have hagent : ascii "User-Agent: " = ascii "User-Agent" ++ 0x3A :: [0x20] := by decide
  unfold headerLines
  simp only [hagent, List.append_assoc, List.cons_append]
  exact ⟨_, rfl⟩

/-- What follows `Host: ` is cut at its first `:`, which comes soon. -/
theorem exists_first_colon (plugin : Plugin) (draws : Draws) (info : ServerInfo) (head : Bytes)
    (hbody : (splitHosts info.hosts).2 = none) (hfits : (hostport info draws).length < 128) :
    ∃ a b, requestHeader plugin draws info head =
        requestLine plugin head ++ ascii "\r\nHost: " ++ (a ++ 0x3A :: b) ∧
      hostport info draws ++ crlf ++ headerLines plugin draws none = a ++ 0x3A :: b ∧
      0 ∉ a ∧ 0x3A ∉ a ∧ a.length ≤ 1024 := by
  obtain ⟨rest, hrest⟩ := headerLines_none plugin draws
  have htext : hostport info draws ++ crlf ++ headerLines plugin draws none =
      (hostport info draws ++ crlf ++ ascii "User-Agent") ++ 0x3A :: rest := by
    rw [hrest, List.append_assoc _ (ascii "User-Agent")]
  have hmem : (0x3A : UInt8) ∈ hostport info draws ++ crlf ++ headerLines plugin draws none := by
    rw [htext]
    exact List.mem_append_right _ List.mem_cons_self
  obtain ⟨a, b, hab, hfirst⟩ := List.eq_append_cons_of_mem hmem
  have hheader : requestHeader plugin draws info head =
      requestLine plugin head ++ ascii "\r\nHost: " ++ (a ++ 0x3A :: b) := by
    rw [← hab, requestHeader, hbody, List.append_assoc, List.append_assoc]
    simp only [List.append_assoc]
  refine ⟨a, b, hheader, hab, ?_, hfirst, ?_⟩
  · intro hnul
    apply not_mem_requestHeader plugin draws info head
    rw [hheader]
    exact List.mem_append_right _ (List.mem_append_left _ hnul)
  · -- the `:` behind `User-Agent` is not in front of the first one
    by_contra hlong
    apply hfirst
    have hthere : hostport info draws ++ crlf ++ ascii "User-Agent" ++ [0x3A] <+: a ++ 0x3A :: b := by
      rw [← hab, htext]
      exact ⟨rest, by rw [List.append_assoc]; rfl⟩
    have hpre := List.prefix_of_prefix_length_le hthere (List.prefix_append a (0x3A :: b)) (by
      have hagent : (ascii "User-Agent").length = 10 := rfl
      have hcrlf : crlf.length = 2 := rfl
      simp only [List.length_append, hagent, hcrlf, List.length_cons, List.length_nil]
      omega)
    exact hpre.subset (List.mem_append_right _ List.mem_cons_self)

/-- When the host that is read is the one that was chosen. -/
theorem getHost_eq_chosen_iff (plugin : Plugin) (draws : Draws) (info : ServerInfo) (mem : Memory)
    (head rest : Bytes) (hbody : (splitHosts info.hosts).2 = none)
    (hfits : (hostport info draws).length < 128) :
    getHostFromHttpHeader (cString mem.freshHost 0) (requestHeader plugin draws info head ++ rest) =
        some (chosenHost info draws) ↔ HostRead info draws mem := by
  obtain ⟨a, b, hheader, hab, hnul, hcolon, hlen⟩ :=
    exists_first_colon plugin draws info head hbody hfits
  have hread := getHost_request plugin head (cString mem.freshHost 0) (b ++ rest) hnul hcolon hlen
  rw [← List.cons_append, ← List.append_assoc a, ← List.append_assoc, ← hheader] at hread
  rw [hread, Option.some.injEq]
  have hhead : a = [] ↔ (hostport info draws).head? = some 0x3A := by
    constructor
    · rintro rfl
      cases hhost : hostport info draws with
      | nil =>
        rw [hhost] at hab
        cases hab
      | cons c host =>
        rw [hhost] at hab
        cases (List.cons.inj hab).1
        rfl
    · intro hstart
      cases a with
      | nil => rfl
      | cons c a =>
        cases hhost : hostport info draws with
        | nil =>
          rw [hhost] at hstart
          cases hstart
        | cons d host =>
          rw [hhost] at hstart hab
          cases hstart
          exact absurd ((List.cons.inj hab).1 ▸ List.mem_cons_self) hcolon
  have hchosen (hne : a ≠ []) : a = chosenHost info draws ↔
      info.port ≠ 80 ∧ chosenHost info draws ≠ [] ∧ 0x3A ∉ chosenHost info draws := by
    constructor
    · rintro rfl
      refine ⟨?_, hne, hcolon⟩
      intro hport
      rw [hostport_eq, if_pos hport, List.append_assoc] at hab
      cases List.append_cancel_left hab
    · rintro ⟨hport, -, hnone⟩
      rw [hostport_eq, if_neg hport, List.append_assoc, List.append_assoc, List.cons_append] at hab
      have hcut := congrArg (List.takeWhile (· ≠ 0x3A)) hab
      rw [takeWhile_append_cons _ hnone, takeWhile_append_cons _ hcolon] at hcut
      exact hcut.symm
  unfold HostRead
  by_cases hnil : a = []
  · have hnot : ¬ (info.port ≠ 80 ∧ chosenHost info draws ≠ [] ∧ 0x3A ∉ chosenHost info draws) := by
      rintro ⟨hport, hne, hnone⟩
      have hstart := hhead.mp hnil
      rw [hostport_eq, if_neg hport] at hstart
      cases hname : chosenHost info draws with
      | nil => exact hne hname
      | cons c name =>
        rw [hname] at hstart hnone
        cases hstart
        exact hnone List.mem_cons_self
    simp only [hnot, false_or, if_pos hnil, hhead.mp hnil, true_and]
  · simp only [if_neg hnil, hchosen hnil, mt hhead.mpr hnil, false_and, or_false]

/-! ## A whole request -/

/-- The request that `data` is sent in. -/
def requestOf (plugin : Plugin) (draws : Draws) (info : ServerInfo) (data : Bytes) : Bytes :=
  headerOf plugin draws info data ++ data.drop (headSize info draws data.length).toNat

/-- What the client sends. -/
theorem clientEncode_eq_some (plugin : Plugin) (draws : Draws) (client : ServerInfo) (data wire : Bytes) :
    (∃ o, plugin.clientEncode draws (httpSimpleNewObfs client) data = some (o, wire)) ↔
      EncodeFits plugin draws client data ∧ wire = requestOf plugin draws client data := by
  have hplugin : plugin.clientEncode draws = clientEncode plugin draws := by
    cases plugin <;> rfl
  have hnew : (httpSimpleNewObfs client).localData.hasSentHeader = false := rfl
  have hserver : (httpSimpleNewObfs client).server = client := rfl
  simp only [hplugin, clientEncode, hnew, hserver, Bool.false_eq_true, if_false]
  by_cases hfits : EncodeFits plugin draws client data
  · rw [if_pos hfits]
    constructor
    · rintro ⟨o, ho⟩
      cases ho
      exact ⟨hfits, rfl⟩
    · rintro ⟨-, rfl⟩
      exact ⟨_, rfl⟩
  · rw [if_neg hfits]
    constructor
    · rintro ⟨o, ho⟩
      cases ho
    · rintro ⟨h, -⟩
      exact absurd h hfits

/-- A request begins with its method. -/
theorem method_prefix (plugin : Plugin) (draws : Draws) (info : ServerInfo) (data : Bytes) :
    plugin.method ++ ascii " /" <+: requestOf plugin draws info data := by
  unfold requestOf headerOf requestHeader requestLine
  simp only [List.append_assoc]
  rw [← List.append_assoc]
  exact List.prefix_append _ _

/-- A whole request is taken where its host is accepted and bytes are hidden in it. -/
theorem decode_request_iff (plugin : Plugin) (draws : Draws) (client server : ServerInfo)
    (mem : Memory) (data : Bytes) :
    (∃ o out, httpSimpleServerDecode mem (httpSimpleNewObfs server)
        (requestOf plugin draws client data) = some (o, some out)) ↔
      1 ≤ headSize client draws data.length ∧
        (requestOf plugin draws client data).length ≤ 65536 ∧
        HostAccepted server mem (requestOf plugin draws client data) := by
  obtain ⟨i, hi, hline⟩ := exists_blankLine plugin draws client (headOf client draws data)
  have hnul := not_mem_requestHeader plugin draws client (headOf client draws data)
  have hin : i + 4 ≤ (headerOf plugin draws client data).length := Search.add_length_le_of_find? hi
  have hwhole : requestOf plugin draws client data ++ [] =
      headerOf plugin draws client data ++ data.drop (headSize client draws data.length).toNat :=
    List.append_nil _
  have hlength : (headerOf plugin draws client data).length ≤
      (requestOf plugin draws client data).length := by
    rw [requestOf, List.length_append]
    exact Nat.le_add_right _ _
  have hget : getDataFromHttpHeader mem.behindHex (requestOf plugin draws client data ++ mem.behind) =
      readHead mem.behindHex (headOf client draws data) :=
    getData_received plugin draws client mem.behindHex hwhole (by omega)
  have hhidden : readHead mem.behindHex (headOf client draws data) ≠ [] ↔
      1 ≤ headSize client draws data.length := by
    rw [← headOf_ne_nil, ← List.length_pos_iff, length_readHead, List.length_pos_iff]
  have hfind : strstr (requestOf plugin draws client data ++ mem.behind) blankLine = some i :=
    strstr_received hnul hi hwhole (by omega)
  have hlong : 10 < (requestOf plugin draws client data).length := by
    have hlt := lt_length_requestLine plugin (headOf client draws data)
    omega
  have hne : requestOf plugin draws client data ≠ [] := by
    intro hnil
    rw [hnil] at hlong
    exact absurd hlong (by decide)
  have hmethod : plugin.method ++ ascii " /" <+: [] ++ requestOf plugin draws client data := by
    rw [List.nil_append]
    exact method_prefix plugin draws client data
  have hnew : httpSimpleNewObfs server = waiting server [] := rfl
  rw [hnew]
  constructor
  · rintro ⟨o, out, hdecode⟩
    have hstep : serverStep (waiting server []) (requestOf plugin draws client data, mem) =
        some (o, out) := by
      rw [serverStep, hdecode]
    rcases serverStep_eq_some hne hstep with hwaits | ⟨-, hcomplete⟩
    · obtain ⟨-, -, hnone⟩ := hwaits
      rw [List.nil_append, hfind] at hnone
      cases hnone
    · obtain ⟨-, hsize, hhost, j, -, -, hsome, -⟩ := hcomplete
      rw [List.nil_append] at hsize hhost hsome
      rw [hget] at hsome
      exact ⟨hhidden.mp hsome, hsize, hhost⟩
  · rintro ⟨hhead, hsize, hhost⟩
    have hcomplete : Completes server [] (requestOf plugin draws client data, mem)
        (readHead mem.behindHex (headOf client draws data) ++
          window (requestOf plugin draws client data) (i + 4)
            ((requestOf plugin draws client data).length - (i + 4))) := by
      refine ⟨hlong, hsize, hhost, i, hfind, hin.trans hlength, ?_, ?_⟩
      · rw [List.nil_append, hget]
        exact hhidden.mpr hhead
      · rw [List.nil_append, hget]
    obtain ⟨o, hstep, -⟩ := serverStep_of_completes hne hmethod hcomplete
    unfold serverStep at hstep
    split at hstep
    · next o' out hdecode => exact ⟨o', out, hdecode⟩
    · cases hstep

/-- The host check of a server with the client's list. -/
theorem hostAccepted_iff (client server : ServerInfo) (mem : Memory) (wire : Bytes)
    (hparam : server.param = client.param)
    (hhosts : client.hosts.length < 1024 ∧ (splitHosts client.hosts).1.length ≤ 128) :
    HostAccepted server mem wire ↔
      ∃ param, client.param = some param ∧ (cString param 0 = [] ∨
        ∃ host, getHostFromHttpHeader (cString mem.freshHost 0) (wire ++ mem.behindRecv) = some host ∧
          host ∈ (splitHosts (cString param 0)).1) := by
  unfold HostAccepted checkHost waiting
  simp only [hparam]
  cases hlist : client.param with
  | none => simp
  | some param =>
    by_cases hempty : cString param 0 = []
    · simp [hempty]
    · have hhosts' : client.hosts = cString param 0 := by
        rw [ServerInfo.hosts, hlist]
        exact if_neg hempty
      rw [hhosts'] at hhosts
      simp only [hempty, if_false, Bool.false_eq_true, hostIsMatch, if_pos hhosts, Option.map_map,
        Option.some.injEq, exists_eq_left', false_or]
      cases getHostFromHttpHeader (cString mem.freshHost 0) (wire ++ mem.behindRecv) with
      | none => simp
      | some host =>
        by_cases hmem : host ∈ (splitHosts (cString param 0)).1
        · simp [hmem]
        · simp [hmem]

/-- A whole request is recognised by a server with the same list exactly when the blocks of the client
hold it, bytes are hidden in it, it is not over size, and the server has a list, which is empty or from
which the chosen host is read. -/
theorem recognised_iff (plugin : Plugin) (draws : Draws) (client server : ServerInfo) (mem : Memory)
    (data : Bytes) (hparam : server.param = client.param)
    (hbody : ∀ param, client.param = some param → 0x23 ∉ cString param 0) :
    Recognised plugin draws client server mem data ↔
      EncodeFits plugin draws client data ∧ 1 ≤ headSize client draws data.length ∧
        (requestOf plugin draws client data).length ≤ 65536 ∧
        ∃ param, client.param = some param ∧
          (cString param 0 = [] ∨ HostRead client draws mem) := by
  have hread {param : Bytes} (hlist : client.param = some param) (hsome : cString param 0 ≠ [])
      (hfits : EncodeFits plugin draws client data) :
      client.hosts = cString param 0 ∧
        (getHostFromHttpHeader (cString mem.freshHost 0)
            (requestOf plugin draws client data ++ mem.behindRecv) = some (chosenHost client draws) ↔
          HostRead client draws mem) := by
    have hhosts : client.hosts = cString param 0 := by
      rw [ServerInfo.hosts, hlist]
      exact if_neg hsome
    refine ⟨hhosts, ?_⟩
    have hnobody : (splitHosts client.hosts).2 = none := by
      rw [hhosts]
      exact splitHosts_body (hbody param hlist)
    rw [requestOf, List.append_assoc]
    exact getHost_eq_chosen_iff plugin draws client mem _ _ hnobody hfits.2.2.2.1
  unfold Recognised
  constructor
  · rintro ⟨o, wire, hencode, hdecode, hchosen⟩
    obtain ⟨hfits, rfl⟩ := (clientEncode_eq_some plugin draws client data wire).mp ⟨o, hencode⟩
    obtain ⟨hhead, hsize, hhost⟩ := (decode_request_iff plugin draws client server mem data).mp hdecode
    obtain ⟨param, hlist, -⟩ := (hostAccepted_iff client server mem _ hparam
      ⟨hfits.2.1, hfits.2.2.1⟩).mp hhost
    refine ⟨hfits, hhead, hsize, param, hlist, ?_⟩
    by_cases hempty : cString param 0 = []
    · exact .inl hempty
    · right
      exact (hread hlist hempty hfits).2.mp (hchosen param (hparam.trans hlist) hempty).1
  · rintro ⟨hfits, hhead, hsize, param, hlist, hhost⟩
    obtain ⟨o, hencode⟩ := (clientEncode_eq_some plugin draws client data _).mpr ⟨hfits, rfl⟩
    have hchosen (hempty : cString param 0 ≠ []) :
        getHostFromHttpHeader (cString mem.freshHost 0)
            (requestOf plugin draws client data ++ mem.behindRecv) = some (chosenHost client draws) ∧
          chosenHost client draws ∈ (splitHosts (cString param 0)).1 := by
      obtain ⟨hhosts, hiff⟩ := hread hlist hempty hfits
      refine ⟨hiff.mpr (hhost.resolve_left hempty), ?_⟩
      rw [← hhosts]
      exact chosenHost_mem client draws
    refine ⟨o, _, hencode, ?_, ?_⟩
    · apply (decode_request_iff plugin draws client server mem data).mpr
      refine ⟨hhead, hsize, (hostAccepted_iff client server mem _ hparam
        ⟨hfits.2.1, hfits.2.2.1⟩).mpr ⟨param, hlist, ?_⟩⟩
      by_cases hempty : cString param 0 = []
      · exact .inl hempty
      · exact .inr ⟨_, hchosen hempty⟩
    · intro param' hlist' hempty
      obtain rfl := Option.some.inj (hlist.symm.trans (hparam.symm.trans hlist'))
      exact hchosen hempty

/-- On port 8080 the request for `a.example` is recognised. -/
theorem recognised_otherPort :
    Recognised .httpSimple exampleDraws exampleInfo exampleInfo exampleMemory exampleData := by
  have hbody : ∀ param, exampleInfo.param = some param → 0x23 ∉ cString param 0 := by
    intro param hparam
    cases hparam
    decide
  have hfits : EncodeFits .httpSimple exampleDraws exampleInfo exampleData := by
    decide +kernel
  have hsize : (requestOf .httpSimple exampleDraws exampleInfo exampleData).length ≤ 65536 := by
    have hheader : (headerOf .httpSimple exampleDraws exampleInfo exampleData).length <
        exampleData.length + 2048 := hfits.2.2.2.2.1
    have hdata : exampleData.length = 30 := by decide
    rw [requestOf, List.length_append, List.length_drop]
    omega
  apply (recognised_iff .httpSimple exampleDraws exampleInfo exampleInfo exampleMemory exampleData rfl
    hbody).mpr
  exact ⟨hfits, by decide, hsize, ascii "a.example", rfl, .inr (.inl (by decide))⟩

/-- On port 80 the host is read up to the `:` behind `User-Agent`, and refused; without a list the
server copies from NULL. -/
theorem not_recognised_port80 :
    ¬ Recognised .httpSimple exampleDraws { exampleInfo with port := 80 }
        { exampleInfo with port := 80 } exampleMemory exampleData ∧
      ¬ Recognised .httpSimple exampleDraws { exampleInfo with param := none }
        { exampleInfo with param := none } exampleMemory exampleData := by
  constructor
  · rintro ⟨o, wire, hencode, -, hchosen⟩
    obtain ⟨hfits, rfl⟩ := (clientEncode_eq_some _ _ _ _ _).mp ⟨o, hencode⟩
    obtain ⟨hhost, -⟩ := hchosen (ascii "a.example") rfl (by decide)
    rw [requestOf, List.append_assoc] at hhost
    rcases (getHost_eq_chosen_iff .httpSimple exampleDraws { exampleInfo with port := 80 }
      exampleMemory _ _ (by decide) hfits.2.2.2.1).mp hhost with ⟨hport, -⟩ | ⟨hstart, -⟩
    · exact hport rfl
    · revert hstart
      decide
  · rintro ⟨o, wire, hencode, hdecode, -⟩
    obtain ⟨hfits, rfl⟩ := (clientEncode_eq_some _ _ _ _ _).mp ⟨o, hencode⟩
    obtain ⟨-, -, hhost⟩ := (decode_request_iff _ _ _ _ _ _).mp hdecode
    obtain ⟨param, hparam, -⟩ := (hostAccepted_iff { exampleInfo with param := none } _ _ _ rfl
      ⟨hfits.2.1, hfits.2.2.1⟩).mp hhost
    cases hparam

end OpenWrtCompile.Http
