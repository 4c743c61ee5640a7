import OpenWrtCompile.Http.Requests

/-!
# What comes out of an `http_simple` or `http_post` stream

The server gets the bytes of a request back if and only if the segment that completes the header
starts with it (but for a header with empty lines of the user's), the client those of an answer if
and only if the empty line that ends the header comes in one segment.
-/

namespace OpenWrtCompile.Http
open OpenWrtCompile.Base Stream

/-- The bytes that go into the request line. -/
def headOf (info : ServerInfo) (draws : Draws) (data : Bytes) : Bytes :=
  data.take (headSize info draws data.length).toNat

/-- The bytes that follow the header. -/
def bodyOf (info : ServerInfo) (draws : Draws) (data : Bytes) (more : List Bytes) : Bytes :=
  data.drop (headSize info draws data.length).toNat ++ more.flatten

/-- The header of the request that `data` is sent in. -/
def headerOf (plugin : Plugin) (draws : Draws) (info : ServerInfo) (data : Bytes) : Bytes :=
  requestHeader plugin draws info (headOf info draws data)

/-- What the client sends: `data` is given to the first call of `client_encode`, `more` to the
following ones. -/
def sent (plugin : Plugin) (draws : Draws) (client : ServerInfo) (data : Bytes)
    (more : List Bytes) : Option Bytes :=
  outputs (plugin.clientEncode draws) (httpSimpleNewObfs client) (data :: more)

/-- What the server sends. -/
def answered (t : Tm) (server : ServerInfo) (answers : List Bytes) : Option Bytes :=
  outputs (fun o data ↦ some (httpSimpleServerEncode t o data)) (httpSimpleNewObfs server) answers

/-- `client_decode` of a segment. -/
def clientStep (o : HttpObfs) (s : Segment) : Option (HttpObfs × Bytes) :=
  httpSimpleClientDecode s.2 o s.1

/-- The server gets the bytes of the client when they arrive cut into segments. -/
def ClientToServer (plugin : Plugin) (draws : Draws) (client server : ServerInfo) (data : Bytes)
    (more : List Bytes) (cuts : List (Nat × Memory)) (last : Memory) : Prop :=
  ∃ wire, sent plugin draws client data more = some wire ∧
    outputs serverStep (httpSimpleNewObfs server) (cut last cuts wire) =
      some (data :: more).flatten

/-- The client gets the bytes of the server when they arrive cut into segments. -/
def ServerToClient (t : Tm) (client server : ServerInfo) (answer : Bytes) (answers : List Bytes)
    (cuts : List (Nat × Memory)) (last : Memory) : Prop :=
  ∃ wire, answered t server (answer :: answers) = some wire ∧
    outputs clientStep (httpSimpleNewObfs client) (cut last cuts wire) =
      some (answer :: answers).flatten

/-- What a request must meet for `server_decode` to give it back, with the segments `pre` ahead of
the segment `s` that completes its header: all before wait; the host is accepted; the last hidden
byte is not read together with what follows its digits in memory; and as many bytes came before `s`
as the header has behind its first empty line (none, but for empty lines of the user's), which the
bytes that follow the header repeat. -/
structure Delivered (plugin : Plugin) (draws : Draws) (client server : ServerInfo) (data : Bytes)
    (pre : List Segment) (s : Segment) : Prop where
  waits : AllWait [] pre
  size : (bytes pre ++ s.1).length ≤ 65536
  host : HostAccepted server s.2 (bytes pre ++ s.1)
  digits : ∀ b ∈ (headOf client draws data).getLast?,
    toChar (strtol16 (hexPair b ++ s.2.behindHex)) = b
  header : ∃ i, Search.find? blankLine (headerOf plugin draws client data) = some i ∧
    i + 4 ≤ s.1.length ∧
      (bytes pre).length + (i + 4) = (headerOf plugin draws client data).length
  repeats : (bytes pre ++ s.1).drop (headerOf plugin draws client data).length <+:
    (bytes pre ++ s.1).drop ((headerOf plugin draws client data).length - (bytes pre).length)

/-- The client's stream is the header and what it does not hide. -/
theorem sent_eq (plugin : Plugin) (draws : Draws) (client : ServerInfo) (data : Bytes)
    (more : List Bytes) :
    sent plugin draws client data more =
      if EncodeFits plugin draws client data then
        some (headerOf plugin draws client data ++ bodyOf client draws data more)
      else none := by
  have hplugin : plugin.clientEncode draws = clientEncode plugin draws := by
    cases plugin <;> rfl
  have hnew : (httpSimpleNewObfs client).localData.hasSentHeader = false := rfl
  have hserver : (httpSimpleNewObfs client).server = client := rfl
  unfold sent
  rw [hplugin]
  split
  · next hfits =>
    have hfirst : clientEncode plugin draws (httpSimpleNewObfs client) data =
        some (⟨client.dropEmptyParam,
          { (httpSimpleNewObfs client).localData with hasSentHeader := true }⟩,
          headerOf plugin draws client data ++
            data.drop (headSize client draws data.length).toNat) := by
      unfold clientEncode
      simp only [hnew, hserver, Bool.false_eq_true, if_false, hfits, if_true]
      rfl
    rw [outputs_of_first hfirst fun x ↦ rfl, List.append_assoc]
    rfl
  · next hfits =>
    have hfirst : clientEncode plugin draws (httpSimpleNewObfs client) data = none := by
      unfold clientEncode
      simp only [hnew, hserver, Bool.false_eq_true, if_false, hfits]
    rw [outputs, hfirst]

/-- The server's stream is the header and the bytes. -/
theorem answered_eq (t : Tm) (server : ServerInfo) (answer : Bytes) (answers : List Bytes) :
    answered t server (answer :: answers) =
      some (responseHeader t ++ (answer :: answers).flatten) := by
  have hfirst : (some (httpSimpleServerEncode t (httpSimpleNewObfs server) answer)) =
      some (⟨server, ⟨true, false, false, []⟩⟩, responseHeader t ++ answer) := rfl
  unfold answered
  rw [outputs_of_first hfirst fun x ↦ rfl, List.append_assoc, List.flatten_cons]

/-- The bytes given to the client are those it hides and those it does not. -/
theorem head_append_body (info : ServerInfo) (draws : Draws) (data : Bytes) (more : List Bytes) :
    headOf info draws data ++ bodyOf info draws data more = (data :: more).flatten := by
  unfold headOf bodyOf
  rw [← List.append_assoc, List.take_append_drop, List.flatten_cons]

/-- A byte is hidden if and only if `head_size` is positive. -/
theorem headOf_ne_nil (info : ServerInfo) (draws : Draws) (data : Bytes) :
    headOf info draws data ≠ [] ↔ 1 ≤ headSize info draws data.length := by
  have hle : headSize info draws data.length ≤ data.length := Int.min_le_right _ _
  unfold headOf
  rw [← List.length_pos_iff, List.length_take]
  omega

section
variable {text rest acc post behind : Bytes} {i : Nat}

/-- The end of the header is found once it has arrived. -/
theorem strstr_received (hnul : 0 ∉ text) (hi : Search.find? blankLine text = some i)
    (hacc : acc ++ post = text ++ rest) (hle : i + 4 ≤ acc.length) :
    strstr (acc ++ behind) blankLine = some i := by
  have hin : i + 4 ≤ text.length := Search.add_length_le_of_find? hi
  have htake : acc.take (i + 4) = text.take (i + 4) := by
    have h := congrArg (List.take (i + 4)) hacc
    rwa [List.take_append_of_le_length hle, List.take_append_of_le_length hin] at h
  have hfind : Search.find? blankLine (text.take (i + 4)) = some i := by
    rw [← List.take_append_drop (i + 4) text] at hi
    apply Search.find?_of_append hi
    rw [List.length_take, Nat.min_eq_left hin]
    exact Nat.le_refl _
  have hsplit : acc ++ behind = text.take (i + 4) ++ (acc.drop (i + 4) ++ behind) := by
    rw [← htake, ← List.append_assoc, List.take_append_drop]
  rw [hsplit]
  apply strstr_append _ _ hfind
  intro hmem
  exact hnul (List.mem_of_mem_take hmem)

/-- Nothing else that has arrived is taken for it. -/
theorem eq_of_strstr_received {j : Nat} (hnul : 0 ∉ text)
    (hi : Search.find? blankLine text = some i) (hacc : acc ++ post = text ++ rest)
    (hj : strstr (acc ++ behind) blankLine = some j) (hle : j + 4 ≤ acc.length) : j = i := by
  have hthere : blankLine <+: (text ++ rest).drop j := by
    rw [← hacc, List.drop_append_of_le_length (by omega)]
    exact (isPrefix_of_strstr hj hle).trans (List.prefix_append _ _)
  obtain ⟨-, -, hfirst⟩ := Search.find?_eq_some_iff.mp (Search.find?_append rest hi)
  have hge : i ≤ j := Nat.le_of_not_lt fun hlt ↦ hfirst j hlt hthere
  have hagain := @strstr_received text rest acc post behind i hnul hi hacc (by omega)
  rw [hj] at hagain
  exact Option.some.inj hagain

end

/-- The hidden bytes are read from a request of which more than the first line has arrived. -/
theorem getData_received (plugin : Plugin) (draws : Draws) (info : ServerInfo)
    {head rest acc post behind : Bytes} (behindHex : Bytes)
    (hacc : acc ++ post = requestHeader plugin draws info head ++ rest)
    (hle : (requestLine plugin head).length < acc.length) :
    getDataFromHttpHeader behindHex (acc ++ behind) = readHead behindHex head := by
  have hline : requestLine plugin head ++ [0x0D] <+: acc := by
    have hrequest : requestLine plugin head ++ [0x0D] <+:
        requestHeader plugin draws info head ++ rest := by
      unfold requestHeader
      rw [List.append_assoc, List.append_assoc, List.append_assoc, List.append_assoc,
        List.prefix_append_right_inj]
      exact ⟨_, rfl⟩
    apply List.prefix_of_prefix_length_le hrequest ⟨post, hacc⟩
    rw [List.length_append]
    exact hle
  obtain ⟨more, hmore⟩ := hline
  rw [← hmore, List.append_assoc, List.append_assoc, List.singleton_append]
  exact getData_requestLine plugin behindHex head (more ++ behind)

section
variable {plugin : Plugin} {draws : Draws} {client server : ServerInfo} {data : Bytes}
  {more : List Bytes} {pre post : List Segment} {s : Segment}

/-- What completes the header and gives the bytes back is delivered. -/
theorem delivered_of_completes {chunk : Bytes}
    (hwire : bytes pre ++ s.1 ++ bytes post =
      headerOf plugin draws client data ++ bodyOf client draws data more)
    (hwaits : AllWait [] pre) (hcomp : Completes server (bytes pre) s chunk)
    (hout : chunk ++ bytes post = (data :: more).flatten) :
    1 ≤ headSize client draws data.length ∧ Delivered plugin draws client server data pre s := by
  obtain ⟨-, hsize, hhost, j, hj, hjle, hret, rfl⟩ := hcomp
  obtain ⟨i, hi, hline⟩ := exists_blankLine plugin draws client (headOf client draws data)
  have hnul := not_mem_requestHeader plugin draws client (headOf client draws data)
  have hjacc : j + 4 ≤ (bytes pre ++ s.1).length := by
    rw [List.length_append]
    omega
  obtain rfl : j = i := eq_of_strstr_received hnul hi hwire hj hjacc
  rw [getData_received plugin draws client s.2.behindHex hwire (by omega)] at hret hout
  rw [← head_append_body client draws, List.append_assoc] at hout
  -- the lengths tell how many bytes came before the segment
  have hread := length_readHead s.2.behindHex (headOf client draws data)
  have hlenWire := congrArg List.length hwire
  have hlenOut := congrArg List.length hout
  simp only [List.length_append, window, List.length_take, List.length_drop] at hlenWire hlenOut
  have hpre : (bytes pre).length + (j + 4) = (headerOf plugin draws client data).length := by
    omega
  obtain ⟨hhead, hbody⟩ := List.append_inj hout hread
  have hlong : (headerOf plugin draws client data).length ≤ (bytes pre ++ s.1).length := by
    rw [List.length_append]
    omega
  have hrest : (bytes pre ++ s.1).drop (headerOf plugin draws client data).length ++ bytes post =
      bodyOf client draws data more := by
    have h := congrArg (List.drop (headerOf plugin draws client data).length) hwire
    rwa [List.drop_append_of_le_length hlong, List.drop_left] at h
  have hwindow : window (bytes pre ++ s.1) (j + 4) (s.1.length - (j + 4)) =
      (bytes pre ++ s.1).drop (headerOf plugin draws client data).length :=
    List.append_cancel_right (hbody.trans hrest.symm)
  have hoff : (headerOf plugin draws client data).length - (bytes pre).length = j + 4 := by
    omega
  constructor
  · rw [← headOf_ne_nil, ← List.length_pos_iff, ← hread, List.length_pos_iff]
    exact hret
  · refine ⟨hwaits, hsize, hhost, (readHead_eq_iff _ _).mp hhead, ⟨j, hi, hjle, hpre⟩, ?_⟩
    rw [← hwindow, hoff]
    exact List.take_prefix _ _

/-- What is delivered completes the header and gives the bytes back. -/
theorem completes_of_delivered
    (hwire : bytes pre ++ s.1 ++ bytes post =
      headerOf plugin draws client data ++ bodyOf client draws data more)
    (hhead : 1 ≤ headSize client draws data.length)
    (h : Delivered plugin draws client server data pre s) :
    ∃ chunk, Completes server (bytes pre) s chunk ∧
      chunk ++ bytes post = (data :: more).flatten := by
  obtain ⟨i, hi, hile, hpre⟩ := h.header
  obtain ⟨i', hi', hline⟩ := exists_blankLine plugin draws client (headOf client draws data)
  obtain rfl : i = i' := Option.some.inj (hi.symm.trans hi')
  have hnul := not_mem_requestHeader plugin draws client (headOf client draws data)
  have hiacc : i + 4 ≤ (bytes pre ++ s.1).length := by
    rw [List.length_append]
    omega
  have hget : getDataFromHttpHeader s.2.behindHex (bytes pre ++ s.1 ++ s.2.behind) =
      readHead s.2.behindHex (headOf client draws data) :=
    getData_received plugin draws client s.2.behindHex hwire (by omega)
  have hread : readHead s.2.behindHex (headOf client draws data) = headOf client draws data :=
    (readHead_eq_iff _ _).mpr h.digits
  have hne := (headOf_ne_nil client draws data).mpr hhead
  have hlong : (headerOf plugin draws client data).length ≤ (bytes pre ++ s.1).length := by
    rw [List.length_append]
    omega
  have hoff : (headerOf plugin draws client data).length - (bytes pre).length = i + 4 := by
    omega
  have hwindow : window (bytes pre ++ s.1) (i + 4) (s.1.length - (i + 4)) =
      (bytes pre ++ s.1).drop (headerOf plugin draws client data).length := by
    have hrepeats := h.repeats
    rw [hoff, List.prefix_iff_eq_take] at hrepeats
    have hlen : ((bytes pre ++ s.1).drop (headerOf plugin draws client data).length).length =
        s.1.length - (i + 4) := by
      rw [List.length_drop, List.length_append]
      omega
    rw [hlen] at hrepeats
    exact hrepeats.symm
  have hrest : (bytes pre ++ s.1).drop (headerOf plugin draws client data).length ++ bytes post =
      bodyOf client draws data more := by
    have h := congrArg (List.drop (headerOf plugin draws client data).length) hwire
    rwa [List.drop_append_of_le_length hlong, List.drop_left] at h
  refine ⟨_, ⟨?_, h.size, h.host, i, strstr_received hnul hi hwire hiacc, hile, ?_, rfl⟩, ?_⟩
  · have hlt := lt_length_requestLine plugin (headOf client draws data)
    omega
  · rw [hget, hread]
    exact hne
  · rw [hget, hread, hwindow, List.append_assoc, hrest]
    exact head_append_body client draws data more

end

/-- The segments of a whole request do not all wait. -/
theorem not_allWait {plugin : Plugin} {draws : Draws} {client : ServerInfo} {data : Bytes}
    {more : List Bytes} {segs : List Segment}
    (hwire : bytes segs = headerOf plugin draws client data ++ bodyOf client draws data more) :
    ¬ AllWait [] segs := by
  intro hall
  obtain ⟨i, hi, hline⟩ := exists_blankLine plugin draws client (headOf client draws data)
  have hin := Search.add_length_le_of_find? hi
  have hlen := congrArg List.length hwire
  rw [List.length_append] at hlen
  rcases List.eq_nil_or_concat segs with rfl | ⟨pre, s, rfl⟩
  · have hlong := lt_length_requestLine plugin (headOf client draws data)
    have hzero : (bytes []).length = 0 := rfl
    have hheader : (headerOf plugin draws client data).length =
      (requestHeader plugin draws client (headOf client draws data)).length := rfl
    omega
  · rw [List.concat_eq_append] at hall hwire
    obtain ⟨-, -, -, hnone⟩ := allWait_append.mp hall
    have hbytes : bytes (pre ++ [s]) = [] ++ bytes pre ++ s.1 := by
      rw [bytes_append, bytes_cons]
      exact congrArg _ (List.append_nil s.1)
    rw [← hbytes] at hnone
    have hwhole : bytes (pre ++ [s]) ++ [] =
        headerOf plugin draws client data ++ bodyOf client draws data more := by
      rw [List.append_nil, hwire]
    have hsome := @strstr_received _ _ (bytes (pre ++ [s])) [] s.2.behind i
      (not_mem_requestHeader plugin draws client (headOf client draws data)) hi hwhole (by
        rw [hwire, List.length_append]
        exact Nat.le_trans hin (Nat.le_add_right _ _))
    rw [hnone] at hsome
    cases hsome

/-- When the server gets the bytes of the client. -/
theorem clientToServer_iff (plugin : Plugin) (draws : Draws) (client server : ServerInfo)
    (data : Bytes) (more : List Bytes) (cuts : List (Nat × Memory)) (last : Memory) :
    ClientToServer plugin draws client server data more cuts last ↔
      EncodeFits plugin draws client data ∧ 1 ≤ headSize client draws data.length ∧
        ∃ pre s post, cut last cuts (headerOf plugin draws client data ++
            bodyOf client draws data more) = pre ++ s :: post ∧
          Delivered plugin draws client server data pre s := by
  have hbegin : plugin.method ++ ascii " /" <+:
      headerOf plugin draws client data ++ bodyOf client draws data more := by
    unfold headerOf requestHeader requestLine
    simp only [List.append_assoc]
    rw [← List.append_assoc]
    exact List.prefix_append _ _
  have hwire := flatten_cut last cuts
    (headerOf plugin draws client data ++ bodyOf client draws data more)
  have hrun (out : Bytes) := @outputs_serverStep_iff plugin server _
    (fun s hs ↦ ne_nil_of_mem_cut last hs) [] _ out hwire hbegin
  have hsplit {pre post : List Segment} {s : Segment} (h : cut last cuts (headerOf plugin draws
      client data ++ bodyOf client draws data more) = pre ++ s :: post) :
      bytes pre ++ s.1 ++ bytes post =
        headerOf plugin draws client data ++ bodyOf client draws data more := by
    rw [h] at hwire
    rw [List.append_assoc, ← bytes_cons, ← bytes_append]
    exact hwire
  unfold ClientToServer
  rw [sent_eq]
  constructor
  · rintro ⟨wire, hsent, hout⟩
    split at hsent
    · next hfits =>
      cases hsent
      rcases (hrun _).mp hout with ⟨hall, -⟩ | ⟨pre, s, post, chunk, hcut, hall, hcomp, hdata⟩
      · exact absurd hall (not_allWait hwire)
      · obtain ⟨hhead, hdeliv⟩ :=
          delivered_of_completes (hsplit hcut) hall hcomp hdata.symm
        exact ⟨hfits, hhead, pre, s, post, hcut, hdeliv⟩
    · cases hsent
  · rintro ⟨hfits, hhead, pre, s, post, hcut, hdeliv⟩
    rw [if_pos hfits]
    obtain ⟨chunk, hcomp, hdata⟩ := completes_of_delivered (hsplit hcut) hhead hdeliv
    refine ⟨_, rfl, ?_⟩
    exact (hrun _).mpr (.inr ⟨pre, s, post, chunk, hcut, hdeliv.waits, hcomp, hdata.symm⟩)

/-- `client_decode` finds no end of a header in a segment. -/
def Headless (s : Segment) : Prop := strstr (s.1 ++ s.2.behind) blankLine = none

/-- Once the header is passed, every segment is handed on. -/
theorem outputs_clientStep_of_done {o : HttpObfs} (h : o.localData.hasRecvHeader = true)
    (segs : List Segment) : outputs clientStep o segs = some (bytes segs) := by
  apply outputs_of_steady
  intro s
  unfold clientStep httpSimpleClientDecode
  simp only [h, if_true]

/-- What the client puts out: nothing as long as no segment shows the end of a header, then what
stands behind it and all that follows. -/
theorem outputs_clientStep_iff {o : HttpObfs} (h : o.localData.hasRecvHeader = false)
    {segs : List Segment} {out : Bytes} :
    outputs clientStep o segs = some out ↔
      ((∀ s ∈ segs, Headless s) ∧ out = []) ∨
        ∃ pre s post, segs = pre ++ s :: post ∧ (∀ p ∈ pre, Headless p) ∧
          ∃ i, strstr (s.1 ++ s.2.behind) blankLine = some i ∧ i + 4 ≤ s.1.length ∧
            out = s.1.drop (i + 4) ++ bytes post := by
  induction segs with
  | nil => simp [outputs, eq_comm]
  | cons s segs ih =>
    rw [exists_split_cons, List.forall_mem_cons]
    cases hfind : strstr (s.1 ++ s.2.behind) blankLine with
    | none =>
      have hless : Headless s := hfind
      have hstep : clientStep o s = some (o, []) := by
        unfold clientStep httpSimpleClientDecode
        simp only [h, Bool.false_eq_true, if_false, hfind]
      have hmap (r : Option Bytes) : r.map (([] : Bytes) ++ ·) = r := by
        cases r <;> rfl
      rw [outputs_cons hstep, hmap, ih]
      simp only [hless, true_and, reduceCtorEq, false_and, exists_false, false_or]
    | some i =>
      have hnot : ¬ Headless s := by
        unfold Headless
        rw [hfind]
        exact Option.some_ne_none i
      simp only [hnot, false_and, false_or, or_false, Option.some.injEq, exists_eq_left']
      by_cases hle : i + 4 ≤ s.1.length
      · have hstep : clientStep o s = some (⟨o.server, { o.localData with hasRecvHeader := true }⟩,
            s.1.drop (i + 4)) := by
          unfold clientStep httpSimpleClientDecode
          simp only [h, Bool.false_eq_true, if_false, hfind, Nat.not_lt.mpr hle]
        rw [outputs_cons hstep, outputs_clientStep_of_done rfl, Option.map_some]
        simp only [hle, true_and, Option.some.injEq, eq_comm]
      · have hstep : clientStep o s = none := by
          unfold clientStep httpSimpleClientDecode
          simp only [h, Bool.false_eq_true, if_false, hfind, Nat.not_le.mp hle, if_true]
        rw [outputs, hstep]
        simp only [hle, false_and, reduceCtorEq]

/-- When the client gets the bytes of the server. -/
theorem serverToClient_iff (t : Tm) (client server : ServerInfo) (answer : Bytes)
    (answers : List Bytes) (cuts : List (Nat × Memory)) (last : Memory) :
    ServerToClient t client server answer answers cuts last ↔
      ((∀ s ∈ cut last cuts (responseHeader t ++ (answer :: answers).flatten), Headless s) ∧
          (answer :: answers).flatten = []) ∨
        ∃ pre s post, cut last cuts (responseHeader t ++ (answer :: answers).flatten) =
            pre ++ s :: post ∧ (∀ p ∈ pre, Headless p) ∧
          (bytes pre).length + 4 ≤ (responseHeader t).length ∧
            (responseHeader t).length ≤ (bytes pre).length + s.1.length := by
  have hwire := flatten_cut last cuts (responseHeader t ++ (answer :: answers).flatten)
  unfold ServerToClient
  simp only [answered_eq, Option.some.injEq, exists_eq_left']
  rw [outputs_clientStep_iff rfl]
  apply or_congr
  · exact Iff.rfl
  apply exists_congr
  intro pre
  apply exists_congr
  intro s
  apply exists_congr
  intro post
  apply and_congr_right
  intro hcut
  apply and_congr_right
  intro _
  rw [hcut] at hwire
  replace hwire : bytes pre ++ (s.1 ++ bytes post) =
      responseHeader t ++ (answer :: answers).flatten := by
    rw [← bytes_cons, ← bytes_append]
    exact hwire
  have hlen := congrArg List.length hwire
  simp only [List.length_append] at hlen
  constructor
  · rintro ⟨i, -, hle, hout⟩
    have hlenOut := congrArg List.length hout
    rw [List.length_append, List.length_drop] at hlenOut
    omega
  · rintro ⟨hstart, hend⟩
    have hrest : s.1 ++ bytes post =
        (responseHeader t).drop (bytes pre).length ++ (answer :: answers).flatten := by
      have h := congrArg (List.drop (bytes pre).length) hwire
      rwa [List.drop_left, List.drop_append_of_le_length (by omega)] at h
    have hstartsWith : (responseHeader t).drop (bytes pre).length <+: s.1 := by
      apply List.prefix_of_prefix_length_le ⟨_, hrest.symm⟩ (List.prefix_append _ _)
      rw [List.length_drop]
      omega
    obtain ⟨body, hbody⟩ := hstartsWith
    have hlenBody : ((responseHeader t).drop (bytes pre).length).length =
        (responseHeader t).length - 4 - (bytes pre).length + 4 := by
      rw [List.length_drop]
      omega
    refine ⟨(responseHeader t).length - 4 - (bytes pre).length, ?_, by omega, ?_⟩
    · rw [← hbody, List.append_assoc]
      apply strstr_append
      · intro hmem
        exact not_mem_responseHeader t (List.mem_of_mem_drop hmem)
      · exact Search.find?_drop (find?_responseHeader t) (by omega)
    · rw [← hbody, List.append_assoc] at hrest
      have hpayload := List.append_cancel_left hrest
      rw [← hbody, ← hlenBody, List.drop_left]
      exact hpayload.symm

/-- Both sides get the bytes of the other. -/
def Transparent (plugin : Plugin) (draws : Draws) (t : Tm) (client server : ServerInfo)
    (data : Bytes) (more : List Bytes) (upCuts : List (Nat × Memory)) (upLast : Memory)
    (answer : Bytes) (answers : List Bytes) (downCuts : List (Nat × Memory)) (downLast : Memory) :
    Prop :=
  ClientToServer plugin draws client server data more upCuts upLast ∧
    ServerToClient t client server answer answers downCuts downLast

/-- The streams pass if and only if the request is delivered, and the empty line that ends the
header of the answer comes in one segment, or there is nothing to deliver. -/
theorem transparent_iff (plugin : Plugin) (draws : Draws) (t : Tm) (client server : ServerInfo)
    (data : Bytes) (more : List Bytes) (upCuts : List (Nat × Memory)) (upLast : Memory)
    (answer : Bytes) (answers : List Bytes) (downCuts : List (Nat × Memory)) (downLast : Memory) :
    Transparent plugin draws t client server data more upCuts upLast answer answers downCuts
        downLast ↔
      (EncodeFits plugin draws client data ∧ 1 ≤ headSize client draws data.length ∧
        ∃ pre s post, cut upLast upCuts (headerOf plugin draws client data ++
            bodyOf client draws data more) = pre ++ s :: post ∧
          Delivered plugin draws client server data pre s) ∧
      (((∀ s ∈ cut downLast downCuts (responseHeader t ++ (answer :: answers).flatten),
            Headless s) ∧ (answer :: answers).flatten = []) ∨
        ∃ pre s post, cut downLast downCuts (responseHeader t ++ (answer :: answers).flatten) =
            pre ++ s :: post ∧ (∀ p ∈ pre, Headless p) ∧
          (bytes pre).length + 4 ≤ (responseHeader t).length ∧
            (responseHeader t).length ≤ (bytes pre).length + s.1.length) :=
  and_congr (clientToServer_iff plugin draws client server data more upCuts upLast)
    (serverToClient_iff t client server answer answers downCuts downLast)

/-- Both ends name the host `a.example`, on port 8080. -/
def exampleInfo : ServerInfo := ⟨ascii "10.0.0.1", 8080, some (ascii "a.example"), 1⟩

/-- Nothing stands behind the received bytes. -/
def exampleMemory : Memory := ⟨[], [], [], []⟩

/-- Thirty bytes of a client. -/
def exampleData : Bytes := ascii "abcdefghijklmnopqrstuvwxyz0123"

/-- When the first twenty bytes of the header come alone, the server loses the last twenty bytes of
the segment that completes it, and the client all of the answer. -/
theorem split_header_loses :
    ((sent .httpSimple exampleDraws exampleInfo exampleData []).bind fun wire ↦
        outputs serverStep (httpSimpleNewObfs exampleInfo)
          (cut exampleMemory [(19, exampleMemory)] wire)) = some (exampleData.take 10) ∧
      ((answered exampleTm exampleInfo [exampleData]).bind fun wire ↦
        outputs clientStep (httpSimpleNewObfs exampleInfo)
          (cut exampleMemory [(wire.length - 32, exampleMemory)] wire)) = some [] ∧
      ¬ Transparent .httpSimple exampleDraws exampleTm exampleInfo exampleInfo exampleData []
        [(19, exampleMemory)] exampleMemory exampleData [] [(19, exampleMemory)] exampleMemory := by
  have hup : ((sent .httpSimple exampleDraws exampleInfo exampleData []).bind fun wire ↦
      outputs serverStep (httpSimpleNewObfs exampleInfo)
        (cut exampleMemory [(19, exampleMemory)] wire)) = some (exampleData.take 10) := by
    decide +kernel
  have hdown : ((answered exampleTm exampleInfo [exampleData]).bind fun wire ↦
      outputs clientStep (httpSimpleNewObfs exampleInfo)
        (cut exampleMemory [(wire.length - 32, exampleMemory)] wire)) = some [] := by
    decide +kernel
  refine ⟨hup, hdown, ?_⟩
  rintro ⟨⟨wire, hsent, hout⟩, -⟩
  rw [hsent, Option.bind_some, hout] at hup
  have hlen := congrArg (Option.map List.length) hup
  revert hlen
  decide

end OpenWrtCompile.Http
