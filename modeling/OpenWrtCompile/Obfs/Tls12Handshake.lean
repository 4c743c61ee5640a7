import OpenWrtCompile.Obfs.Tls12Data

/-!
# The handshake of `tls1.2_ticket_auth`

A connection from the first call of `client_encode` to the data phase
(`shadowsocksr-libev/src/server/tls1.2_ticket.c`): the client queues what it is given, the two sides
exchange three flights, and the server takes the queued records from behind the last one.
-/

namespace OpenWrtCompile.Obfs
open OpenWrtCompile.Base OpenWrtCompile.Base.Framing

/-- A client and a server with one key, the calls given to the client, and the call of the server.
The HMAC is at least ten bytes long. -/
structure Handshake where
  hmac : Bytes → Bytes → Bytes
  key : Bytes
  clientParam : Option Bytes
  host : Bytes
  serverParam : Option Bytes
  clientGlobal : GlobalData
  serverGlobal : GlobalData
  /-- The clock of the server when the ClientHello arrives. -/
  serverNow : Int
  /-- The first payload. -/
  first : Call
  /-- Payloads given before the ServerHello arrives. -/
  early : List Call
  /-- The draws and the clock of `server_encode`. -/
  answer : Call
  /-- Payloads given between the ServerHello and the handshake's own call without data. -/
  late : List Call
  /-- The handshake's own call: the first one without data behind the ServerHello. -/
  last : Call
  hmac_length : ∀ k d, obfsHmacSha1Len ≤ (hmac k d).length
  clientId_length : clientGlobal.localClientId.length = 32
  late_ne : ∀ c ∈ late, c.data ≠ []
  last_nil : last.data = []
  small : ∀ c ∈ first :: (early ++ late), c.data.length < 65536

namespace Handshake

variable (h : Handshake)

/-- `server_info` of the client. -/
def clientInfo : ServerInfo := ⟨h.key, h.clientParam⟩

/-- `server_info` of the server. -/
def serverInfo : ServerInfo := ⟨h.key, h.serverParam⟩

/-- A call of the client's encoder. -/
def encode (l : LocalData) (c : Call) : Option (LocalData × Bytes) :=
  clientEncode h.hmac h.clientInfo h.host h.clientGlobal l c

/-- Calls of the client's encoder, one after the other: the state behind them and what they send. -/
def encodeAll (l : LocalData) : List Call → Option (LocalData × Bytes)
  | [] => some (l, [])
  | c :: cs => do
    let (l', sent) ← h.encode l c
    let (l'', rest) ← encodeAll l' cs
    return (l'', sent ++ rest)

/-- A call of a decoder that does not fail and asks for an answer. -/
def answered (d : Decoded) : Option Decoded :=
  if d.output.isSome && d.needsendback then some d else none

/-- The flights in order, each delivered whole: the two sides at the end and what the server puts out;
`none` where a call fails or does not ask for its answer. -/
def run : Option (LocalData × LocalData × GlobalData × Bytes) := do
  let (client, hello) ← h.encode localDataInit h.first
  let (client, _) ← h.encodeAll client h.early
  let d ← (serverDecode h.hmac h.serverInfo h.serverNow localDataInit h.serverGlobal hello
    hello.length).bind answered
  let (server, flight) ← serverEncode h.hmac h.serverInfo d.global d.localData h.answer
  let r ← answered (clientDecode h.hmac h.clientInfo client h.clientGlobal flight flight.length)
  let (client, sent) ← h.encodeAll r.localData h.late
  let (client, finish) ← h.encode client h.last
  let d' ← serverDecode h.hmac h.serverInfo h.serverNow server d.global (sent ++ finish)
    (sent ++ finish).length
  let out ← d'.output
  return (client, d'.localData, d'.global, out)

/-- The handshake ends with both sides in the data phase, and every payload comes out once and in
order: those queued behind the last flight, those given in `after` from its records, however they are
cut into segments. -/
def Delivers (after : List Call) : Prop :=
  ∃ client server global out, h.run = some (client, server, global, out) ∧
    client.handshakeStatus = .done ∧ server.handshakeStatus = .done ∧
    ∃ wire, Stream.outputs h.encode client after = some wire ∧
      ∀ blocks : List Block, (blocks.map Block.bytes).flatten = wire →
        ∃ rest, Stream.outputs (serverReceive h.hmac h.serverInfo h.serverNow global) server blocks =
            some rest ∧
          out ++ rest = ((h.first :: (h.early ++ h.late) ++ after).map Call.data).flatten

/-- The verify id of the ClientHello: the clock and 18 random bytes. -/
def helloId : Bytes :=
  [h.first.now / 16777216, h.first.now / 65536, h.first.now / 256, h.first.now].map UInt8.ofNat ++
    h.first.randBytes 208 18

/-- The clocks of the two sides are within the difference that the server allows. -/
def clocksAgree : Bool :=
  let maxDif := maxTimeDif h.serverParam
  let time := Int.bmod h.first.now (2 ^ 32)
  let timeDif := Int.bmod (time - h.serverNow) (2 ^ 32)
  !(0 < maxDif && (timeDif < -maxDif || maxDif < timeDif ||
    time - h.serverGlobal.startupTime < Int.tdiv (-maxDif) 2))

/-- What the handshake needs: room for the host names, no empty payload before the ServerHello, an
empty list of used ids, and room for the headers of the later payloads' records. -/
structure Ready (after : List Call) : Prop where
  host : hostFits (hostsText h.clientInfo h.host) (h.first.draw 0) = true
  early : ∀ c ∈ h.early, c.data ≠ []
  unused : h.serverGlobal.clientData = []
  headers : ∀ c ∈ after, HeadersFit c

end Handshake

/-! ## The layout of the flights -/

/-- A ClientHello up to its version; `n` bytes follow the message header. -/
def helloHead (n : Nat) : Bytes :=
  [0x16, 0x03, 0x01] ++ bytes16 (n + 4) ++ [0x01, 0x00] ++ bytes16 n ++ [0x03, 0x03]

/-- A ClientHello: the verify id and its HMAC, the session id, and what follows. -/
def helloBytes (id mac sessionId tail : Bytes) : Bytes :=
  helloHead (67 + tail.length) ++ (id ++ (mac ++ (0x20 :: (sessionId ++ tail))))

section Hello

variable {id mac sessionId tail : Bytes} (hid : id.length = 22) (hmac : mac.length = 10)
  (hsession : sessionId.length = 32)

include hid hmac hsession in
/-- The length of a ClientHello. -/
theorem length_helloBytes : (helloBytes id mac sessionId tail).length = 76 + tail.length := by
  simp only [helloBytes, helloHead, bytes16, List.length_append, List.length_cons, List.length_nil,
    hid, hmac, hsession]
  omega

include hid hmac hsession in
/-- The server's checks of record and message header. -/
theorem helloFormat_helloBytes (htail : tail.length + 71 < 65536) :
    helloFormat (helloBytes id mac sessionId tail) (helloBytes id mac sessionId tail).length =
      true := by
  have hrecord : be16 (helloBytes id mac sessionId tail) 3 = 67 + tail.length + 4 :=
    word16_bytes16 (by omega)
  have hmessage : be16 (helloBytes id mac sessionId tail) 7 = 67 + tail.length :=
    word16_bytes16 (by omega)
  rw [helloFormat, hrecord, hmessage, length_helloBytes hid hmac hsession]
  have hsize : 67 + tail.length + 4 + 5 = 76 + tail.length := by omega
  rw [hsize]
  simp only [decide_true, Bool.and_true]
  rfl

include hid hmac hsession in
/-- The client's ClientHello in parts. -/
theorem wrapHello_helloBody (ext : Bytes) :
    wrapHello (helloBody (id ++ mac) sessionId ext) =
      helloBytes id mac sessionId (tlsData0 ++ (bytes16 ext.length ++ ext)) := by
  have hbody : (helloBody (id ++ mac) sessionId ext).length =
      67 + (tlsData0 ++ (bytes16 ext.length ++ ext)).length := by
    simp only [helloBody, List.length_append, List.length_cons, List.length_nil, hid, hmac, hsession]
    omega
  rw [wrapHello, hbody, helloBytes, helloHead]
  simp only [helloBody, List.append_assoc, List.cons_append, List.nil_append]

include hid in
/-- The verify id. -/
theorem verifyId_helloBytes : verifyId (helloBytes id mac sessionId tail) = id :=
  window_middle rfl hid

include hid hmac in
/-- The HMAC of the verify id. -/
theorem window_mac_helloBytes : window (helloBytes id mac sessionId tail) 33 10 = mac := by
  rw [helloBytes, ← List.append_assoc]
  exact window_middle (by rw [List.length_append, hid]; rfl) hmac

include hid hmac in
/-- The length of the session id. -/
theorem sessionidLen_helloBytes : sessionidLen (helloBytes id mac sessionId tail) = 32 := by
  have hbyte : byteAt (helloBytes id mac sessionId tail) 43 = 0x20 := by
    have hbefore : (helloHead (67 + tail.length) ++ (id ++ mac)).length = 43 := by
      rw [List.length_append, List.length_append, hid, hmac]
      rfl
    rw [byteAt, helloBytes, ← List.append_assoc id, ← List.append_assoc,
      List.getElem?_append_right (by omega), hbefore]
    rfl
  rw [sessionidLen, hbyte]
  rfl

include hid hmac hsession in
/-- The session id. -/
theorem window_session_helloBytes :
    window (helloBytes id mac sessionId tail) 44 32 = sessionId := by
  have hsplit : helloBytes id mac sessionId tail =
      (helloHead (67 + tail.length) ++ (id ++ (mac ++ [0x20]))) ++ (sessionId ++ tail) := by
    simp only [helloBytes, List.append_assoc, List.singleton_append]
  rw [hsplit]
  apply window_middle _ hsession
  simp only [List.length_append, hid, hmac]
  rfl

end Hello

/-- The first four bytes of the verify id. -/
theorem be16_helloBytes (b0 b1 b2 b3 : UInt8) (rand mac sessionId tail : Bytes) :
    be16 (helloBytes (b0 :: b1 :: b2 :: b3 :: rand) mac sessionId tail) 11 = word16 b0 b1 ∧
      be16 (helloBytes (b0 :: b1 :: b2 :: b3 :: rand) mac sessionId tail) 13 = word16 b2 b3 :=
  ⟨rfl, rfl⟩

/-- The clock in a ClientHello. -/
theorem utcTime_helloBytes (now : Nat) (rand mac sessionId tail : Bytes) :
    utcTime (helloBytes ([now / 16777216, now / 65536, now / 256, now].map UInt8.ofNat ++ rand) mac
      sessionId tail) = Int.bmod now (2 ^ 32) := by
  obtain ⟨hhigh, hlow⟩ := be16_helloBytes (UInt8.ofNat (now / 16777216)) (UInt8.ofNat (now / 65536))
    (UInt8.ofNat (now / 256)) (UInt8.ofNat now) rand mac sessionId tail
  have hnow : word16 (UInt8.ofNat (now / 16777216)) (UInt8.ofNat (now / 65536)) * 65536 +
      word16 (UInt8.ofNat (now / 256)) (UInt8.ofNat now) = now % 4294967296 := by
    simp only [word16, UInt8.toNat_ofNat']
    omega
  have hbmod : Int.bmod ((now % 4294967296 : Nat) : Int) (2 ^ 32) = Int.bmod now (2 ^ 32) := by
    rw [Int.natCast_emod]
    exact Int.emod_bmod (now : Int) 4294967296
  rw [← hbmod, ← hnow, ← hhigh, ← hlow]
  rfl

/-- An HMAC cut to ten bytes. -/
theorem length_take_hmac {hmac : Bytes → Bytes → Bytes}
    (hlength : ∀ k d, obfsHmacSha1Len ≤ (hmac k d).length) (k d : Bytes) :
    ((hmac k d).take obfsHmacSha1Len).length = 10 := by
  have h : 10 ≤ (hmac k d).length := hlength k d
  have hten : obfsHmacSha1Len = 10 := rfl
  rw [List.length_take, hten]
  omega

@[simp] theorem Call.length_randBytes (c : Call) (off len : Nat) :
    (c.randBytes off len).length = len := by
  rw [Call.randBytes, List.length_map, List.length_range]

/-- `server_decode` takes a well-formed ClientHello if its clock is acceptable and its id is not
found. -/
theorem decodeHello_helloBytes {hmac : Bytes → Bytes → Bytes} {info : ServerInfo} {now : Int}
    {l : LocalData} {g : GlobalData} {id sessionId tail : Bytes}
    (hlength : ∀ k d, obfsHmacSha1Len ≤ (hmac k d).length) (hid : id.length = 22)
    (hsession : sessionId.length = 32) (htail : tail.length + 71 < 65536)
    (htime : acceptableTime info g.startupTime now (helloBytes id
      ((hmac (info.key ++ sessionId) id).take obfsHmacSha1Len) sessionId tail) = true) :
    decodeHello hmac info now l g
        (helloBytes id ((hmac (info.key ++ sessionId) id).take obfsHmacSha1Len) sessionId tail)
        (helloBytes id ((hmac (info.key ++ sessionId) id).take obfsHmacSha1Len) sessionId
          tail).length =
      if listHaveSameCmp g.clientData id then
        some ⟨{ l with handshakeStatus := .clientHello }, { g with localClientId := sessionId }, none,
          (helloBytes id ((hmac (info.key ++ sessionId) id).take obfsHmacSha1Len) sessionId
            tail).length, false⟩
      else
        some ⟨{ l with handshakeStatus := .clientHello },
          { g with localClientId := sessionId, clientData := listAddBack g.clientData id }, some [],
          (helloBytes id ((hmac (info.key ++ sessionId) id).take obfsHmacSha1Len) sessionId
            tail).length, true⟩ := by
  have hmac10 := length_take_hmac hlength (info.key ++ sessionId) id
  have hverify := @verifyId_helloBytes id ((hmac (info.key ++ sessionId) id).take obfsHmacSha1Len)
    sessionId tail hid
  have hwindow := @window_mac_helloBytes id _ sessionId tail hid hmac10
  have hsid := @sessionidLen_helloBytes id _ sessionId tail hid hmac10
  have hsessionId := @window_session_helloBytes id _ sessionId tail hid hmac10 hsession
  have hformat := @helloFormat_helloBytes id _ sessionId tail hid hmac10 hsession htail
  have htoNat : (32 : Int).toNat = 32 := rfl
  have hten : obfsHmacSha1Len = 10 := rfl
  have hcheck : helloHmac hmac info (helloBytes id
      ((hmac (info.key ++ sessionId) id).take obfsHmacSha1Len) sessionId tail) = true := by
    rw [helloHmac, hsid, htoNat, hsessionId, hverify]
    exact decide_eq_true hwindow
  unfold decodeHello
  simp only [hformat, hsid, htoNat, hsessionId, htime, hcheck, hverify, Bool.not_true,
    Bool.false_eq_true, if_false, Int.lt_irrefl]

/-- The flight of the server. -/
theorem serverHello_eq (hmac : Bytes → Bytes → Bytes) (info : ServerInfo) (l : LocalData)
    (g : GlobalData) (now : Nat) (rand rand' mem : Bytes) :
    ∃ tail, rand'.length + 21 ≤ tail.length ∧
      (serverHello hmac info l g now rand rand' mem).2 =
      [0x16, 0x03, 0x03, 0x00, 0x51, 0x02, 0x00, 0x00, 0x4D, 0x03, 0x03] ++
        (([now / 16777216, now / 65536, now / 256, now].map UInt8.ofNat ++ rand) ++
          ((hmac (info.key ++ g.localClientId)
            ([now / 16777216, now / 65536, now / 256, now].map UInt8.ofNat ++ rand)).take
              obfsHmacSha1Len ++ (0x20 :: (g.localClientId ++ tail)))) := by
  refine ⟨_, ?_, by
    simp only [serverHello, packAuthData, List.append_assoc, List.singleton_append]
    rfl⟩
  simp only [List.length_append, List.length_cons]
  omega

/-- `client_decode` asks for the last flight when it gets the server's. -/
theorem clientDecode_serverHello {hmac : Bytes → Bytes → Bytes} {info info' : ServerInfo}
    {l l' : LocalData} {g g' : GlobalData} {now : Nat} {rand rand' mem flight : Bytes}
    (hlength : ∀ k d, obfsHmacSha1Len ≤ (hmac k d).length) (hkey : info.key = info'.key)
    (hid : g.localClientId = g'.localClientId) (hid32 : g'.localClientId.length = 32)
    (hrand : rand.length = 18) (hl : l.handshakeStatus = .clientHelloSent)
    (hflight : flight = (serverHello hmac info' l' g' now rand rand' mem).2) :
    clientDecode hmac info l g flight flight.length = ⟨l, g, some [], flight.length, true⟩ := by
  obtain ⟨tail, htail, heq⟩ := serverHello_eq hmac info' l' g' now rand rand' mem
  rw [heq] at hflight
  have hauth : ([now / 16777216, now / 65536, now / 256, now].map UInt8.ofNat ++ rand).length =
      22 := by
    rw [List.length_append, List.length_map, hrand]
    rfl
  have hmac10 := length_take_hmac hlength (info'.key ++ g'.localClientId)
    ([now / 16777216, now / 65536, now / 256, now].map UInt8.ofNat ++ rand)
  generalize [now / 16777216, now / 65536, now / 256, now].map UInt8.ofNat ++ rand = auth at *
  have hverify : window flight 11 22 = auth := by
    rw [hflight]
    exact window_middle rfl hauth
  have hcheck : window flight 33 obfsHmacSha1Len =
      (hmac (info'.key ++ g'.localClientId) auth).take obfsHmacSha1Len := by
    rw [hflight, ← List.append_assoc]
    exact window_middle (by rw [List.length_append, hauth]; rfl) hmac10
  have hlong : ¬ flight.length < 11 + 32 + 1 + 32 := by
    rw [hflight]
    simp only [List.length_append, List.length_cons, List.length_nil, hauth, hmac10, hid32]
    omega
  have hkey' : info.key ++ g.localClientId = info'.key ++ g'.localClientId := by
    rw [hkey, hid]
  simp only [clientDecode, hl, hverify, hcheck, hkey', hlong, if_false, ne_eq, not_true_eq_false]

/-- The server takes what is queued behind the last flight for the first bytes of the data phase. -/
theorem serverDecode_clientFinished {hmac : Bytes → Bytes → Bytes} {info info' : ServerInfo}
    {now : Int} {l : LocalData} {g g' : GlobalData} {rand queued : Bytes}
    (hlength : ∀ k d, obfsHmacSha1Len ≤ (hmac k d).length) (hkey : info.key = info'.key)
    (hid : g.localClientId = g'.localClientId) (hrand : rand.length = 22)
    (hl : l.handshakeStatus = .serverHello) {flight left out : Bytes}
    (hflight : flight = clientFinished hmac info g rand queued)
    (hfeed : feed (parseRecord serverHeader) [] queued = some (left, out)) :
    ∃ d, serverDecode hmac info' now l g' flight flight.length = some d ∧
      d.localData = ⟨.done, l.sendBuffer, left⟩ ∧ d.output = some out := by
  have hhead : (finishedHead rand).length = 33 := by
    simp only [finishedHead, List.length_append, List.length_cons, List.length_nil, hrand]
  have hmac10 := length_take_hmac hlength (info.key ++ g.localClientId) (finishedHead rand)
  have htake : flight.take 33 = finishedHead rand := by
    rw [hflight, clientFinished, List.append_assoc, ← hhead, List.take_left]
  have hcheck : window flight 33 obfsHmacSha1Len =
      (hmac (info'.key ++ g'.localClientId) (flight.take 33)).take obfsHmacSha1Len := by
    rw [htake, ← hkey, ← hid, hflight, clientFinished, List.append_assoc]
    exact window_middle hhead hmac10
  have hlen : flight.length = 43 + queued.length := by
    rw [hflight, clientFinished, List.length_append, List.length_append, hhead, hmac10]
  have hqueued : window flight 43 (flight.length - 43) = queued := by
    have hsplit : flight = (finishedHead rand ++
        (hmac (info.key ++ g.localClientId) (finishedHead rand)).take obfsHmacSha1Len) ++
          (queued ++ []) := by
      rw [hflight, clientFinished, List.append_nil]
    rw [hsplit] at hlen ⊢
    apply window_middle
    · rw [List.length_append, hhead, hmac10]
    · rw [hlen]
      omega
  have hsix : flight.take 6 = [0x14, 0x03, 0x03, 0x00, 0x01, 0x01] := by
    rw [hflight]
    rfl
  have hfive : window flight 6 5 = [0x16, 0x03, 0x03, 0x00, 0x20] := by
    rw [hflight]
    rfl
  have hdecode : serverDecode hmac info' now l g' flight flight.length =
      some (decodeData { l with recvBuffer := queued, handshakeStatus := .done } g' []
        flight.length) := by
    simp only [serverDecode, hl, decodeFinished, hsix, hfive, hcheck, hqueued, ne_eq,
      not_true_eq_false, decide_false, Bool.or_false, decide_eq_true_eq]
    rw [if_neg (by omega)]
  have hfeed' : feed (parseRecord serverHeader) queued [] = some (left, out) := by
    rw [← hfeed, feed, feed, List.append_nil, List.nil_append]
  obtain ⟨hleft, hout⟩ := recordsLoop_of_feed (fun capacity pending _ size ↦
    if capacity < pending + size then (pending + size) * 2 else capacity) flight.length hfeed'
  rw [← decodeRecords_eq_loop] at hleft hout
  refine ⟨_, hdecode, ?_, hout⟩
  simp only [decodeData, hleft]

/-! ## The client's queue -/

/-- What is queued for calls. -/
def queueRecords (calls : List Call) : List (Bytes × Bytes) :=
  calls.map fun c ↦ (packData c.data, c.data)

namespace Handshake

variable (h : Handshake)

/-- The ClientHello of the run. -/
def hello : Bytes :=
  wrapHello (helloBody (packAuthData h.hmac h.clientInfo h.clientGlobal h.first.now
    (h.first.randBytes 208 18)) h.clientGlobal.localClientId
      (tlsData (serverName (hostsText h.clientInfo h.host) (h.first.draw 0))
        (h.first.randBytes 0 208)))

/-- The first call sends the ClientHello and queues its data, where the host names have room. -/
theorem encode_first :
    h.encode localDataInit h.first =
      if hostFits (hostsText h.clientInfo h.host) (h.first.draw 0) then
        some (⟨.clientHelloSent, packData h.first.data, []⟩, h.hello)
      else none := by
  unfold encode clientEncode clientHello
  simp only [localDataInit, reduceCtorEq, if_false, if_true, List.nil_append]
  split <;> rfl

/-- Before the handshake is over, calls with data are queued. -/
theorem encodeAll_queue {l : LocalData} (hl : l.handshakeStatus = .clientHelloSent)
    {calls : List Call} (hne : ∀ c ∈ calls, c.data ≠ []) :
    h.encodeAll l calls =
      some ({ l with sendBuffer := l.sendBuffer ++ stream (queueRecords calls) }, []) := by
  induction calls generalizing l with
  | nil => simp [encodeAll, queueRecords]
  | cons c calls ih =>
    obtain ⟨hc, hcalls⟩ := List.forall_mem_cons.mp hne
    have hstep : h.encode l c = some ({ l with sendBuffer := l.sendBuffer ++ packData c.data }, []) := by
      unfold encode clientEncode
      simp only [hl, reduceCtorEq, if_false, hc]
    have hrest := @ih { l with sendBuffer := l.sendBuffer ++ packData c.data } hl hcalls
    simp only [encodeAll, hstep, Option.bind_eq_bind, Option.bind_some, hrest, List.nil_append]
    simp [queueRecords]

/-- A call does not go back to the start, and ends the handshake when it has no data. -/
theorem encode_spec {l l' : LocalData} {c : Call} {sent : Bytes} (hl : l.handshakeStatus ≠ .start)
    (h' : h.encode l c = some (l', sent)) :
    l'.handshakeStatus ≠ .start ∧
      (l.handshakeStatus = .done ∨ c.data = [] → l'.handshakeStatus = .done) := by
  unfold encode clientEncode at h'
  by_cases hdone : l.handshakeStatus = .done
  · rw [if_pos hdone] at h'
    obtain ⟨out, -, hout⟩ := Option.map_eq_some_iff.mp h'
    cases hout
    exact ⟨hl, fun _ ↦ hdone⟩
  · rw [if_neg hdone, if_neg hl] at h'
    by_cases hdata : c.data = []
    · rw [if_pos hdata] at h'
      cases h'
      exact ⟨by simp, fun _ ↦ rfl⟩
    · rw [if_neg hdata] at h'
      cases h'
      refine ⟨hl, ?_⟩
      rintro (hd | hd)
      · exact absurd hd hdone
      · exact absurd hd hdata

/-- Calls of which one has no data end the handshake. -/
theorem encodeAll_done {l l' : LocalData} {calls : List Call} {sent : Bytes}
    (hl : l.handshakeStatus ≠ .start) (h' : h.encodeAll l calls = some (l', sent))
    (hsome : l.handshakeStatus = .done ∨ ∃ c ∈ calls, c.data = []) :
    l'.handshakeStatus = .done := by
  induction calls generalizing l sent with
  | nil =>
    cases h'
    rcases hsome with hd | ⟨c, hc, -⟩
    · exact hd
    · cases hc
  | cons c calls ih =>
    obtain ⟨⟨l₁, sent₁⟩, hfirst, h'⟩ := Option.bind_eq_some_iff.mp h'
    obtain ⟨⟨l₂, sent₂⟩, hrest, h'⟩ := Option.bind_eq_some_iff.mp h'
    cases h'
    obtain ⟨hstart, hdone⟩ := h.encode_spec hl hfirst
    apply ih hstart hrest
    rcases hsome with hd | ⟨c', hc', hd⟩
    · exact .inl (hdone (.inl hd))
    · rcases List.mem_cons.mp hc' with rfl | hc'
      · exact .inl (hdone (.inr hd))
      · exact .inr ⟨c', hc', hd⟩

/-! ## The run -/

/-- A server name has room. -/
theorem length_serverName (hosts : Bytes) (draw : UInt64) (hfits : hostFits hosts draw = true) :
    (serverName hosts draw).length < 256 := by
  have hlen : (chosenHost hosts draw).length < 256 := by
    simp only [hostFits, Bool.and_eq_true, decide_eq_true_eq] at hfits
    exact hfits.2
  unfold serverName
  split
  · exact Nat.zero_lt_succ _
  · exact hlen

/-- The ClientHello in parts. -/
theorem hello_eq (hfits : hostFits (hostsText h.clientInfo h.host) (h.first.draw 0) = true) :
    ∃ tail, tail.length + 71 < 65536 ∧ h.hello = helloBytes h.helloId
      ((h.hmac (h.key ++ h.clientGlobal.localClientId) h.helloId).take obfsHmacSha1Len)
      h.clientGlobal.localClientId tail := by
  have hname := length_serverName _ _ hfits
  have hid : h.helloId.length = 22 := by
    rw [helloId, List.length_append, List.length_map, Call.length_randBytes]
    rfl
  have hmac10 := length_take_hmac h.hmac_length (h.key ++ h.clientGlobal.localClientId) h.helloId
  refine ⟨_, ?_, wrapHello_helloBody hid hmac10 h.clientId_length _⟩
  simp only [tlsData, List.length_append, Call.length_randBytes, bytes16, tlsData0, tlsData1,
    tlsData2, tlsData3, List.length_cons, List.length_nil]
  omega

/-- What `server_decode` does with the ClientHello: it stores the id of a list without another. -/
theorem serverDecode_hello (hfits : hostFits (hostsText h.clientInfo h.host) (h.first.draw 0) = true)
    (hclock : h.clocksAgree = true) :
    ∃ d, serverDecode h.hmac h.serverInfo h.serverNow localDataInit h.serverGlobal h.hello
        h.hello.length = some d ∧
      (listHaveSameCmp h.serverGlobal.clientData h.helloId = true → d.output = none) ∧
      (listHaveSameCmp h.serverGlobal.clientData h.helloId = false →
        d.output = some [] ∧ d.needsendback = true ∧
          d.localData = ⟨.clientHello, [], []⟩ ∧
          d.global.localClientId = h.clientGlobal.localClientId) := by
  have hid : h.helloId.length = 22 := by
    rw [helloId, List.length_append, List.length_map, Call.length_randBytes]
    rfl
  obtain ⟨tail, htail, hhello⟩ := h.hello_eq hfits
  have htime : acceptableTime h.serverInfo h.serverGlobal.startupTime h.serverNow (helloBytes h.helloId
      ((h.hmac (h.key ++ h.clientGlobal.localClientId) h.helloId).take obfsHmacSha1Len)
      h.clientGlobal.localClientId tail) = true := by
    rw [← hclock, acceptableTime, clocksAgree, helloId, utcTime_helloBytes]
    rfl
  have hdecode := @decodeHello_helloBytes h.hmac h.serverInfo h.serverNow localDataInit
    h.serverGlobal h.helloId h.clientGlobal.localClientId tail h.hmac_length hid h.clientId_length
    htail htime
  rw [hhello]
  cases hfound : listHaveSameCmp h.serverGlobal.clientData h.helloId with
  | true =>
    rw [hfound, if_pos rfl] at hdecode
    exact ⟨_, hdecode, fun _ ↦ rfl, fun hne ↦ absurd hne (by decide)⟩
  | false =>
    rw [hfound, if_neg (by decide)] at hdecode
    exact ⟨_, hdecode, fun hne ↦ absurd hne (by decide), fun _ ↦ ⟨rfl, rfl, rfl, rfl⟩⟩

/-- What is queued when the last flight is sent. -/
def queued : List (Bytes × Bytes) := queueRecords (h.first :: (h.early ++ h.late) ++ [h.last])

/-- The queued records are frames, and carry the payloads. -/
theorem queued_spec :
    (∀ f ∈ h.queued, IsFrame (parseRecord serverHeader) f) ∧
      payload h.queued = ((h.first :: (h.early ++ h.late)).map Call.data).flatten := by
  constructor
  · intro f hf
    obtain ⟨c, hc, rfl⟩ := List.mem_map.mp hf
    apply isFrame_packData _ serverHeader_record
    rcases List.mem_append.mp hc with hc | hc
    · exact h.small c hc
    · rw [List.mem_singleton.mp hc, h.last_nil]
      decide
  · have hpayload (calls : List Call) : payload (queueRecords calls) = (calls.map Call.data).flatten := by
      rw [payload, queueRecords, List.map_map]
      rfl
    rw [queued, hpayload, List.map_append, List.flatten_append]
    simp [h.last_nil]

/-- The queue in the order of the calls. -/
theorem stream_queued :
    stream h.queued = packData h.first.data ++ stream (queueRecords h.early) ++
      stream (queueRecords h.late) ++ packData [] := by
  simp [queued, queueRecords, h.last_nil]

/-- The run, where it succeeds. -/
theorem run_eq (hfits : hostFits (hostsText h.clientInfo h.host) (h.first.draw 0) = true)
    (hclock : h.clocksAgree = true)
    (hunused : listHaveSameCmp h.serverGlobal.clientData h.helloId = false)
    (hearly : ∀ c ∈ h.early, c.data ≠ []) {left out : Bytes}
    (hfeed : feed (parseRecord serverHeader) [] (stream h.queued) = some (left, out)) :
    ∃ global, h.run = some (⟨.done, [], []⟩, ⟨.done, [], left⟩, global, out) := by
  obtain ⟨d, hd, -, haccept⟩ := h.serverDecode_hello hfits hclock
  obtain ⟨hdout, hdsend, hdlocal, hdid⟩ := haccept hunused
  have hfirst := h.encode_first
  rw [if_pos hfits] at hfirst
  have hqueue := @encodeAll_queue h ⟨.clientHelloSent, packData h.first.data, []⟩ rfl h.early hearly
  have hanswered : answered d = some d := by
    rw [answered, hdout, hdsend]
    rfl
  have hserver : serverEncode h.hmac h.serverInfo d.global d.localData h.answer =
      some (⟨.serverHello, [], []⟩, (serverHello h.hmac h.serverInfo d.localData d.global h.answer.now
        (h.answer.randBytes 0 18) (h.answer.randBytes 18 22) (h.answer.randBytes 40 10)).2) := by
    rw [serverEncode, hdlocal, if_neg (by decide)]
    rfl
  have hid32 : d.global.localClientId.length = 32 := by
    rw [hdid]
    exact h.clientId_length
  have hclient := @clientDecode_serverHello h.hmac h.clientInfo h.serverInfo
    ⟨.clientHelloSent, packData h.first.data ++ stream (queueRecords h.early), []⟩ d.localData
    h.clientGlobal d.global h.answer.now (h.answer.randBytes 0 18) (h.answer.randBytes 18 22)
    (h.answer.randBytes 40 10) _ h.hmac_length rfl hdid.symm hid32 (h.answer.length_randBytes 0 18) rfl
    rfl
  have hlate := @encodeAll_queue h
    ⟨.clientHelloSent, packData h.first.data ++ stream (queueRecords h.early), []⟩ rfl h.late h.late_ne
  have hlast : h.encode ⟨.clientHelloSent, packData h.first.data ++ stream (queueRecords h.early) ++
      stream (queueRecords h.late), []⟩ h.last =
        some (⟨.done, [], []⟩, clientFinished h.hmac h.clientInfo h.clientGlobal
          (h.last.randBytes 0 22) (stream h.queued)) := by
    unfold encode clientEncode
    simp only [reduceCtorEq, if_false, h.last_nil, if_true, h.stream_queued]
  obtain ⟨d', hd', hd'local, hd'out⟩ := @serverDecode_clientFinished h.hmac h.clientInfo h.serverInfo
    h.serverNow ⟨.serverHello, [], []⟩ h.clientGlobal d.global (h.last.randBytes 0 22)
    (stream h.queued) h.hmac_length rfl hdid.symm (h.last.length_randBytes 0 22) rfl _ left out rfl hfeed
  refine ⟨d'.global, ?_⟩
  unfold run
  simp only [hfirst, hqueue, hd, hanswered, hserver, Option.bind_eq_bind, Option.bind_some, hclient]
  simp only [answered, Option.isSome_some, Bool.and_self, if_true, Option.bind_some, hlate, hlast,
    List.nil_append, hd', hd'out, hd'local]
  rfl

/-- In the data phase `client_encode` cuts a message into records. -/
theorem encode_done {l : LocalData} (hl : l.handshakeStatus = .done) (c : Call) :
    h.encode l c = (dataEncode c).map (Prod.mk l) := by
  rw [encode, clientEncode, if_pos hl]

/-- A handshake that is ready delivers. -/
theorem delivers_of_ready {after : List Call} (hclock : h.clocksAgree = true)
    (hready : h.Ready after) : h.Delivers after := by
  have hunused : listHaveSameCmp h.serverGlobal.clientData h.helloId = false := by
    rw [hready.unused]
    exact listHaveSameCmp_nil h.helloId
  obtain ⟨hqueued, hpayload⟩ := h.queued_spec
  have hframes : ∀ f ∈ h.queued ++ after.flatMap records, IsFrame (parseRecord serverHeader) f := by
    intro f hf
    rcases List.mem_append.mp hf with hf | hf
    · exact hqueued f hf
    · obtain ⟨c, -, hc⟩ := List.mem_flatMap.mp hf
      exact (records_spec serverHeader_record c).1 f hc
  have hprefix : [] ++ stream h.queued <+: stream (h.queued ++ after.flatMap records) := by
    rw [stream_append]
    exact List.prefix_append _ _
  obtain ⟨done, todo, left, hsplit, hleft, hfeed, hopen⟩ := feed_frames rfl hframes hprefix
  obtain ⟨global, hrun⟩ := h.run_eq hready.host hclock hunused hready.early hfeed
  refine ⟨_, _, _, _, hrun, rfl, rfl, stream (after.flatMap records), ?_, ?_⟩
  · rw [outputs_encode (h.encode_done rfl), if_pos hready.headers]
  intro blocks hblocks
  have htodo : left ++ (blocks.map Block.bytes).flatten = stream todo := by
    apply List.append_cancel_left
    rw [← List.append_assoc, ← hleft, hblocks, ← stream_append, hsplit.symm, stream_append]
    rfl
  have hrest := outputs_feed rfl (fun f hf ↦ hframes f (hsplit ▸ List.mem_append_right done hf)) hopen
    (by rw [htodo])
  rw [htodo, arrived_all] at hrest
  refine ⟨payload todo, ?_, ?_⟩
  · let keep (pending : Bytes) : LocalData := ⟨.done, [], pending⟩
    have hfollows : ∀ pending b left' out', feed (parseRecord serverHeader) pending (Block.bytes b) =
        some (left', out') → serverReceive h.hmac h.serverInfo h.serverNow global (keep pending) b =
          some (keep left', out') := fun pending b left' out' hstep ↦ serverReceive_done [] b hstep
    exact Stream.outputs_of_follows hfollows hrest
  · have hafter : payload (after.flatMap records) = (after.map Call.data).flatten := by
      rw [payload_flatMap]
      congr 1
      apply List.map_congr_left
      intro c _
      exact (records_spec serverHeader_record c).2
    rw [← payload_append, ← hsplit, payload_append, hpayload, hafter, List.map_append,
      List.flatten_append]

/-- A run that succeeds had room for the host names, no empty payload before the ServerHello, and an
id that the list lets pass. -/
theorem of_run {r : LocalData × LocalData × GlobalData × Bytes} (hclock : h.clocksAgree = true)
    (hrun : h.run = some r) :
    hostFits (hostsText h.clientInfo h.host) (h.first.draw 0) = true ∧ (∀ c ∈ h.early, c.data ≠ []) ∧
      listHaveSameCmp h.serverGlobal.clientData h.helloId = false := by
  obtain ⟨⟨client, hello⟩, hfirst, hrun⟩ := Option.bind_eq_some_iff.mp hrun
  obtain ⟨⟨client', sent⟩, hearly, hrun⟩ := Option.bind_eq_some_iff.mp hrun
  obtain ⟨d, hd, hrun⟩ := Option.bind_eq_some_iff.mp hrun
  obtain ⟨⟨server, flight⟩, hserver, hrun⟩ := Option.bind_eq_some_iff.mp hrun
  obtain ⟨r', hclient, -⟩ := Option.bind_eq_some_iff.mp hrun
  rw [encode_first] at hfirst
  have hfits : hostFits (hostsText h.clientInfo h.host) (h.first.draw 0) = true := by
    by_contra hno
    rw [if_neg hno] at hfirst
    cases hfirst
  rw [if_pos hfits] at hfirst
  cases hfirst
  obtain ⟨d', hd', hfound, hfree⟩ := h.serverDecode_hello hfits hclock
  rw [hd', Option.bind_some] at hd
  have hunused : listHaveSameCmp h.serverGlobal.clientData h.helloId = false := by
    by_contra hused
    rw [Bool.not_eq_false] at hused
    rw [answered, hfound hused] at hd
    cases hd
  refine ⟨hfits, ?_, hunused⟩
  intro c hc hempty
  have hdone : client'.handshakeStatus = .done :=
    h.encodeAll_done (by simp) hearly (.inr ⟨c, hc, hempty⟩)
  rw [clientDecode, hdone] at hclient
  unfold answered clientDecodeData at hclient
  rw [Bool.and_false] at hclient
  cases hclient

end Handshake

/-- A client's handshake with one payload before the ServerHello, with a server that has stored
`used`. -/
def plainHandshake (used : List Bytes) : Handshake where
  hmac _ _ := List.replicate 20 0
  key := [1, 2]
  clientParam := none
  host := [0x61, 0x2E, 0x62]
  serverParam := none
  clientGlobal := initData (List.replicate 32 7) 0
  serverGlobal := { initData (List.replicate 32 9) 0 with clientData := used }
  serverNow := 1000
  first := ⟨[1, 2, 3], fun _ ↦ 0, fun _ ↦ 5, 1000⟩
  early := [⟨[4], fun _ ↦ 0, fun _ ↦ 5, 1001⟩]
  answer := ⟨[], fun _ ↦ 0, fun _ ↦ 6, 1001⟩
  late := []
  last := ⟨[], fun _ ↦ 0, fun _ ↦ 7, 1002⟩
  hmac_length _ _ := by decide
  clientId_length := rfl
  late_ne := by decide
  last_nil := rfl
  small := by decide

end OpenWrtCompile.Obfs
