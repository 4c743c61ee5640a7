import OpenWrtCompile.Server.Compatible
import OpenWrtCompile.Server.ObfsPlugins

/-!
# The segment the IV is read from

`shadowsocksr-libev/src/server/server.c:660–730` and `encrypt.c:1347–1378`: a new context takes the
IV off the buffer it is given. `server_recv_cb` waits for more than an IV and a byte, but the obfs
plugin may then take bytes away (`http_simple.c:382–498`, `tls1.2_ticket.c:425–497`): `server_decode`
returns 0 for a header that is not complete, and for a handshake that ends without a whole record.
-/

namespace OpenWrtCompile.Server
open OpenWrtCompile.Base

/-! ## What a plugin makes of the first bytes -/

/-- A beginning of a request that `http_simple` keeps. -/
def HttpStart (data : Bytes) : Prop :=
  10 < data.length ∧ data.length ≤ 65536 ∧
    (strstr data (ascii "GET /") = some 0 ∨ strstr data (ascii "POST /") = some 0)

/-- A request of which no more than an IV is left: its header is not complete, or the bytes in its
request line and those behind the header are too few. -/
def HttpStarves (ivLen : Nat) (mem : Http.Memory) (o : Http.HttpObfs) (b : Buffer) : Prop :=
  HttpStart b.data ∧
    match strstr b.array Http.blankLine with
    | none => True
    | some i =>
      (Http.checkHost mem ⟨o.server, { o.localData with recvBuffer := b.data }⟩).any (·.2) = true ∧
        Http.getDataFromHttpHeader mem.behindHex b.array ≠ [] ∧ i + 4 ≤ b.data.length ∧
        (Http.getDataFromHttpHeader mem.behindHex b.array).length + (b.data.length - (i + 4)) ≤ ivLen

/-- A Finished message that `tls1.2_ticket_auth` takes. -/
def validFinished (hmac : Bytes → Bytes → Bytes) (info : Obfs.ServerInfo) (g : Obfs.GlobalData)
    (mem : Bytes) (n : Nat) : Bool :=
  43 ≤ n && mem.take 6 = [0x14, 0x03, 0x03, 0x00, 0x01, 0x01] &&
    window mem 6 5 = [0x16, 0x03, 0x03, 0x00, 0x20] &&
    window mem 33 Obfs.obfsHmacSha1Len =
      (hmac (info.key ++ g.localClientId) (mem.take 33)).take Obfs.obfsHmacSha1Len

/-- A Finished message with whole records behind it that hold no more than an IV. -/
def TlsStarves (ivLen : Nat) (hmac : Bytes → Bytes → Bytes) (info : Obfs.ServerInfo)
    (g : Obfs.GlobalData) (l : Obfs.LocalData) (b : Buffer) : Prop :=
  l.handshakeStatus = .serverHello ∧ validFinished hmac info g b.array b.len = true ∧
    ∃ left out, Framing.feed (Obfs.parseRecord Obfs.serverHeader) []
        (window b.array 43 (b.len - 43)) = some (left, out) ∧ out.length ≤ ivLen

/-- Of the bytes received the plugin leaves no more than an IV. -/
def ObfsPlugin.Starves (config : ObfsConfig) (ivLen : Nat) : (p : ObfsPlugin) → p.Data → Buffer → Prop
  | .plain, _, _ => False
  | .httpSimple, s, b | .httpPost, s, b => HttpStarves ivLen (s.1 0).1 s.2 b
  | .tls12TicketAuth, s, b => TlsStarves ivLen config.hmac config.tls (s.1 0).global s.2 b

/-- The plugin has not got past its handshake. -/
def ObfsPlugin.Untouched : (p : ObfsPlugin) → p.Data → Prop
  | .plain, _ => True
  | .httpSimple, s | .httpPost, s =>
    s.2.localData.hasRecvHeader = false ∧ s.2.localData.recvBuffer = []
  | .tls12TicketAuth, s => s.2.handshakeStatus ≠ .done

/-- How a plugin treats the bytes the IV is to be read from: those that `starves` names come out with
no more than an IV, others come out longer, are refused, or are answered, and the answer leaves the
plugin where it was. -/
structure FirstDecoder {ρ : Type} (cls : Option (ObfsClass ρ)) (ivLen : Nat) (untouched : ρ → Prop)
    (starves : ρ → Buffer → Prop) : Prop where
  plain : cls.bind (·.serverDecode) = none → ∀ o b, ¬ starves o b
  starved : ∀ f, cls.bind (·.serverDecode) = some f → ∀ o b, untouched o → ivLen + 1 < b.len →
    starves o b → ∃ d, f o b.array b.len = some d ∧ d.needsendback = false ∧ 0 ≤ d.ret ∧ d.ret ≤ ivLen
  fed : ∀ f, cls.bind (·.serverDecode) = some f → ∀ o b d, untouched o → ivLen + 1 < b.len →
    ¬ starves o b → f o b.array b.len = some d → d.needsendback = true ∨ d.ret < 0 ∨ ivLen < d.ret
  asked : ∀ f, cls.bind (·.serverDecode) = some f → ∀ o (b : Buffer) d, untouched o →
    f o b.array b.len = some d → d.needsendback = true → untouched d.data
  answered : ∀ f, cls.bind (·.serverEncode) = some f → ∀ o mem d, untouched o →
    f o mem 0 = some d → untouched d.data

/-- What a call leaves. -/
theorem percall_eq {ω ρ : Type} {f : ω → Option (Hook ρ)} {s : (Nat → ω) × ρ} {hook : Hook ρ}
    (hhook : f (s.1 0) = some hook) (block : Bytes) (len : Nat) :
    percall f s block len = (hook s.2 block len).map fun h ↦
      ⟨(fun n ↦ s.1 (n + 1), h.data), h.block, h.moved, h.ret, h.needsendback⟩ := by
  rw [percall, hhook, Option.bind_some]

/-! ### `http_simple` -/

section Http

variable {mem : Http.Memory} {o : Http.HttpObfs} {data : Bytes}

/-- A beginning that is kept is searched for the end of the header. -/
theorem httpDecode_start (hfirst : o.localData.hasRecvHeader = false ∧ o.localData.recvBuffer = [])
    (hstart : HttpStart data) :
    Http.httpSimpleServerDecode mem o data =
      match strstr (data ++ mem.behind) Http.blankLine with
      | none => some (⟨o.server, { o.localData with recvBuffer := data }⟩, some [])
      | some i => Http.completeHeader mem ⟨o.server, { o.localData with recvBuffer := data }⟩
          (data ++ mem.behind) data.length (i + 4) := by
  obtain ⟨hshort, hlong, hmethod⟩ := hstart
  have hne : data ≠ [] := by
    rintro rfl
    exact absurd hshort (Nat.not_lt_zero 10)
  have hbegins : ¬ (strstr data (ascii "GET /") ≠ some 0 ∧ strstr data (ascii "POST /") ≠ some 0) := by
    rintro ⟨hget, hpost⟩
    exact hmethod.elim hget hpost
  have hheader : ¬ o.localData.hasRecvHeader = true := by
    rw [hfirst.1]
    exact Bool.false_ne_true
  simp only [Http.httpSimpleServerDecode, if_neg hheader, hfirst.2, List.nil_append, if_pos hne,
    if_neg hbegins, if_neg (Nat.not_le.mpr hshort), if_neg (Nat.not_lt.mpr hlong)]
  all_goals
    cases strstr (data ++ mem.behind) Http.blankLine with
    | none => rfl
    | some i => rfl

/-- Any other beginning is refused. -/
theorem httpDecode_refused (mem : Http.Memory)
    (hfirst : o.localData.hasRecvHeader = false ∧ o.localData.recvBuffer = [])
    (hstart : ¬ HttpStart data) :
    ∃ o', Http.httpSimpleServerDecode mem o data = some (o', none) := by
  rw [Http.httpSimpleServerDecode, hfirst.1, hfirst.2, if_neg Bool.false_ne_true]
  simp only [List.nil_append]
  split
  · exact ⟨_, rfl⟩
  · next hshort =>
    split
    · exact ⟨_, rfl⟩
    · next hmethod =>
      split
      · exact ⟨_, rfl⟩
      · next hlong =>
        exfalso
        apply hstart
        refine ⟨by omega, by omega, ?_⟩
        by_contra hnone
        exact hmethod (not_or.mp hnone)

/-- What a complete header gives. -/
theorem completeHeader_eq_some {enc out : Bytes} {n k : Nat} {o' : Http.HttpObfs}
    (h : Http.completeHeader mem o enc n k = some (o', some out)) :
    (Http.checkHost mem o).any (·.2) = true ∧
      Http.getDataFromHttpHeader mem.behindHex enc ≠ [] ∧ k ≤ n ∧
      out = Http.getDataFromHttpHeader mem.behindHex enc ++ window enc k (n - k) := by
  unfold Http.completeHeader at h
  cases hhost : Http.checkHost mem o with
  | none =>
    rw [hhost] at h
    cases h
  | some r =>
    obtain ⟨o₁, accepted⟩ := r
    rw [hhost] at h
    cases accepted with
    | false => cases h
    | true =>
      simp only at h
      split at h
      · cases h
      · next hhex =>
        split at h
        · cases h
        · next hlen =>
          cases h
          exact ⟨rfl, hhex, Nat.not_lt.mp hlen, rfl⟩

/-- When it gives something. -/
theorem completeHeader_isSome (mem : Http.Memory) {enc : Bytes} {n k : Nat}
    (hhost : (Http.checkHost mem o).any (·.2) = true)
    (hhex : Http.getDataFromHttpHeader mem.behindHex enc ≠ []) (hlen : k ≤ n) :
    ∃ o', Http.completeHeader mem o enc n k =
      some (o', some (Http.getDataFromHttpHeader mem.behindHex enc ++ window enc k (n - k))) := by
  obtain ⟨⟨o₁, accepted⟩, hcheck, haccepted⟩ := (Option.any_eq_true _ _).mp hhost
  cases (show accepted = true from haccepted)
  unfold Http.completeHeader
  rw [hcheck]
  simp only [if_neg hhex, if_neg (Nat.not_lt.mpr hlen)]
  exact ⟨_, rfl⟩

/-- The bytes received and those behind them are the block. -/
theorem data_append_drop (b : Buffer) : b.data ++ b.array.drop b.data.length = b.array := by
  rw [Buffer.data, List.length_take]
  by_cases h : b.len ≤ b.array.length
  · rw [Nat.min_eq_left h, List.take_append_drop]
  · rw [Nat.min_eq_right (by omega), List.drop_length, List.append_nil,
      List.take_of_length_le (by omega)]

/-- What the hook makes of the answer of `http_simple`: the bytes in the block, or a refusal. -/
def httpHooked (b : Buffer) (r : Http.HttpObfs × Option Bytes) : Hooked Http.HttpObfs :=
  match r.2 with
  | none => ⟨r.1, b.array, decide (b.array.length < b.data.length), -1, false⟩
  | some out => ⟨r.1, store b.array 0 out, decide (b.array.length < b.data.length), out.length, false⟩

/-- What the hook does before the handshake. -/
theorem httpHook_first (mem : Http.Memory) (t : Http.Tm) (b : Buffer)
    (hfirst : o.localData.hasRecvHeader = false ∧ o.localData.recvBuffer = []) :
    ∃ hook, (httpSimple mem t).serverDecode = some hook ∧ hook o b.array b.len =
      (Http.httpSimpleServerDecode { mem with behind := b.array.drop b.data.length } o b.data).map
        (httpHooked b) := by
  refine ⟨_, rfl, ?_⟩
  have hrecv : (if (o.localData.hasRecvHeader || b.len = 0 : Bool) = true then b.array.take b.len
      else o.localData.recvBuffer ++ b.array.take b.len) = b.data := by
    rw [hfirst.2, List.nil_append, ite_self, Buffer.data]
  have hgrown : store b.array 0 b.data = b.array := by
    rw [store, List.take_zero, List.nil_append, Nat.zero_add, data_append_drop]
  simp only [hrecv, hgrown]
  apply congrArg (fun g ↦ Option.map g _)
  funext r
  obtain ⟨o', out⟩ := r
  cases out with
  | none => rfl
  | some out => rfl

/-- A response leaves what was received. -/
theorem serverEncode_keeps (t : Http.Tm) (o : Http.HttpObfs) (data : Bytes) :
    (Http.httpSimpleServerEncode t o data).1.localData.hasRecvHeader = o.localData.hasRecvHeader ∧
      (Http.httpSimpleServerEncode t o data).1.localData.recvBuffer = o.localData.recvBuffer := by
  unfold Http.httpSimpleServerEncode
  split
  · exact ⟨rfl, rfl⟩
  · exact ⟨rfl, rfl⟩

/-- `http_simple` and `http_post` before the end of the header. -/
theorem httpServer_firstDecoder (ivLen : Nat) :
    FirstDecoder (some httpServer) ivLen
      (fun s ↦ s.2.localData.hasRecvHeader = false ∧ s.2.localData.recvBuffer = [])
      (fun s b ↦ HttpStarves ivLen (s.1 0).1 s.2 b) where
  plain h := by cases h
  starved f hf s b hfirst hlen := by
    rintro ⟨hstart, hshort⟩
    cases hf
    obtain ⟨hook, hhook, hcall⟩ := httpHook_first (s.1 0).1 (s.1 0).2 b hfirst
    rw [percall_eq hhook, hcall, httpDecode_start hfirst hstart, data_append_drop]
    cases hend : strstr b.array Http.blankLine with
    | none => exact ⟨_, rfl, rfl, Int.le_refl 0, Int.natCast_nonneg ivLen⟩
    | some i =>
      rw [hend] at hshort
      obtain ⟨hhost, hhex, hinside, hfew⟩ := hshort
      obtain ⟨o', ho'⟩ := completeHeader_isSome
        { (s.1 0).1 with behind := b.array.drop b.data.length } hhost hhex hinside
      simp only [ho', Option.map_some]
      refine ⟨_, rfl, rfl, Int.natCast_nonneg _, ?_⟩
      have hwindow : (window b.array (i + 4) (b.data.length - (i + 4))).length ≤
          b.data.length - (i + 4) := List.length_take_le _ _
      simp only [httpHooked, List.length_append, Int.ofNat_le]
      omega
  fed f hf s b d hfirst hlen hnot hd := by
    right
    cases hf
    obtain ⟨hook, hhook, hcall⟩ := httpHook_first (s.1 0).1 (s.1 0).2 b hfirst
    rw [percall_eq hhook, hcall] at hd
    by_cases hstart : HttpStart b.data
    · rw [httpDecode_start hfirst hstart, data_append_drop] at hd
      cases hend : strstr b.array Http.blankLine with
      | none =>
        exfalso
        apply hnot
        rw [HttpStarves, hend]
        exact ⟨hstart, trivial⟩
      | some i =>
        rw [hend] at hd
        simp only at hd
        cases hcomplete : Http.completeHeader { (s.1 0).1 with behind := b.array.drop b.data.length }
          ⟨s.2.server, { s.2.localData with recvBuffer := b.data }⟩ b.array b.data.length (i + 4) with
        | none =>
          rw [hcomplete] at hd
          cases hd
        | some r =>
          obtain ⟨o', out⟩ := r
          rw [hcomplete] at hd
          cases out with
          | none =>
            cases hd
            exact .inl (Int.negSucc_lt_zero 0)
          | some out =>
            cases hd
            right
            obtain ⟨hhost, hhex, hinside, hout⟩ := completeHeader_eq_some hcomplete
            have hwindow : (window b.array (i + 4) (b.data.length - (i + 4))).length =
                b.data.length - (i + 4) := by
              have hle : b.data.length ≤ b.array.length := List.length_take_le' _ _
              rw [window, List.length_take, List.length_drop]
              omega
            apply Int.ofNat_lt.mpr
            by_contra hfew
            apply hnot
            rw [HttpStarves, hend]
            refine ⟨hstart, hhost, hhex, hinside, ?_⟩
            rw [hout, List.length_append, hwindow] at hfew
            exact Nat.not_lt.mp hfew
    · obtain ⟨o', ho'⟩ := httpDecode_refused
        { (s.1 0).1 with behind := b.array.drop b.data.length } hfirst hstart
      rw [ho'] at hd
      cases hd
      exact .inl (Int.negSucc_lt_zero 0)
  asked f hf s b d hfirst hd hask := by
    exfalso
    cases hf
    obtain ⟨hook, hhook, hcall⟩ := httpHook_first (s.1 0).1 (s.1 0).2 b hfirst
    rw [percall_eq hhook, hcall, Option.map_map] at hd
    obtain ⟨⟨o', out⟩, -, rfl⟩ := Option.map_eq_some_iff.mp hd
    cases out with
    | none => cases hask
    | some out => cases hask
  answered f hf s mem d hfirst hd := by
    cases hf
    have hhook : (httpSimple (s.1 0).1 (s.1 0).2).serverEncode = some _ := rfl
    rw [percall_eq hhook] at hd
    obtain ⟨h, hh, rfl⟩ := Option.map_eq_some_iff.mp hd
    rw [← Option.some.inj hh]
    obtain ⟨hheader, hbuffer⟩ := serverEncode_keeps (s.1 0).2 s.2 (mem.take 0)
    exact ⟨hheader.trans hfirst.1, hbuffer.trans hfirst.2⟩

end Http

/-! ### `tls1.2_ticket_auth` -/

section Tls

variable {hmac : Bytes → Bytes → Bytes} {info : Obfs.ServerInfo}

/-- What the loop over records puts out is what a receiver of records puts out. -/
theorem decodeData_output_iff (l : Obfs.LocalData) (g : Obfs.GlobalData) (capacity : Nat)
    {out : Bytes} :
    (Obfs.decodeData l g [] capacity).output = some out ↔
      ∃ left, Framing.feed (Obfs.parseRecord Obfs.serverHeader) [] l.recvBuffer = some (left, out) := by
  simp only [Obfs.decodeData, List.append_nil, Obfs.decodeRecords_eq_loop]
  constructor
  · intro h
    obtain ⟨left, hleft⟩ := Obfs.decode_of_recordsLoop h
    refine ⟨left, ?_⟩
    rw [Framing.feed, List.nil_append, hleft]
  · rintro ⟨left, hleft⟩
    have hloop := Obfs.recordsLoop_of_feed (fun capacity pending _ size ↦
      if capacity < pending + size then (pending + size) * 2 else capacity) capacity hleft
    rw [List.nil_append] at hloop
    exact hloop.2

/-- A Finished message is taken with the records behind it, or refused. -/
theorem decodeFinished_eq (l : Obfs.LocalData) (g : Obfs.GlobalData) (mem : Bytes) (n : Nat) :
    Obfs.decodeFinished hmac info l g mem n =
      if validFinished hmac info g mem n = true then
        Obfs.decodeData { l with recvBuffer := window mem 43 (n - 43), handshakeStatus := .done } g []
          mem.length
      else ⟨l, g, none, mem.length, false⟩ := by
  have hvalid : (n < 43 || mem.take 6 ≠ [0x14, 0x03, 0x03, 0x00, 0x01, 0x01] ||
      window mem 6 5 ≠ [0x16, 0x03, 0x03, 0x00, 0x20] ||
      window mem 33 Obfs.obfsHmacSha1Len ≠ (hmac (info.key ++ g.localClientId) (mem.take 33)).take
        Obfs.obfsHmacSha1Len : Bool) = !validFinished hmac info g mem n := by
    simp only [validFinished, Bool.not_and, decide_not, ← Nat.not_le]
  unfold Obfs.decodeFinished
  rw [hvalid]
  cases validFinished hmac info g mem n with
  | true => rfl
  | false => rfl

/-- A ClientHello does not end the handshake. -/
theorem decodeHello_status {now : Int} {l : Obfs.LocalData} {g : Obfs.GlobalData} {mem : Bytes}
    {n : Nat} {d : Obfs.Decoded} (h : Obfs.decodeHello hmac info now l g mem n = some d) :
    d.localData.handshakeStatus = .clientHello := by
  unfold Obfs.decodeHello at h
  dsimp only at h
  repeat' split at h
  all_goals cases h
  all_goals rfl

/-- Before the end of the handshake the plugin waits for a Finished message or a ClientHello. -/
theorem serverDecode_open {now : Int} {l : Obfs.LocalData} {g : Obfs.GlobalData} {mem : Bytes} {n : Nat}
    {d : Obfs.Decoded} (hopen : l.handshakeStatus ≠ .done)
    (h : Obfs.serverDecode hmac info now l g mem n = some d) :
    (l.handshakeStatus = .serverHello ∧ Obfs.decodeFinished hmac info l g mem n = d) ∨
      Obfs.decodeHello hmac info now l g mem n = some d := by
  unfold Obfs.serverDecode at h
  cases hstatus : l.handshakeStatus with
  | done => exact absurd hstatus hopen
  | serverHello =>
    rw [hstatus] at h
    exact .inl ⟨rfl, Option.some.inj h⟩
  | start =>
    rw [hstatus] at h
    exact .inr h
  | clientHelloSent =>
    rw [hstatus] at h
    exact .inr h
  | clientHello =>
    rw [hstatus] at h
    exact .inr h

/-- What the hook does. -/
theorem tlsHook (hmac : Bytes → Bytes → Bytes) (info : Obfs.ServerInfo) (w : TlsOutside)
    (l : Obfs.LocalData) (block : Bytes) (n : Nat) :
    ∃ hook, (tls12TicketAuth hmac info w).serverDecode = some hook ∧ hook l block n =
      (Obfs.serverDecode hmac info w.now l w.global block n).map fun d ↦
        ⟨d.localData, store (block ++ (List.range (d.capacity - block.length)).map w.fresh) 0
          (decodedPut l block n d), decide (block.length < d.capacity),
          (d.output.map fun out ↦ (out.length : Int)).getD (-1), d.needsendback⟩ := by
  refine ⟨_, rfl, ?_⟩
  apply congrArg (fun g ↦ Option.map g _)
  funext d
  cases d.output with
  | none => rfl
  | some out => rfl

/-- `tls1.2_ticket_auth` before the end of the handshake. -/
theorem tlsServer_firstDecoder (config : ObfsConfig) (ivLen : Nat) :
    FirstDecoder (some (tlsServer config)) ivLen (fun s ↦ s.2.handshakeStatus ≠ .done)
      (fun s b ↦ TlsStarves ivLen config.hmac config.tls (s.1 0).global s.2 b) where
  plain h := by cases h
  starved f hf s b hopen hlen := by
    rintro ⟨hstatus, hvalid, left, out, hfeed, hfew⟩
    cases hf
    obtain ⟨hook, hhook, hcall⟩ := tlsHook config.hmac config.tls (s.1 0) s.2 b.array b.len
    have houtput := (decodeData_output_iff { s.2 with
      recvBuffer := window b.array 43 (b.len - 43), handshakeStatus := .done } (s.1 0).global
      b.array.length).mpr ⟨left, hfeed⟩
    rw [percall_eq hhook, hcall]
    simp only [Obfs.serverDecode, hstatus, Option.map_some, decodeFinished_eq, if_pos hvalid, houtput]
    exact ⟨_, rfl, rfl, Int.natCast_nonneg _, Int.ofNat_le.mpr hfew⟩
  fed f hf s b d hopen hlen hnot hd := by
    cases hf
    obtain ⟨hook, hhook, hcall⟩ := tlsHook config.hmac config.tls (s.1 0) s.2 b.array b.len
    rw [percall_eq hhook, hcall, Option.map_map] at hd
    obtain ⟨d', hd', rfl⟩ := Option.map_eq_some_iff.mp hd
    have hrefused (hnone : d'.output = none) :
        (d'.output.map fun out ↦ (out.length : Int)).getD (-1) < 0 := by
      rw [hnone]
      exact Int.negSucc_lt_zero 0
    rcases serverDecode_open hopen hd' with ⟨hstatus, rfl⟩ | hhello
    · right
      rw [decodeFinished_eq] at hrefused ⊢
      split at hrefused
      · next hvalid =>
        simp only [Function.comp_apply, if_pos hvalid]
        cases hout : (Obfs.decodeData { s.2 with
            recvBuffer := window b.array 43 (b.len - 43), handshakeStatus := .done } (s.1 0).global []
              b.array.length).output with
        | none => exact .inl (Int.negSucc_lt_zero 0)
        | some out =>
          right
          apply Int.ofNat_lt.mpr
          by_contra hfew
          obtain ⟨left, hleft⟩ := (decodeData_output_iff _ _ _).mp hout
          exact hnot ⟨hstatus, hvalid, left, out, hleft, Nat.not_lt.mp hfew⟩
      · next hinvalid =>
        simp only [Function.comp_apply, if_neg hinvalid]
        exact .inl (Int.negSucc_lt_zero 0)
    · rcases Obfs.decodeHello_cases config.hmac config.tls (s.1 0).now s.2 (s.1 0).global b.array b.len
        with ⟨-, hnone⟩ | ⟨-, -, e, he, hask, -⟩ | ⟨-, -, e, he, -, hnone, -⟩
      · rw [hnone] at hhello
        cases hhello
      · cases he.symm.trans hhello
        exact .inl hask
      · cases he.symm.trans hhello
        exact .inr (.inl (hrefused hnone))
  asked f hf s b d hopen hd hask := by
    cases hf
    obtain ⟨hook, hhook, hcall⟩ := tlsHook config.hmac config.tls (s.1 0) s.2 b.array b.len
    rw [percall_eq hhook, hcall, Option.map_map] at hd
    obtain ⟨d', hd', rfl⟩ := Option.map_eq_some_iff.mp hd
    rcases serverDecode_open hopen hd' with ⟨hstatus, rfl⟩ | hhello
    · have hkeeps := Obfs.decodeFinished_keeps config.hmac config.tls s.2 (s.1 0).global b.array b.len
        hstatus
      cases hkeeps.1.symm.trans hask
    · intro hdone
      cases (decodeHello_status hhello).symm.trans hdone
  answered f hf s mem d hopen hd := by
    cases hf
    have hhook : (tls12TicketAuth config.hmac config.tls (s.1 0)).serverEncode = some _ := rfl
    rw [percall_eq hhook] at hd
    obtain ⟨h, hh, rfl⟩ := Option.map_eq_some_iff.mp hd
    simp only [Obfs.serverEncode, if_neg hopen, Option.bind_some] at hh
    split at hh
    · cases hh
    · cases hh
      intro hdone
      cases hdone

end Tls

/-- The plugins of a listener. -/
theorem newObfsClass_firstDecoder (config : ObfsConfig) (ivLen : Nat) (p : ObfsPlugin) :
    FirstDecoder (newObfsClass config p) ivLen p.Untouched (p.Starves config ivLen) := by
  cases p with
  | plain =>
    constructor
    · exact fun _ _ _ h ↦ h
    · intro f hf
      cases hf
    · intro f hf
      cases hf
    · intro f hf
      cases hf
    · intro f hf
      cases hf
  | httpSimple => exact httpServer_firstDecoder ivLen
  | httpPost => exact httpServer_firstDecoder ivLen
  | tls12TicketAuth => exact tlsServer_firstDecoder config ivLen

/-! ## Behind the decryption -/

variable {σ κ ρ π : Type}

/-- The context of the connection a part of a callback leaves. -/
def Received.HasCtx (ctx : EncCtx σ) : Received σ κ → Prop
  | .closed => True
  | .waiting c | .parse c | .stream c _ => c.dCtx = ctx

/-- The header is collected without the context. -/
theorem handshakeStage_ctx (auth : Bool) (c : Conn σ κ) : (handshakeStage auth c).HasCtx c.dCtx := by
  unfold handshakeStage
  simp only
  split <;> rfl

/-- The context is left alone up to the header parser. -/
theorem headerStage_ctx (auth : Bool) (c : Conn σ κ) : (headerStage auth c).HasCtx c.dCtx := by
  unfold headerStage
  split
  · unfold initStage
    split
    · rfl
    · rfl
    · exact handshakeStage_ctx auth { c with stage := .handshake }
  · exact handshakeStage_ctx auth c
  · split
    · trivial
    · rfl
  · rfl

/-- Sending to the remote leaves the context alone. -/
theorem streamStage_ctx {env : ServerEnv σ κ} {reply : SendReply} {c c' : Conn σ κ} {r : Remote}
    (h : streamStage env reply c r = some c') : c'.dCtx = c.dCtx := by
  unfold streamStage at h
  simp only at h
  split at h
  · cases h
  · split at h
    · split at h <;> cases h <;> rfl
    · cases h
      rfl
    · cases h

/-- The request is parsed without the context. -/
theorem requestStage_ctx {env : ServerEnv σ κ} {c : Conn σ κ} {r : Target × Conn σ κ}
    (h : requestStage env c = some r) : r.2.dCtx = c.dCtx := by
  unfold requestStage at h
  split at h
  · cases h
  · split at h
    · split at h
      · cases h
      · cases h
        rfl
    · cases h
      rfl

/-- Connecting leaves the context alone. -/
theorem literalStage_ctx {env : ServerEnv σ κ} {reply : ConnectReply} {c c' : Conn σ κ}
    (h : literalStage env reply c = some c') : c'.dCtx = c.dCtx := by
  unfold literalStage at h
  split at h
  · cases h
  · split at h <;> cases h <;> rfl

/-- The context is left alone behind the header parser. -/
theorem relayStage_ctx {env : ServerEnv σ κ} {connect : ConnectReply} {reply : SendReply}
    {ctx : EncCtx σ} {r : Received σ κ} {c : Conn σ κ} (hr : r.HasCtx ctx)
    (h : relayStage env connect reply r = some c) : c.dCtx = ctx := by
  cases r with
  | closed => cases h
  | waiting c' =>
    cases h
    exact hr
  | stream c' r => exact (streamStage_ctx h).trans hr
  | parse c' =>
    unfold relayStage at h
    simp only at h
    split at h
    · cases h
    · next hreq =>
      have hsame := requestStage_ctx hreq
      exact ((literalStage_ctx h).trans hsame).trans hr
    · next hreq =>
      have hsame := requestStage_ctx hreq
      cases h
      exact hsame.trans hr

/-- A call of `ss_decrypt` that succeeds leaves a context that is set up. -/
theorem decryptSegment_init {env : ServerEnv σ κ} {ctx : EncCtx σ} {buf : Buffer}
    {r : EncCtx σ × Buffer} (h : decryptSegment env ctx buf = some r) : r.1.init = true := by
  unfold decryptSegment ssDecrypt at h
  simp only at h
  repeat' split at h
  all_goals cases h
  all_goals rfl

/-- Reading a segment leaves the context alone, and what it goes on with. -/
theorem readStage_ctx {env : ServerEnv σ κ} {c : Conn σ κ} {seg : Bytes} :
    (∀ c', readStage env c seg = .waiting c' → c'.dCtx = c.dCtx ∧ c'.stage = c.stage ∧
      c'.remote = c.remote) ∧ ∀ c' buf, readStage env c seg = .next (c', buf) → c' = c := by
  unfold readStage
  constructor
  · intro c' h
    repeat' split at h
    all_goals cases h
    all_goals exact ⟨rfl, rfl, rfl⟩
  · intro c' buf h
    repeat' split at h
    all_goals cases h
    all_goals rfl

namespace LayeredConn

/-! ## Runs -/

section Runs

variable (env : ServerEnv σ κ) (plugins : Plugins ρ π) (compatible : Compatible)

/-- One callback. `server_resolve_cb` is called for a name that was asked for. -/
def callback (s : LayeredConn σ κ ρ π) : Event → Option (LayeredConn σ κ ρ π)
  | .serverResolve connect resolved =>
    if s.conn.stage = .resolve then
      step env plugins compatible s (.serverResolve connect resolved)
    else none
  | e => step env plugins compatible s e

/-- The context and the buffer that `ss_decrypt` is called with for a segment, where it is called. -/
def decryptCall (s : LayeredConn σ κ ρ π) (seg : Bytes) : Option (EncCtx σ × Buffer) :=
  match readStage env s.conn seg with
  | .next (conn, buf) =>
    match decodeStage plugins compatible s buf with
    | some (_, buf, false) => some (conn.dCtx, buf)
    | _ => none
  | _ => none

/-- A call of `ss_decrypt` with a new context gets more than an IV. -/
def LongerThanIv (s : LayeredConn σ κ ρ π) : Event → Prop
  | .serverRecv seg _ _ _ _ => ∀ ctx buf, decryptCall env plugins compatible s seg = some (ctx, buf) →
      ctx.init = false → env.cipher.ivLen < buf.len
  | _ => True

/-- The bytes that are handed to the obfs plugin while the context is new do not starve the IV. -/
def FeedsIv (starves : ρ → Buffer → Prop) (s : LayeredConn σ κ ρ π) : Event → Prop
  | .serverRecv seg _ _ _ _ => s.conn.dCtx.init = false → s.conn.buf.len ≤ bufSize →
      env.cipher.ivLen + 1 < (s.conn.buf.append seg).len → ¬ starves s.obfs (s.conn.buf.append seg)
  | _ => True

/-- While the context is new, nothing has got past the plugin: the connection is at its start. -/
def Pristine (untouched : ρ → Prop) (s : LayeredConn σ κ ρ π) : Prop :=
  s.conn.dCtx.init = false → s.conn.stage = .init ∧ s.conn.remote = none ∧ untouched s.obfs

variable {env plugins compatible} {s t : LayeredConn σ κ ρ π}

/-- `server_recv_cb` gets past the plugin only through `ss_decrypt`: a call with less than an IV ends
the run. -/
theorem serverRecvCb_of_decryptCall {mem : Bytes} {taken : Nat} {connect : ConnectReply}
    {reply : SendReply} {seg : Bytes} {ctx : EncCtx σ} {buf : Buffer}
    (hcall : decryptCall env plugins compatible s seg = some (ctx, buf))
    (hshort : decryptSegment env ctx buf = none) :
    serverRecvCb env plugins compatible mem taken connect reply s seg = none := by
  unfold decryptCall at hcall
  unfold serverRecvCb
  split at hcall
  · next conn buf' hread =>
    split at hcall
    · next s' buf'' hdecode =>
      cases hcall
      simp only [hread, hdecode, hshort]
    · cases hcall
  · cases hcall

/-- The connection behind `setRecvBuf`. -/
theorem setRecvBuf_keeps (c : Conn σ κ) (buf : Buffer) :
    (c.setRecvBuf buf).dCtx = c.dCtx ∧ (c.setRecvBuf buf).stage = c.stage ∧
      (c.remote = none → (c.setRecvBuf buf).remote = none) := by
  unfold Conn.setRecvBuf
  split
  · refine ⟨rfl, rfl, fun h ↦ ?_⟩
    rw [h]
    rfl
  · exact ⟨rfl, rfl, id⟩

/-- The buffer that the obfs plugin gets while the context is new. -/
theorem readStage_init {c : Conn σ κ} {seg : Bytes} (hstage : c.stage = .init) :
    readStage env c seg =
      if bufSize < c.buf.len then .closed
      else if (c.buf.append seg).len ≤ env.cipher.ivLen + 1 then
        .waiting { c with buf := c.buf.append seg }
      else .next (c, c.buf.append seg) := by
  unfold readStage
  rw [hstage]

/-- Sending to the client leaves the context alone, and a remote is there. -/
theorem serverSendCb_relaying {reply : SendReply} (h : serverSendCb reply s = some t) :
    t.conn.dCtx = s.conn.dCtx ∧ (s.conn.stage = .resolve ∨ s.conn.remote ≠ none) := by
  unfold serverSendCb at h
  split at h
  · cases h
  · next r hremote =>
    refine ⟨?_, .inr (by rw [hremote]; exact nofun)⟩
    dsimp only at h
    repeat' split at h
    all_goals cases h
    all_goals rfl

/-- Connecting to a name leaves the context alone. -/
theorem serverResolveCb_ctx {connect : ConnectReply} {resolved : Bool} {c c' : Conn σ κ}
    (h : serverResolveCb env connect resolved c = some c') : c'.dCtx = c.dCtx := by
  unfold serverResolveCb at h
  repeat' split at h
  all_goals cases h
  all_goals rfl

/-- A response leaves the context alone. -/
theorem remoteRecvCb_ctx {reply : SendReply} {r : Remote} {data : Bytes}
    (h : (remoteRecvCb env plugins reply r s data).next = some t) : t.conn.dCtx = s.conn.dCtx := by
  unfold remoteRecvCb at h
  simp only at h
  split at h
  · cases h
  · split at h
    · cases h
    · unfold sendResponse at h
      simp only at h
      repeat' split at h
      all_goals cases h
      all_goals rfl

/-- Sending to the remote leaves the context alone, and the remote is there. -/
theorem remoteSendCb_relaying {peer : Bool} {reply : SendReply} {c c' : Conn σ κ}
    (h : remoteSendCb peer reply c = some c') :
    c'.dCtx = c.dCtx ∧ (c.stage = .resolve ∨ c.remote ≠ none) := by
  unfold remoteSendCb at h
  split at h
  · cases h
  · next r hremote =>
    refine ⟨?_, .inr (by rw [hremote]; exact nofun)⟩
    unfold remoteSend at h
    simp only at h
    repeat' split at h
    all_goals cases h
    all_goals rfl

section Decoder

variable {untouched : ρ → Prop} {starves : ρ → Buffer → Prop}

/-- What the call of `ss_decrypt` gets from the plugin. -/
theorem decodeStage_short_iff (compatible : Compatible)
    (hplugin : FirstDecoder plugins.obfs env.cipher.ivLen untouched starves)
    (hopen : untouched s.obfs) {buf : Buffer} (hlong : env.cipher.ivLen + 1 < buf.len) :
    (∀ t buf', decodeStage plugins compatible s buf = some (t, buf', false) →
      env.cipher.ivLen < buf'.len) ↔ ¬ starves s.obfs buf := by
  constructor
  · intro hall hstarves
    cases hhook : plugins.obfs.bind (·.serverDecode) with
    | none => exact hplugin.plain hhook _ _ hstarves
    | some f =>
      obtain ⟨d, hd, hask, hpos, hfew⟩ := hplugin.starved f hhook _ _ hopen hlong hstarves
      have hcall : decodeStage plugins compatible s buf =
          some ({ s with obfs := d.data }, d.result buf, false) := by
        simp only [decodeStage, hhook, hd, if_pos hpos, hask]
      have hlt : env.cipher.ivLen < d.ret.toNat := hall _ _ hcall
      omega
  · intro hnot t buf' hcall
    rcases decodeStage_cases hcall with ⟨-, hr⟩ | ⟨f, d, hhook, hd, ⟨hret, hr⟩ | ⟨-, -, restored,
      hrestored, hr⟩⟩
    · cases hr
      omega
    · rcases hplugin.fed f hhook _ _ d hopen hlong hnot hd with hask | hneg | henough
      · rw [hask] at hr
        cases hr
      · omega
      · simp only [Prod.mk.injEq] at hr
        obtain ⟨-, rfl, -⟩ := hr
        show env.cipher.ivLen < d.ret.toNat
        omega
    · -- the buffer is restored with its length
      simp only [Prod.mk.injEq] at hr
      obtain ⟨-, rfl, -⟩ := hr
      unfold Hooked.restore at hrestored
      split at hrestored
      · cases hrestored
      · cases hrestored
        show env.cipher.ivLen < buf.len
        omega

/-- In a pristine connection the plugin decides about the call of `ss_decrypt`. -/
theorem longerThanIv_iff (hplugin : FirstDecoder plugins.obfs env.cipher.ivLen untouched starves)
    (hs : Pristine untouched s) (e : Event) :
    LongerThanIv env plugins compatible s e ↔ FeedsIv env starves s e := by
  cases e with
  | serverRecv seg mem taken connect reply =>
    cases hnew : s.conn.dCtx.init with
    | true =>
      constructor
      · intro _ hinit
        cases hnew.symm.trans hinit
      · intro _ ctx buf hcall hinit
        unfold decryptCall at hcall
        split at hcall
        · next conn buf' hread =>
          rw [readStage_ctx.2 _ _ hread] at hcall
          split at hcall
          · cases hcall
            cases hnew.symm.trans hinit
          · cases hcall
        · cases hcall
    | false =>
      obtain ⟨hstage, -, hopen⟩ := hs hnew
      simp only [LongerThanIv, FeedsIv, decryptCall, readStage_init hstage, hnew, forall_const]
      by_cases hfull : bufSize < s.conn.buf.len
      · simp only [if_pos hfull, reduceCtorEq, false_implies, implies_true, Nat.not_le.mpr hfull]
      · rw [if_neg hfull]
        by_cases hshort : (s.conn.buf.append seg).len ≤ env.cipher.ivLen + 1
        · simp only [if_pos hshort, reduceCtorEq, false_implies, implies_true, Nat.not_lt.mpr hshort]
        · rw [if_neg hshort, ← decodeStage_short_iff compatible hplugin hopen
            (Nat.not_le.mp hshort)]
          constructor
          · intro hall _ _ t buf' hdecode
            apply hall s.conn.dCtx buf' _ hnew
            simp only [hdecode]
          · intro hall ctx buf hcall _
            simp only at hcall
            split at hcall
            · next t buf' hdecode =>
              cases hcall
              exact hall (Nat.not_lt.mp hfull) (Nat.not_le.mp hshort) t buf hdecode
            · cases hcall
  | serverSend reply => exact Iff.rfl
  | serverResolve connect resolved => exact Iff.rfl
  | remoteRecv data reply => exact Iff.rfl
  | remoteSend peer reply => exact Iff.rfl

/-- A plugin that asks for an answer is where it was. -/
theorem decodeStage_asked (hplugin : FirstDecoder plugins.obfs env.cipher.ivLen untouched starves)
    (hopen : untouched s.obfs) {buf buf' : Buffer}
    (h : decodeStage plugins compatible s buf = some (t, buf', true)) : untouched t.obfs := by
  rcases decodeStage_cases h with ⟨-, hr⟩ | ⟨f, d, hhook, hd, ⟨-, hr⟩ | ⟨-, -, restored, -, hr⟩⟩
  · cases hr
  · simp only [Prod.mk.injEq] at hr
    obtain ⟨rfl, -, hask⟩ := hr
    exact hplugin.asked f hhook _ _ d hopen hd hask.symm
  · simp only [Prod.mk.injEq] at hr
    obtain ⟨rfl, -, hask⟩ := hr
    exact hplugin.asked f hhook _ _ d hopen hd hask.symm

/-- The answer leaves the connection and, before the handshake, the plugin. -/
theorem sendback_keeps (hplugin : FirstDecoder plugins.obfs env.cipher.ivLen untouched starves)
    {mem : Bytes} {taken : Nat} (h : sendback plugins mem taken s = some t) :
    t.conn = s.conn ∧ (untouched s.obfs → untouched t.obfs) := by
  unfold sendback at h
  split at h
  · cases h
    exact ⟨rfl, id⟩
  · next f hhook =>
    split at h
    · cases h
    · next d hd =>
      split at h
      · cases h
      · cases h
        exact ⟨rfl, fun hopen ↦ hplugin.answered f hhook _ _ d hopen hd⟩

/-- A segment leaves a connection pristine. -/
theorem pristine_serverRecvCb (hplugin : FirstDecoder plugins.obfs env.cipher.ivLen untouched starves)
    {mem : Bytes} {taken : Nat} {connect : ConnectReply} {reply : SendReply} {seg : Bytes}
    (hs : Pristine untouched s)
    (h : serverRecvCb env plugins compatible mem taken connect reply s seg = some t) :
    Pristine untouched t := by
  intro hnew
  rcases serverRecvCb_cases h with ⟨conn, hread, rfl⟩ |
    ⟨conn, buf, s₁, buf₁, answer, hread, hdecode, ⟨rfl, hanswer⟩ | ⟨rfl, dCtx, buf₂, s₂, buf₃,
      hdecrypt, hpost⟩⟩
  · obtain ⟨hctx, hstage, hremote⟩ := readStage_ctx.1 _ hread
    obtain ⟨hinit, hnone, hopen⟩ := hs (hctx ▸ hnew)
    exact ⟨hstage.trans hinit, hremote.trans hnone, hopen⟩
  · obtain ⟨hconn, hobfs⟩ := sendback_keeps hplugin hanswer
    obtain rfl := readStage_ctx.2 _ _ hread
    obtain ⟨hctx, hstage, hremote⟩ := setRecvBuf_keeps s.conn buf₁
    rw [hconn] at hnew ⊢
    obtain ⟨hinit, hnone, hopen⟩ := hs (hctx ▸ hnew)
    have hasked : untouched s₁.obfs := decodeStage_asked hplugin hopen hdecode
    exact ⟨hstage.trans hinit, hremote hnone, hobfs hasked⟩
  · -- behind `ss_decrypt` the context is set up
    exfalso
    have hinit := decryptSegment_init hdecrypt
    have hctx : t.conn.dCtx = dCtx := by
      rcases hpost with ⟨-, rfl⟩ | ⟨-, conn', hrelay, rfl⟩
      · exact (setRecvBuf_keeps _ _).1
      · exact (relayStage_ctx (headerStage_ctx _ _) hrelay).trans (setRecvBuf_keeps _ _).1
    rw [hctx] at hnew
    cases hinit.symm.trans hnew

/-- A connection that has got to a target or a name is not at its start. -/
theorem pristine_of_relaying (hs : Pristine untouched s)
    (h : t.conn.dCtx = s.conn.dCtx ∧ (s.conn.stage = .resolve ∨ s.conn.remote ≠ none)) :
    Pristine untouched t := by
  intro hnew
  rw [h.1] at hnew
  obtain ⟨hinit, hnone, -⟩ := hs hnew
  rcases h.2 with hstage | hremote
  · cases hinit.symm.trans hstage
  · exact absurd hnone hremote

/-- A callback leaves a connection pristine. -/
theorem pristine_callback (hplugin : FirstDecoder plugins.obfs env.cipher.ivLen untouched starves)
    {e : Event} (hs : Pristine untouched s) (h : callback env plugins compatible s e = some t) :
    Pristine untouched t := by
  cases e with
  | serverRecv seg mem taken connect reply => exact pristine_serverRecvCb hplugin hs h
  | serverSend reply => exact pristine_of_relaying hs (serverSendCb_relaying h)
  | serverResolve connect resolved =>
    simp only [callback] at h
    split at h
    · next hstage =>
      obtain ⟨conn, hconn, rfl⟩ := Option.map_eq_some_iff.mp h
      exact pristine_of_relaying hs ⟨serverResolveCb_ctx hconn, .inl hstage⟩
    · cases h
  | remoteRecv data reply =>
    unfold callback step at h
    simp only at h
    split at h
    · cases h
    · next r hremote =>
      refine pristine_of_relaying hs ⟨remoteRecvCb_ctx h, .inr ?_⟩
      rw [hremote]
      exact nofun
  | remoteSend peer reply =>
    obtain ⟨conn, hconn, rfl⟩ := Option.map_eq_some_iff.mp h
    exact pristine_of_relaying hs (remoteSendCb_relaying hconn)

end Decoder

end Runs

/-- In a run of a connection every call of `ss_decrypt` with a new context gets more than an IV
exactly when the bytes that come before the IV is read starve no plugin. -/
theorem longerThanIv_run_iff (config : ObfsConfig) (p : ObfsPlugin) (outside : p.Outside)
    (protocol : Option (ObfsClass π)) (compatible : Compatible) (env : ServerEnv σ κ) (evp : σ)
    (chunk : κ) (mem headerMem iv : Bytes) (protocolData : π) (es : List Event) :
    Along (callback env ⟨newObfsClass config p, protocol⟩ compatible)
        (LongerThanIv env ⟨newObfsClass config p, protocol⟩ compatible)
        (accept (newServer evp chunk mem headerMem) evp iv (newObfs config p outside) protocolData) es ↔
      Along (callback env ⟨newObfsClass config p, protocol⟩ compatible)
        (FeedsIv env (p.Starves config env.cipher.ivLen))
        (accept (newServer evp chunk mem headerMem) evp iv (newObfs config p outside) protocolData) es := by
  have hplugin := newObfsClass_firstDecoder config env.cipher.ivLen p
  apply along_congr _ (Pristine p.Untouched)
  · intro s e t hs ht
    exact pristine_callback hplugin hs ht
  · intro s e hs
    exact longerThanIv_iff hplugin hs e
  · intro _
    refine ⟨rfl, rfl, ?_⟩
    cases p with
    | plain => trivial
    | httpSimple => exact ⟨rfl, rfl⟩
    | httpPost => exact ⟨rfl, rfl⟩
    | tls12TicketAuth => exact nofun

/-- A listener with `http_simple`. -/
def httpListener : Plugins (ObfsPlugin.Data .httpSimple) Unit :=
  ⟨newObfsClass ⟨fun _ _ ↦ [], ⟨[], none⟩, ⟨[], 80, none, 30⟩⟩ .httpSimple, none⟩

/-- A new connection of this listener. -/
def httpListenerConn : LayeredConn Unit Unit (ObfsPlugin.Data .httpSimple) Unit :=
  accept (newServer () () [] []) () []
    (newObfs ⟨fun _ _ ↦ [], ⟨[], none⟩, ⟨[], 80, none, 30⟩⟩ .httpSimple fun _ ↦
      (⟨[], [], [], []⟩, Http.exampleTm)) ()

/-- A request that is cut in its first line: `ss_decrypt` takes an IV off no bytes at all. -/
theorem not_longerThanIv_cut_request :
    ¬ Along (callback (plainEnv false) httpListener strict)
        (LongerThanIv (plainEnv false) httpListener strict) httpListenerConn
        (arrivals [ascii "GET /index.html HTTP/1.1"]) := by
  intro h
  have hcall : (decryptCall (plainEnv false) httpListener strict httpListenerConn
      (ascii "GET /index.html HTTP/1.1")).map (fun r ↦ (r.1.init, r.2.len)) = some (false, 0) := by
    decide +kernel
  obtain ⟨⟨ctx, buf⟩, hr, hlen⟩ := Option.map_eq_some_iff.mp hcall
  simp only [Prod.mk.injEq] at hlen
  have hlonger : (8 : Nat) < buf.len := h.1 ctx buf hr hlen.1
  omega

end LayeredConn

end OpenWrtCompile.Server
