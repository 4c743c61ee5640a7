import OpenWrtCompile.Server.TunnelRuns

/-!
# The way back through the tunnel

The responses of the remote with the layers that `remote_recv_cb` puts on them
(`shadowsocksr-libev/src/server/server.c:1283–1307`), and the hooks of the client that take them off:
`tls12_ticket_auth_client_decode`, `http_simple_client_decode` and
`verify_simple_client_post_decrypt`.
-/

namespace OpenWrtCompile.Server
open OpenWrtCompile.Base OpenWrtCompile.Base.Framing

variable {σ κ ρ π : Type}

/-! ## Hooks as encoders -/

/-- A hook makes a code of the data in its block. -/
structure HookEncodes (encode : Option (Hook ρ)) (P : ρ → Prop) (E : Bytes → Bytes → Prop) : Prop where
  absent : encode = none → ∀ l, E l l
  encodes : ∀ f, encode = some f → ∀ s block n h, P s → f s block n = some h → 0 ≤ h.ret →
    E (block.take n) (h.block.take h.ret.toNat)

/-- The code of a stream is that of its parts. -/
structure Streams (E : Bytes → Bytes → Prop) : Prop where
  nil : E [] []
  append : ∀ {data data' code code'}, E data code → E data' code' → E (data ++ data') (code ++ code')

/-- The obfs plugins encode streams. -/
theorem ObfsPlugin.encodes_streams (p : ObfsPlugin) : Streams p.Encodes := by
  cases p with
  | tls12TicketAuth =>
    refine ⟨⟨[], nofun, rfl, rfl⟩, ?_⟩
    rintro _ _ _ _ ⟨chunks, hlen, rfl, rfl⟩ ⟨chunks', hlen', rfl, rfl⟩
    refine ⟨chunks ++ chunks', fun c hc ↦ ?_, by simp, by simp⟩
    exact (List.mem_append.mp hc).elim (hlen c) (hlen' c)
  | _ =>
    refine ⟨rfl, ?_⟩
    rintro _ _ _ _ rfl rfl
    rfl

/-- The protocol plugins encode streams. -/
theorem ProtocolPlugin.encodes_streams (q : ProtocolPlugin) : Streams q.Encodes := by
  cases q with
  | origin =>
    refine ⟨rfl, ?_⟩
    rintro _ _ _ _ rfl rfl
    rfl
  | verifySimple =>
    refine ⟨⟨[], nofun, rfl, rfl⟩, ?_⟩
    rintro _ _ _ _ ⟨units, hunits, rfl, rfl⟩ ⟨units', hunits', rfl, rfl⟩
    refine ⟨units ++ units', fun u hu ↦ ?_, by simp, by simp⟩
    exact (List.mem_append.mp hu).elim (hunits u) (hunits' u)

/-- The records of a message have 4195 bytes of data at most. -/
theorem cutLoop_chunks (draw : Nat → UInt64) {fuel k : Nat} {data : Bytes} :
    ∀ f ∈ Obfs.cutLoop draw fuel k data, f.1 = Obfs.packData f.2 ∧ f.2.length ≤ 4195 := by
  induction fuel generalizing k data with
  | zero => exact List.forall_mem_nil _
  | succ fuel ih =>
    rw [Obfs.cutLoop]
    split
    · refine List.forall_mem_cons.mpr ⟨⟨rfl, ?_⟩, ih⟩
      have hdraw : (draw k % 4096).toNat < 4096 := by
        rw [UInt64.toNat_mod]
        exact Nat.mod_lt _ (by decide)
      unfold Obfs.recordLength
      dsimp only
      rw [List.length_take]
      omega
    · split
      · refine List.forall_mem_singleton.mpr ⟨rfl, ?_⟩
        dsimp only
        omega
      · exact List.forall_mem_nil _

/-- The data phase of an encoder makes records. -/
theorem encodes_dataEncode {c : Obfs.Call} {out : Bytes} (h : Obfs.dataEncode c = some out) :
    ObfsPlugin.Encodes .tls12TicketAuth c.data out := by
  rw [Obfs.dataEncode_eq] at h
  split at h
  · cases h
    have hrecords : ∀ f ∈ Obfs.records c, f.1 = Obfs.packData f.2 ∧ f.2.length ≤ 4195 := by
      unfold Obfs.records
      split
      · refine List.forall_mem_singleton.mpr ⟨rfl, ?_⟩
        dsimp only
        omega
      · exact cutLoop_chunks c.draw
    refine ⟨(Obfs.records c).map Prod.snd, ?_, ?_, (Obfs.records_spec Obfs.serverHeader_record c).2.symm⟩
    · intro l hl
      obtain ⟨f, hf, rfl⟩ := List.mem_map.mp hl
      exact (hrecords f hf).2
    · rw [stream, List.map_map]
      exact congrArg List.flatten (List.map_congr_left fun f hf ↦ (hrecords f hf).1)
  · cases h

/-- The frames of a message are those of units. -/
theorem frameLoop_units (m : Protocol.VerifySimple.Message) {fuel k used : Nat} {data : Bytes} :
    ∃ units : List VerifyUnit,
      (∀ u ∈ units, 0 < u.data.length ∧ u.data.length ≤ Protocol.VerifySimple.packUnitSize) ∧
      Protocol.VerifySimple.frameLoop m fuel k used data =
        units.map fun u ↦ (Protocol.VerifySimple.packData u.draw u.mem u.data, u.data) := by
  induction fuel generalizing k used data with
  | zero => exact ⟨[], nofun, rfl⟩
  | succ fuel ih =>
    rw [Protocol.VerifySimple.frameLoop]
    split
    · next hlong =>
      obtain ⟨units, hunits, hloop⟩ := @ih (k + 1) _ (data.drop Protocol.VerifySimple.packUnitSize)
      refine ⟨⟨data.take Protocol.VerifySimple.packUnitSize, m.draw k, fun i ↦ m.mem (used + i)⟩ :: units,
        List.forall_mem_cons.mpr ⟨?_, hunits⟩, by rw [hloop, List.map_cons]⟩
      have hpos : 0 < Protocol.VerifySimple.packUnitSize := by decide
      dsimp only
      rw [List.length_take]
      omega
    · split
      · next hlong hpos =>
        exact ⟨[⟨data, m.draw k, fun i ↦ m.mem (used + i)⟩],
          List.forall_mem_singleton.mpr ⟨hpos, Nat.le_of_not_lt hlong⟩, rfl⟩
      · exact ⟨[], nofun, rfl⟩

/-- `verify_simple` makes frames of a message. -/
theorem encodes_clientPreEncrypt {m : Protocol.VerifySimple.Message} {out : Bytes}
    (h : Protocol.VerifySimple.clientPreEncrypt m = some out) :
    ProtocolPlugin.Encodes .verifySimple m.data out := by
  rw [Protocol.VerifySimple.clientPreEncrypt_eq] at h
  cases h
  obtain ⟨units, hunits, hframes⟩ := @frameLoop_units m (m.data.length + 1) 0 0 m.data
  have hspec := (@Protocol.VerifySimple.frameLoop_spec m (m.data.length + 1) 0 0 m.data
    (Nat.lt_succ_self _)).2
  rw [hframes] at hspec
  refine ⟨units, hunits, ?_, ?_⟩
  · rw [Protocol.VerifySimple.frames, hframes, stream, List.map_map]
    rfl
  · rw [← hspec, payload, List.map_map]
    rfl

/-! ## The encoders of a server -/

/-- The header of the responses or the handshake is over. -/
def ObfsPlugin.Running : (p : ObfsPlugin) → p.Data → Prop
  | .plain, _ => True
  | .httpSimple, s | .httpPost, s => s.2.localData.hasSentHeader = true
  | .tls12TicketAuth, s => s.2.handshakeStatus = .done

/-- The host check keeps what was sent. -/
theorem checkHost_sent {mem : Http.Memory} {o : Http.HttpObfs} {r : Http.HttpObfs × Bool}
    (h : Http.checkHost mem o = some r) (hs : o.localData.hasSentHeader = true) :
    r.1.localData.hasSentHeader = true := by
  unfold Http.checkHost at h
  split at h
  · split at h
    · cases h
      exact hs
    · split at h
      · cases h
        exact hs
      · obtain ⟨isMatch, -, rfl⟩ := Option.map_eq_some_iff.mp h
        cases isMatch with
        | true => exact hs
        | false => rfl
  · split at h
    · cases h
      exact hs
    · cases h

/-- So does the end of the header. -/
theorem completeHeader_sent {mem : Http.Memory} {o : Http.HttpObfs} {data : Bytes} {n k : Nat}
    {r : Http.HttpObfs × Option Bytes} (h : Http.completeHeader mem o data n k = some r)
    (hs : o.localData.hasSentHeader = true) : r.1.localData.hasSentHeader = true := by
  unfold Http.completeHeader at h
  dsimp only at h
  split at h
  · cases h
  · next hcheck =>
    cases h
    exact checkHost_sent hcheck hs
  · next hcheck =>
    have hs' := checkHost_sent hcheck hs
    repeat' split at h
    all_goals cases h
    all_goals exact hs'

/-- So does `server_decode`. -/
theorem serverDecode_sent {mem : Http.Memory} {o : Http.HttpObfs} {data : Bytes}
    {r : Http.HttpObfs × Option Bytes} (h : Http.httpSimpleServerDecode mem o data = some r)
    (hs : o.localData.hasSentHeader = true) : r.1.localData.hasSentHeader = true := by
  unfold Http.httpSimpleServerDecode at h
  dsimp only at h
  split at h
  · cases h
    exact hs
  · split at h
    · cases h
      rfl
    · split at h
      · cases h
        rfl
      · split at h
        · cases h
          rfl
        · split at h
          · cases h
            exact hs
          · exact completeHeader_sent h hs

/-- Behind the header of the responses `server_encode` changes nothing. -/
theorem serverEncode_sent (now : Http.Tm) {o : Http.HttpObfs} (data : Bytes)
    (hs : o.localData.hasSentHeader = true) : Http.httpSimpleServerEncode now o data = (o, data) :=
  if_pos hs

/-- The obfs plugins of a listener stay behind their headers. -/
theorem plugins_running (config : ObfsConfig) (p : ObfsPlugin) (q : ProtocolPlugin) :
    PluginsKeep ⟨newObfsClass config p, newProtocolClass q⟩ p.Running (fun _ ↦ True) where
  decode := by
    cases p with
    | plain => rintro f ⟨⟩
    | httpSimple | httpPost =>
      intro f hf s block n h hs hcall _
      cases hf
      have hhook : (httpSimple (s.1 0).1 (s.1 0).2).serverDecode = some _ := rfl
      rw [percall_eq hhook] at hcall
      obtain ⟨r, hr, rfl⟩ := Option.map_eq_some_iff.mp hcall
      obtain ⟨⟨o, out⟩, hdecode, rfl⟩ := Option.map_eq_some_iff.mp hr
      have ho := serverDecode_sent hdecode hs
      cases out <;> exact ho
    | tls12TicketAuth =>
      intro f hf s block n h hs hcall _
      cases hf
      obtain ⟨hook, hhook, hdef⟩ := tlsHook config.hmac config.tls (s.1 0) s.2 block n
      rw [percall_eq hhook, hdef, Option.map_map] at hcall
      obtain ⟨d, hdecode, rfl⟩ := Option.map_eq_some_iff.mp hcall
      have hdone : s.2.handshakeStatus = .done := hs
      rw [Obfs.serverDecode, hdone] at hdecode
      cases hdecode
      exact hdone
  encode := by
    cases p with
    | plain => rintro f ⟨⟩
    | httpSimple | httpPost =>
      intro f hf s block n h hs hcall _
      cases hf
      have hhook : (httpSimple (s.1 0).1 (s.1 0).2).serverEncode = some _ := rfl
      rw [percall_eq hhook] at hcall
      obtain ⟨r, hr, rfl⟩ := Option.map_eq_some_iff.mp hcall
      rw [serverEncode_sent _ _ hs] at hr
      cases hr
      exact hs
    | tls12TicketAuth =>
      intro f hf s block n h hs hcall _
      exact (LayeredConn.tlsServer_settles config).encode f hf s block n h hs hcall
  head := by
    cases p with
    | plain => rintro c ⟨⟩
    | httpSimple | httpPost | tls12TicketAuth =>
      intro c hc s n hs
      cases hc
      exact hs
  postDecrypt _ _ _ _ _ _ _ _ _ := trivial
  preEncrypt _ _ _ _ _ _ _ _ _ := trivial

/-- Behind its header or handshake `server_encode` makes a code of the response. -/
theorem ObfsPlugin.serverEncode_encodes (config : ObfsConfig) (p : ObfsPlugin) :
    HookEncodes ((newObfsClass config p).bind (·.serverEncode)) p.Running p.Encodes where
  absent h l := by
    cases p with
    | plain => rfl
    | _ => cases h
  encodes f hf s block n h hs hcall hret := by
    cases p with
    | plain => cases hf
    | httpSimple | httpPost =>
      cases hf
      have hhook : (Server.httpSimple (s.1 0).1 (s.1 0).2).serverEncode = some _ := rfl
      rw [percall_eq hhook] at hcall
      obtain ⟨r, hr, rfl⟩ := Option.map_eq_some_iff.mp hcall
      rw [serverEncode_sent _ _ hs] at hr
      cases hr
      exact take_store_zero _ _
    | tls12TicketAuth =>
      cases hf
      have hhook : (Server.tls12TicketAuth config.hmac config.tls (s.1 0)).serverEncode = some _ := rfl
      rw [percall_eq hhook] at hcall
      obtain ⟨r, hr, rfl⟩ := Option.map_eq_some_iff.mp hcall
      obtain ⟨⟨l, out⟩, hencode, hr⟩ := Option.bind_eq_some_iff.mp hr
      rw [Obfs.serverEncode, if_pos (show s.2.handshakeStatus = .done from hs)] at hencode
      obtain ⟨records, hrecords, hl⟩ := Option.map_eq_some_iff.mp hencode
      cases hl
      dsimp only at hr
      split at hr
      · cases hr
      · cases hr
        simp only [Int.toNat_natCast, take_store_zero]
        exact encodes_dataEncode hrecords

/-- `server_pre_encrypt` makes a code of the response. -/
theorem ProtocolPlugin.serverPreEncrypt_encodes (q : ProtocolPlugin) :
    HookEncodes ((newProtocolClass q).bind (·.serverPreEncrypt)) (fun _ ↦ True) q.Encodes where
  absent h l := by
    cases q with
    | origin => rfl
    | verifySimple => cases h
  encodes f hf s block n h _ hcall hret := by
    cases q with
    | origin => cases hf
    | verifySimple =>
      cases hf
      have hhook : (Server.verifySimple (s.1 0).1 (s.1 0).2).serverPreEncrypt = some _ := rfl
      rw [percall_eq hhook] at hcall
      obtain ⟨r, hr, rfl⟩ := Option.map_eq_some_iff.mp hcall
      obtain ⟨out, hout, rfl⟩ := Option.map_eq_some_iff.mp hr
      simp only [Int.toNat_natCast, take_store_zero]
      exact encodes_clientPreEncrypt hout

/-! ## Responses -/

namespace LayeredConn

/-- A buffer with what a layer has made of its data. -/
theorem wrapLayer_encodes {hook : Option (Hook ρ)} {P : ρ → Prop} {E : Bytes → Bytes → Prop}
    (h : HookEncodes hook P E) {data data' : ρ} {buf buf' : Buffer} (hs : P data)
    (hwrap : (wrapLayer true hook data buf).2 = some (data', buf')) : E buf.data buf'.data := by
  cases hook with
  | none =>
    rw [wrapLayer_none] at hwrap
    cases hwrap
    exact h.absent rfl _
  | some f =>
    obtain ⟨r, hcall, hr⟩ := Option.bind_eq_some_iff.mp hwrap
    split at hr
    · cases hr
    · next hret =>
      cases hr
      exact h.encodes f rfl _ _ _ r hs hcall (Int.not_lt.mp hret)

section Responses

variable {env : ServerEnv σ κ} {plugins : Plugins ρ π} {s t : LayeredConn σ κ ρ π} {P : ρ → Prop}
  {E F : Bytes → Bytes → Prop}

/-- A segment leaves the context of the responses alone. -/
theorem serverRecvCb_eCtx {compatible : Compatible} {mem seg : Bytes} {taken : Nat}
    {connect : ConnectReply} {reply : SendReply}
    (h : serverRecvCb env plugins compatible mem taken connect reply s seg = some t) :
    t.eCtx = s.eCtx := by
  have hfirst {buf : Buffer} {r : LayeredConn σ κ ρ π × Buffer × Bool}
      (hdecode : decodeStage plugins compatible s buf = some r) : r.1.eCtx = s.eCtx := by
    rcases decodeStage_cases hdecode with ⟨-, rfl⟩ | ⟨f, d, -, -, ⟨-, rfl⟩ | ⟨-, -, _, -, rfl⟩⟩ <;> rfl
  have hsecond {s' : LayeredConn σ κ ρ π} {buf : Buffer} {r : LayeredConn σ κ ρ π × Buffer}
      (hpost : postDecryptStage plugins compatible s' buf = .next r ∨
        postDecryptStage plugins compatible s' buf = .waiting r) : r.1.eCtx = s'.eCtx := by
    rcases postDecryptStage_cases plugins compatible s' buf with ⟨-, hr⟩ | hr |
      ⟨f, d, -, -, ⟨-, hr⟩ | ⟨-, -, restored, hr⟩ | ⟨-, -, hr⟩⟩
    all_goals
      rw [hr] at hpost
      rcases hpost with hpost | hpost <;> cases hpost
    all_goals rfl
  rcases serverRecvCb_ways h with ⟨conn, -, rfl⟩ |
    ⟨conn, buf, s₁, buf₁, answer, -, hdecode, ⟨-, hback⟩ |
      ⟨-, dCtx, buf₂, s₂, buf₃, -, ⟨hpost, rfl⟩ | ⟨hpost, c, -, rfl⟩⟩⟩
  · rfl
  · rw [sendback_eq hback]
    exact hfirst hdecode
  · exact (hsecond (.inr hpost)).trans (hfirst hdecode)
  · exact (hsecond (.inl hpost)).trans (hfirst hdecode)

/-- A response goes out with its layers on it, the cipher between the two plugins. -/
theorem remoteRecvCb_encodes
    (ho : HookEncodes (plugins.obfs.bind (·.serverEncode)) P E)
    (hp : HookEncodes (plugins.protocol.bind (·.serverPreEncrypt)) (fun _ ↦ True) F)
    (hhead : ∀ c, plugins.obfs = some c → ∀ s n, P s → P (c.setHeadLen s n))
    (hoff : s.obfsCompatibleState = false) (hinit : s.eCtx.init = true) (hs : P s.obfs)
    {reply : SendReply} {r : Remote} {data : Bytes}
    (h : (remoteRecvCb env plugins reply r s data).next = some t) :
    ∃ framed, F data framed ∧
      E (env.cipher.encrypt s.eCtx.evp framed).2 (wrapped env plugins s data) ∧
      t.eCtx = ⟨true, (env.cipher.encrypt s.eCtx.evp framed).1⟩ := by
  obtain ⟨protocol, buf, obfs, out, hinner, houter, hwrapped, hsent⟩ := remoteRecvCb_eq_some h
  obtain ⟨_, _, _, _, rfl⟩ := sendResponse_eq_some hsent
  rw [hoff, Bool.not_false] at hinner houter
  have hframed := wrapLayer_encodes hp trivial hinner
  rw [Buffer.data_assign] at hframed
  have hencrypt : (ssEncrypt env.cipher s.iv s.eCtx buf).1 =
      ⟨true, (env.cipher.encrypt s.eCtx.evp buf.data).1⟩ ∧
        (ssEncrypt env.cipher s.iv s.eCtx buf).2.data =
          (env.cipher.encrypt s.eCtx.evp buf.data).2 := by
    rw [ssEncrypt, if_pos hinit]
    exact ⟨rfl, Buffer.data_assign _ _⟩
  have hcode := wrapLayer_encodes ho (setHeadLen_keeps hhead hs _) houter
  rw [hencrypt.2, ← hwrapped] at hcode
  refine ⟨buf.data, hframed, hcode, ?_⟩
  rw [← hencrypt.1]

/-- The last stage of a connection that has answered before: the plugins are behind their headers and
the context of the responses is set up. -/
structure Responding (settled P : ρ → Prop) (s : LayeredConn σ κ ρ π) : Prop where
  wired : s.Wired
  stage : s.conn.stage = .stream
  settled : settled s.obfs
  strict : s.obfsCompatibleState = false
  init : s.eCtx.init = true
  running : P s.obfs

/-- The hooks that put the layers on a response. -/
structure Wraps (plugins : Plugins ρ π) (P : ρ → Prop) (E F : Bytes → Bytes → Prop) : Prop where
  keep : PluginsKeep plugins P (fun _ ↦ True)
  obfs : HookEncodes (plugins.obfs.bind (·.serverEncode)) P E
  protocol : HookEncodes (plugins.protocol.bind (·.serverPreEncrypt)) (fun _ ↦ True) F

/-- What a callback has for the client: nothing, or a response with its layers on it. -/
theorem step_encodes {settled : ρ → Prop} (hplugin : Settles plugins.obfs settled)
    (h : Wraps plugins P E F) {e : Event} (hs : s.Responding settled P) (he : s.Watched e)
    (hstep : step env plugins strict s e = some t) :
    t.Responding settled P ∧
      ((e.fromRemote = [] ∧ returned env plugins strict s e = [] ∧ t.eCtx = s.eCtx) ∨
        ∃ framed, F e.fromRemote framed ∧
          E (env.cipher.encrypt s.eCtx.evp framed).2 (returned env plugins strict s e) ∧
          t.eCtx = ⟨true, (env.cipher.encrypt s.eCtx.evp framed).1⟩) := by
  have hstage := step_stream hs.wired hs.stage he hstep
  have hresponding (hinit : t.eCtx.init = true) : t.Responding settled P :=
    ⟨step_wired hs.wired he hstep, hstage,
      step_settled hplugin hs.wired (fun _ ↦ hs.settled) he hstep (by rw [hstage]; exact nofun),
      (step_strict_flags hstep).1.trans hs.strict, hinit,
      (step_plugins h.keep ⟨hs.running, trivial⟩ hstep).1⟩
  have hidle (hctx : t.eCtx = s.eCtx) : t.Responding settled P :=
    hresponding (by rw [hctx, hs.init])
  cases e with
  | serverRecv seg mem taken connect reply =>
    have hctx := serverRecvCb_eCtx hstep
    exact ⟨hidle hctx, .inl ⟨rfl, answered_of_settled hplugin hs.settled seg mem taken, hctx⟩⟩
  | serverSend reply =>
    have hctx := (serverSendCb_keeps hstep).2.1
    exact ⟨hidle hctx, .inl ⟨rfl, rfl, hctx⟩⟩
  | serverResolve connect resolved => cases hs.stage.symm.trans he.1
  | remoteRecv data reply =>
    obtain ⟨-, r, hremote, -⟩ := he
    simp only [step, hremote] at hstep
    obtain ⟨framed, hframed, hcode, hctx⟩ :=
      remoteRecvCb_encodes h.obfs h.protocol h.keep.head hs.strict hs.init hs.running hstep
    exact ⟨hresponding (by rw [hctx]), .inr ⟨framed, hframed, hcode, hctx⟩⟩
  | remoteSend peer reply =>
    obtain ⟨c, -, rfl⟩ := Option.map_eq_some_iff.mp hstep
    exact ⟨hidle rfl, .inl ⟨rfl, rfl, rfl⟩⟩

/-- Over a run the responses are one code of what the remote has sent. -/
theorem run_encodes {settled : ρ → Prop} (hplugin : Settles plugins.obfs settled)
    (h : Wraps plugins P E F) (hE : Streams E) (hF : Streams F) {es : List Event}
    (hs : s.Responding settled P) (ha : Along (step env plugins strict) Watched s es)
    (hrun : run (step env plugins strict) s es = some t) :
    ∃ framed, F (es.flatMap Event.fromRemote) framed ∧
      E (env.cipher.encrypt s.eCtx.evp framed).2
        (Base.collect (step env plugins strict) (returned env plugins strict) s es) := by
  induction es generalizing s with
  | nil =>
    refine ⟨[], hF.nil, ?_⟩
    rw [List.length_eq_zero_iff.mp (env.cipher.length_encrypt s.eCtx.evp [])]
    exact hE.nil
  | cons e es ih =>
    obtain ⟨u, hu, hrest⟩ := (run_cons_eq_some _).mp hrun
    obtain ⟨hu', hresponse⟩ := step_encodes hplugin h hs ha.1 hu
    obtain ⟨framed, hframed, hcode⟩ := ih hu' (ha.2 u hu) hrest
    rw [List.flatMap_cons, collect_cons hu]
    rcases hresponse with ⟨hnone, hreturned, hctx⟩ | ⟨first, hfirst, hreturned, hctx⟩
    · rw [hctx] at hcode
      rw [hnone, hreturned]
      exact ⟨framed, hframed, hcode⟩
    · rw [hctx] at hcode
      refine ⟨first ++ framed, hF.append hfirst hframed, ?_⟩
      rw [env.cipher.encrypt_append]
      exact hE.append hreturned hcode

end Responses

/-- The plugins of a listener put their layers on the responses. -/
theorem plugins_wrap (config : ObfsConfig) (p : ObfsPlugin) (q : ProtocolPlugin) :
    Wraps ⟨newObfsClass config p, newProtocolClass q⟩ p.Running p.Encodes q.Encodes :=
  ⟨plugins_running config p q, p.serverEncode_encodes config, q.serverPreEncrypt_encodes⟩

end LayeredConn

/-! ## The decoders of a client -/

/-- What the calls of an obfs plugin find outside its connection: what follows a segment in its block,
and for `tls1.2_ticket_auth` the global data. -/
abbrev ObfsPlugin.ClientOutside : ObfsPlugin → Type
  | .plain => Unit
  | .httpSimple | .httpPost => Http.Memory
  | .tls12TicketAuth => Bytes × Obfs.GlobalData

/-- The data of an obfs plugin of a client. -/
abbrev ObfsPlugin.ClientData : ObfsPlugin → Type
  | .plain => Unit
  | .httpSimple | .httpPost => Http.HttpObfs
  | .tls12TicketAuth => Obfs.LocalData

/-- `client_decode`, where it succeeds. -/
def ObfsPlugin.clientDecoder (config : ObfsConfig) :
    (p : ObfsPlugin) → p.ClientOutside → Decoder p.ClientData UInt8 UInt8
  | .plain, _ => Decoder.pass Unit UInt8
  | .httpSimple, mem | .httpPost, mem => Http.httpSimpleClientDecode mem
  | .tls12TicketAuth, (mem, g) => fun l seg ↦
    Obfs.clientReceive config.hmac config.tls g l ⟨seg ++ mem, seg.length⟩

/-- `client_post_decrypt`, where it succeeds. -/
def ProtocolPlugin.clientDecoder : ProtocolPlugin → Decoder Bytes UInt8 UInt8
  | .origin => Decoder.pass Bytes UInt8
  | .verifySimple => fun p l ↦ Framing.accept (Protocol.VerifySimple.clientPostDecrypt p l)

/-- The header of the responses or the handshake is over, and `pending` is what was received and not
yet put out. -/
def ObfsPlugin.ClientOpen : (p : ObfsPlugin) → p.ClientData → Bytes → Prop
  | .plain, _, pending => pending = []
  | .httpSimple, o, pending | .httpPost, o, pending =>
    o.localData.hasRecvHeader = true ∧ pending = []
  | .tls12TicketAuth, l, pending => l.handshakeStatus = .done ∧ l.recvBuffer = pending

/-- What a client reads out of a code behind what is pending. -/
def ObfsPlugin.clientReads : ObfsPlugin → Bytes → Bytes → Bytes → Prop
  | .tls12TicketAuth => Reads (Obfs.parseRecord Obfs.clientHeader) 4200
  | _ => fun _ code data ↦ code = data

/-- A client takes out of its buffer what is whole. -/
def ObfsPlugin.ClientWaits : ObfsPlugin → Bytes → Prop
  | .tls12TicketAuth, pending => Obfs.parseRecord Obfs.clientHeader pending = .more
  | _, _ => True

/-- `client_decode` reads what `server_encode` writes. -/
theorem ObfsPlugin.clientDecodes (config : ObfsConfig) (p : ObfsPlugin) (w : p.ClientOutside) :
    (p.clientDecoder config w).Decodes
      (fun c code data ↦ ∃ pending, p.ClientOpen c pending ∧ p.clientReads pending code data) bufSize
      (4200 + bufSize) := by
  have hpass := Decoder.decodes_pass Bytes UInt8 (Nat.le_add_left bufSize 4200)
  cases p with
  | plain =>
    refine hpass.follow (fun _ pending ↦ pending = []) ?_
    rintro t s l s' out hs hd
    cases hd
    exact ⟨t, rfl, hs⟩
  | httpSimple | httpPost =>
    refine hpass.follow (fun (o : Http.HttpObfs) pending ↦ o.localData.hasRecvHeader = true ∧ pending = [])
      ?_
    rintro o s l s' out ⟨ho, hs⟩ hd
    cases hd
    exact ⟨o, if_pos ho, ho, hs⟩
  | tls12TicketAuth =>
    refine (decodes_feed rfl parseRecord_pos 4200 bufSize).follow
      (fun (l : Obfs.LocalData) pending ↦ l.handshakeStatus = .done ∧ l.recvBuffer = pending) ?_
    rintro ⟨status, sendBuffer, recvBuffer⟩ s l s' out ⟨hdone, hs⟩ hd
    cases hdone
    cases hs
    refine ⟨⟨.done, sendBuffer, s'⟩, Obfs.clientReceive_done sendBuffer _ ?_, rfl, rfl⟩
    rw [Obfs.Block.bytes, List.take_left]
    exact hd

/-- Both sides of `verify_simple` run the same code. -/
theorem ProtocolPlugin.clientDecodes (q : ProtocolPlugin) :
    q.clientDecoder.Decodes q.reads (4200 + bufSize) (2022 + (4200 + bufSize)) := by
  have h := q.decodes
  cases q <;> exact h

/-- A client reads what was encoded, whatever part of it has come. -/
theorem ObfsPlugin.clientReads_of_encodes {p : ObfsPlugin} {c : p.ClientData} {pending wire data : Bytes}
    (hopen : p.ClientOpen c pending) (hwaits : p.ClientWaits pending)
    (h : p.Encodes data (pending ++ wire)) : p.clientReads pending wire data := by
  cases p with
  | tls12TicketAuth => exact reads_records Obfs.clientHeader_record hwaits h
  | plain =>
    cases hopen
    exact h
  | httpSimple | httpPost =>
    cases hopen.2
    exact h

/-! ## From the remote to the client -/

namespace LayeredConn

/-- A client in step with a connection: its obfs plugin, its cipher and its protocol plugin are behind
what they have taken. Of what the connection has sent so far, `late` has not come yet; it stands for
`data`. -/
def Expects (env : ServerEnv σ κ) (p : ObfsPlugin) (q : ProtocolPlugin)
    (s : LayeredConn σ κ p.Data q.Data) (client : (p.ClientData × σ) × Bytes) (late data : Bytes) :
    Prop :=
  ∃ pending framed, p.ClientOpen client.1.1 pending ∧ p.ClientWaits pending ∧ q.Pending client.2 ∧
    p.Encodes (env.cipher.encrypt client.1.2 framed).2 (pending ++ late) ∧
    (env.cipher.encrypt client.1.2 framed).1 = s.eCtx.evp ∧ q.Encodes data (client.2 ++ framed)

/-- Whatever the plugins, what the remote sends comes out of the layers of the client in order and is
refused nowhere: behind the first response, what is written to the client and waits for it makes one
code, and however its first part is cut into segments, the client gets the first part of what the
remote has sent, all of it when the whole code has come. -/
theorem tunnel_downstream (config : ObfsConfig) (p : ObfsPlugin) (q : ProtocolPlugin)
    (env : ServerEnv σ κ) (evp : σ) (chunk : κ) (mem headerMem iv : Bytes) (outside : p.Outside)
    (outside' : q.Outside) (w : p.ClientOutside) (before after : List Event)
    (s t : LayeredConn σ κ p.Data q.Data) (client : (p.ClientData × σ) × Bytes) (late data : Bytes)
    (hbefore : Along (step env ⟨newObfsClass config p, newProtocolClass q⟩ strict) Watched
      (accept (newServer evp chunk mem headerMem) evp iv (newObfs config p outside)
        (newProtocol q outside')) before)
    (hopened : run (step env ⟨newObfsClass config p, newProtocolClass q⟩ strict)
      (accept (newServer evp chunk mem headerMem) evp iv (newObfs config p outside)
        (newProtocol q outside')) before = some s)
    (hstage : s.conn.stage = .stream) (hinit : s.eCtx.init = true) (hrunning : p.Running s.obfs)
    (hclient : Expects env p q s client late data)
    (hafter : Along (step env ⟨newObfsClass config p, newProtocolClass q⟩ strict) Watched s after)
    (hrun : run (step env ⟨newObfsClass config p, newProtocolClass q⟩ strict) s after = some t) :
    ∃ code, t.toClient ++ t.unsent = s.toClient ++ s.unsent ++ code ∧
      ∀ pieces : List Bytes, (∀ l ∈ pieces, l.length ≤ bufSize) → pieces.flatten <+: late ++ code →
        ∃ client' out, Stream.runAll (layers env.cipher (p.clientDecoder config w) q.clientDecoder)
            client pieces = some (client', out) ∧
          out <+: data ++ after.flatMap Event.fromRemote ∧
          (pieces.flatten = late ++ code → out = data ++ after.flatMap Event.fromRemote) := by
  obtain ⟨settled, hplugin⟩ := newObfsClass_settles config p
  have hinv : s.Wired ∧ s.Settled settled := run_invariant_along _ Watched
    (fun u ↦ u.Wired ∧ u.Settled settled)
    (fun u e v hu he h ↦ ⟨step_wired hu.1 he h, step_settled hplugin hu.1 hu.2 he h⟩)
    ⟨wired_accept evp chunk mem headerMem iv _ _, fun h ↦ absurd rfl h⟩ hbefore hopened
  have hresponding : s.Responding settled p.Running :=
    ⟨hinv.1, hstage, hinv.2 (by rw [hstage]; exact nofun), (run_strict_flags hopened).1, hinit,
      hrunning⟩
  -- what goes to the client is one code, which goes on where the client is
  obtain ⟨-, hstream, -⟩ := stream_of_moves
    (fun u : LayeredConn σ κ p.Data q.Data ↦ u.Wired ∧ u.Settled settled) downstream
    (fun u e v hu he h ↦
      ⟨⟨step_wired hu.1 he h, step_settled hplugin hu.1 hu.2 he h⟩,
        step_downstream hu.1 he (answersAlone_of_settled hplugin hu.1 hu.2 e) h⟩)
    hinv hafter hrun
  obtain ⟨framed, hframed, hcode⟩ := run_encodes hplugin (plugins_wrap config p q)
    p.encodes_streams q.encodes_streams hresponding hafter hrun
  obtain ⟨pending, earlier, hopen, hwaits, hwaits', hlate, hevp, hdata⟩ := hclient
  have hq := q.encodes_streams.append hdata hframed
  have hp := p.encodes_streams.append hlate hcode
  have hboth : (env.cipher.encrypt client.1.2 (earlier ++ framed)).2 =
      (env.cipher.encrypt client.1.2 earlier).2 ++ (env.cipher.encrypt s.eCtx.evp framed).2 := by
    rw [env.cipher.encrypt_append, hevp]
  rw [← hboth, List.append_assoc] at hp
  rw [List.append_assoc] at hq
  refine ⟨_, hstream, fun pieces hpieces hcut ↦ ?_⟩
  have hdecodes := (((p.clientDecodes config w).andThen
    (decodes_cipherDecoder env.cipher (4200 + bufSize)) (Nat.le_refl _)).andThen q.clientDecodes
      (Nat.le_refl _) :
    (layers env.cipher (p.clientDecoder config w) q.clientDecoder).Decodes _ _ _)
  obtain ⟨rest, hrest⟩ := hcut
  rw [← hrest] at hp ⊢
  obtain ⟨client', out, more, houtputs, hout, hleft⟩ := hdecodes.runAll
    ⟨_, ⟨_, ⟨pending, hopen, ObfsPlugin.clientReads_of_encodes hopen hwaits hp⟩, rfl⟩,
      q.reads_of_encodes hwaits' hq⟩ hpieces
  refine ⟨client', out, houtputs, ⟨more, hout.symm⟩, fun hall ↦ ?_⟩
  rw [List.self_eq_append_right.mp hall] at hleft
  rw [hout, hdecodes.empty client' more hleft, List.append_nil]

/-- The request and a first response. -/
def tunnelFirst : List Event := tunnelRequest ++ [.remoteRecv (ascii "x") (.sent 100)]

/-- The connection behind the first response. -/
def tunnelAnswered : TunnelConn := (run tunnelStep tunnelConn tunnelFirst).getD tunnelConn

/-- A second response, of which the client takes three bytes first. -/
def tunnelResponse : List Event := [.remoteRecv (ascii "yz") (.sent 3), .serverSend (.sent 100)]

/-- The connection behind the second response. -/
def tunnelReturned : TunnelConn := (run tunnelStep tunnelAnswered tunnelResponse).getD tunnelConn

/-- The run gets to the first response. -/
theorem run_tunnelFirst : run tunnelStep tunnelConn tunnelFirst = some tunnelAnswered := by
  have h : (run tunnelStep tunnelConn tunnelFirst).isSome = true := by decide +kernel
  obtain ⟨t, ht⟩ := Option.isSome_iff_exists.mp h
  rw [tunnelAnswered, ht, Option.getD_some]

/-- The run goes on with the second one. -/
theorem run_tunnelResponse : run tunnelStep tunnelAnswered tunnelResponse = some tunnelReturned := by
  have h : (run tunnelStep tunnelAnswered tunnelResponse).isSome = true := by decide +kernel
  obtain ⟨t, ht⟩ := Option.isSome_iff_exists.mp h
  rw [tunnelReturned, ht, Option.getD_some]

/-- A client that has read the first response gets the second one out of its frame, however the frame
is cut. -/
theorem tunnel_downstream_response :
    ∃ code, tunnelReturned.toClient ++ tunnelReturned.unsent =
        tunnelAnswered.toClient ++ tunnelAnswered.unsent ++ code ∧
      ∀ pieces : List Bytes, (∀ l ∈ pieces, l.length ≤ bufSize) → pieces.flatten <+: [] ++ code →
        ∃ client' out, Stream.runAll
            (layers (plainEnv false).cipher (ObfsPlugin.clientDecoder tunnelConfig .plain ())
              (ProtocolPlugin.clientDecoder .verifySimple)) (((), ()), []) pieces =
              some (client', out) ∧
          out <+: [] ++ tunnelResponse.flatMap Event.fromRemote ∧
          (pieces.flatten = [] ++ code → out = [] ++ tunnelResponse.flatMap Event.fromRemote) := by
  have hexpects : Expects (plainEnv false) .plain .verifySimple tunnelAnswered (((), ()), []) [] [] :=
    ⟨[], [], rfl, trivial, rfl, rfl, Subsingleton.elim _ _, [], nofun, rfl, rfl⟩
  exact tunnel_downstream tunnelConfig .plain .verifySimple (plainEnv false) () () [] []
    (List.replicate 8 0) () (fun _ ↦ (fun _ ↦ 0, fun _ ↦ 0)) () tunnelFirst tunnelResponse tunnelAnswered
    tunnelReturned (((), ()), []) [] [] (by decide +kernel) run_tunnelFirst (by decide +kernel)
    (by decide +kernel) trivial hexpects (by decide +kernel) run_tunnelResponse

end LayeredConn

end OpenWrtCompile.Server
