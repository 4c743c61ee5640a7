import OpenWrtCompile.Server.Relay

/-!
# Runs of the relay

`shadowsocksr-libev/src/server/server.c`: what the callbacks of a connection do over a whole run, from
`accept_cb` on. The watchers keep the callbacks apart, and both streams of the relay get through
without a byte lost, repeated or out of place.
-/

namespace OpenWrtCompile.Server
open OpenWrtCompile.Base

variable {σ κ ρ π : Type}

namespace LayeredConn

/-- A listener without plugins. -/
def noPlugins : Plugins ρ π := ⟨none, none⟩

/-- One callback of a plain listener to run examples with. -/
def relayStep : LayeredConn Unit Unit Unit Unit → Event → Option (LayeredConn Unit Unit Unit Unit) :=
  step (plainEnv false) noPlugins strict

/-- A new connection of this listener. -/
def relayConn : LayeredConn Unit Unit Unit Unit :=
  accept (newServer () () [] []) () (List.replicate 8 0) () ()

/-- A request for 127.0.0.1 with two bytes behind it, which the remote takes one by one. -/
def relayRequest : List Event :=
  [.serverRecv (List.replicate 8 7 ++ ([1, 127, 0, 0, 1, 0, 80] ++ ascii "hi").map (· ^^^ 0x5A)) [] 0
      ⟨false, .again, false, []⟩ .again,
    .remoteSend true (.sent 1), .remoteSend true (.sent 1)]

/-- The connection behind the request. -/
def relayOpened : LayeredConn Unit Unit Unit Unit :=
  (run relayStep relayConn relayRequest).getD relayConn

/-- A segment and a response, of which both sides take a part first. -/
def relayTraffic : List Event :=
  [.serverRecv ((ascii "abc").map (· ^^^ 0x5A)) [] 0 ⟨false, .again, false, []⟩ (.sent 2),
    .remoteRecv (ascii "xyz") (.sent 1), .remoteSend true (.sent 1), .serverSend (.sent 4)]

/-- The connection behind the response. -/
def relayDone : LayeredConn Unit Unit Unit Unit :=
  (run relayStep relayOpened relayTraffic).getD relayConn

/-- The callbacks of the request come when their watchers are started. -/
theorem relayRequest_watched : Along relayStep Watched relayConn relayRequest :=
  along_cons rfl ⟨List.cons_ne_nil _ _, rfl⟩
    (along_cons rfl ⟨_, rfl, rfl⟩ (along_cons rfl ⟨_, rfl, rfl⟩ trivial))

/-- So do those of the segment and the response. -/
theorem relayTraffic_watched : Along relayStep Watched relayOpened relayTraffic :=
  along_cons rfl ⟨List.cons_ne_nil _ _, rfl⟩
    (along_cons rfl ⟨List.cons_ne_nil _ _, _, rfl, rfl⟩
      (along_cons rfl ⟨_, rfl, rfl⟩ (along_cons rfl rfl trivial)))

/-! ## Runs -/

section Runs

variable (env : ServerEnv σ κ) (plugins : Plugins ρ π) (compatible : Compatible)

/-- In every run the watchers are as the stage has them. -/
theorem run_wired {s t : LayeredConn σ κ ρ π} {es : List Event} (hs : s.Wired)
    (ha : Along (step env plugins compatible) Watched s es)
    (hrun : run (step env plugins compatible) s es = some t) : t.Wired :=
  run_invariant_along _ Watched Wired (fun _ _ _ hi he h ↦ step_wired hi he h) hs ha hrun

/-- Over a run of an open connection the stream to the remote grows by what the callbacks have for it. -/
theorem run_upstream {s t : LayeredConn σ κ ρ π} {es : List Event} {r : Remote} (hs : s.Wired)
    (hremote : s.conn.remote = some r) (ha : Along (step env plugins compatible) Watched s es)
    (hrun : run (step env plugins compatible) s es = some t) :
    t.Wired ∧ ∃ r', t.conn.remote = some r' ∧ r.sent <+: r'.sent ∧
      r'.sent ++ r'.unsent = r.sent ++ r.unsent ++
        Base.collect (step env plugins compatible) (forwarded env plugins compatible) s es := by
  obtain ⟨⟨ht, r', hremote'⟩, hstream, hsent⟩ := stream_of_moves
    (fun u ↦ u.Wired ∧ ∃ r, u.conn.remote = some r) upstream
    (fun u e v ⟨hu, _, hopen⟩ he h ↦
      have hmove := step_upstream hu hopen he h
      ⟨⟨step_wired hu he h, hmove.1⟩, hmove.2⟩)
    ⟨hs, r, hremote⟩ ha hrun
  rw [upstream_of hremote, upstream_of hremote'] at hstream hsent
  exact ⟨ht, r', hremote', hsent, hstream⟩

/-- A new connection waits for its request. -/
theorem wired_accept (evp : σ) (chunk : κ) (mem headerMem iv : Bytes) (obfs : ρ) (protocol : π) :
    (accept (newServer evp chunk mem headerMem) evp iv obfs protocol).Wired := ⟨rfl, rfl⟩

end Runs

/-- A plugin that has let a segment through is settled: from then on it gives no answer of its own. -/
structure Settles (cls : Option (ObfsClass ρ)) (settled : ρ → Prop) : Prop where
  absent : cls.bind (·.serverDecode) = none → ∀ s, settled s
  through : ∀ f, cls.bind (·.serverDecode) = some f → ∀ s block n d, f s block n = some d →
    0 ≤ d.ret → d.needsendback = false → settled d.data
  quiet : ∀ f, cls.bind (·.serverDecode) = some f → ∀ s block n d, settled s →
    f s block n = some d → 0 ≤ d.ret → d.needsendback = false
  encode : ∀ f, cls.bind (·.serverEncode) = some f → ∀ s block n d, settled s →
    f s block n = some d → settled d.data
  head : ∀ c, cls = some c → ∀ s n, settled s → settled (c.setHeadLen s n)

/-- `http_simple` and `http_post` never answer. -/
theorem httpServer_settles : Settles (some httpServer) fun _ ↦ True where
  absent _ _ := trivial
  through _ _ _ _ _ _ _ _ _ := trivial
  quiet f hf s block n d _ hd _ := by
    cases hf
    have hhook : (httpSimple (s.1 0).1 (s.1 0).2).serverDecode = some _ := rfl
    rw [percall_eq hhook] at hd
    obtain ⟨h, hh, rfl⟩ := Option.map_eq_some_iff.mp hd
    obtain ⟨⟨o, out⟩, -, rfl⟩ := Option.map_eq_some_iff.mp hh
    cases out <;> rfl
  encode _ _ _ _ _ _ _ _ := trivial
  head _ _ _ _ _ := trivial

/-- `tls1.2_ticket_auth` answers during its handshake. -/
theorem tlsServer_settles (config : ObfsConfig) :
    Settles (some (tlsServer config)) fun s ↦ s.2.handshakeStatus = .done where
  absent h := by cases h
  through f hf s block n d hd hret hno := by
    cases hf
    obtain ⟨hook, hhook, hcall⟩ := tlsHook config.hmac config.tls (s.1 0) s.2 block n
    rw [percall_eq hhook, hcall, Option.map_map] at hd
    obtain ⟨d', hd', rfl⟩ := Option.map_eq_some_iff.mp hd
    have htaken : d'.output ≠ none := by
      intro hnone
      simp only [Function.comp_apply, hnone] at hret
      exact absurd hret (Int.not_le.mpr (Int.negSucc_lt_zero 0))
    by_cases hdone : s.2.handshakeStatus = .done
    · rw [Obfs.serverDecode, hdone] at hd'
      cases hd'
      exact hdone
    · rcases serverDecode_open hdone hd' with ⟨-, rfl⟩ | hhello
      · rw [decodeFinished_eq] at htaken ⊢
        split at htaken
        · next hvalid =>
          simp only [Function.comp_apply, if_pos hvalid]
          rfl
        · exact absurd rfl htaken
      · rcases Obfs.decodeHello_cases config.hmac config.tls (s.1 0).now s.2 (s.1 0).global block n
          with ⟨-, hnone⟩ | ⟨-, -, e, he, hask, -⟩ | ⟨-, -, e, he, -, hnone, -⟩
        · rw [hnone] at hhello
          cases hhello
        · cases he.symm.trans hhello
          cases hask.symm.trans hno
        · cases he.symm.trans hhello
          exact absurd hnone htaken
  quiet f hf s block n d hdone hd hret := by
    cases hf
    obtain ⟨hook, hhook, hcall⟩ := tlsHook config.hmac config.tls (s.1 0) s.2 block n
    rw [percall_eq hhook, hcall, Option.map_map] at hd
    obtain ⟨d', hd', rfl⟩ := Option.map_eq_some_iff.mp hd
    rw [Obfs.serverDecode, hdone] at hd'
    cases hd'
    rfl
  encode f hf s block n d hdone hd := by
    cases hf
    have hhook : (tls12TicketAuth config.hmac config.tls (s.1 0)).serverEncode = some _ := rfl
    rw [percall_eq hhook] at hd
    obtain ⟨h, hh, rfl⟩ := Option.map_eq_some_iff.mp hd
    obtain ⟨⟨l, out⟩, hencode, hh⟩ := Option.bind_eq_some_iff.mp hh
    rw [Obfs.serverEncode, if_pos hdone] at hencode
    obtain ⟨records, -, hl⟩ := Option.map_eq_some_iff.mp hencode
    cases hl
    dsimp only at hh
    split at hh
    · cases hh
    · cases hh
      exact hdone
  head c hc s n hdone := by
    cases hc
    exact hdone

/-- The plugins of a listener settle. -/
theorem newObfsClass_settles (config : ObfsConfig) (p : ObfsPlugin) :
    ∃ settled, Settles (newObfsClass config p) settled := by
  cases p with
  | plain => exact ⟨fun _ ↦ True, fun _ _ ↦ trivial, nofun, nofun, nofun, nofun⟩
  | httpSimple => exact ⟨_, httpServer_settles⟩
  | httpPost => exact ⟨_, httpServer_settles⟩
  | tls12TicketAuth => exact ⟨_, tlsServer_settles config⟩

/-- Sending to the client leaves all but the buffer and the watchers alone. -/
theorem serverSendCb_keeps {reply : SendReply} {s t : LayeredConn σ κ ρ π}
    (h : serverSendCb reply s = some t) :
    t.obfs = s.obfs ∧ t.eCtx = s.eCtx ∧ t.iv = s.iv ∧ t.conn.dCtx = s.conn.dCtx ∧
      t.conn.auth = s.conn.auth := by
  unfold serverSendCb at h
  split at h
  · cases h
  · dsimp only at h
    repeat' split at h
    all_goals cases h
    all_goals exact ⟨rfl, rfl, rfl, rfl, rfl⟩

section Strict

variable {env : ServerEnv σ κ} {plugins : Plugins ρ π} {settled : ρ → Prop}
  {s t : LayeredConn σ κ ρ π}

/-- A segment that the plugin lets through settles it. -/
theorem decodeStage_settled (hplugin : Settles plugins.obfs settled) {s₁ : LayeredConn σ κ ρ π}
    {buf buf₁ : Buffer} (h : decodeStage plugins strict s buf = some (s₁, buf₁, false)) :
    settled s₁.obfs := by
  rcases decodeStage_cases h with ⟨hhook, hr⟩ | ⟨f, d, hhook, hcall, ⟨hret, hr⟩ | ⟨-, hon, -⟩⟩
  · cases hr
    exact hplugin.absent hhook _
  · simp only [Prod.mk.injEq] at hr
    obtain ⟨rfl, -, hno⟩ := hr
    exact hplugin.through f hhook _ _ _ d hcall hret hno.symm
  · cases hon

/-- A settled plugin lets a segment through or refuses it. -/
theorem decodeStage_quiet (hplugin : Settles plugins.obfs settled) {s₁ : LayeredConn σ κ ρ π}
    {buf buf₁ : Buffer} {answer : Bool} (hs : settled s.obfs)
    (h : decodeStage plugins strict s buf = some (s₁, buf₁, answer)) : answer = false := by
  rcases decodeStage_cases h with ⟨-, hr⟩ | ⟨f, d, hhook, hcall, ⟨hret, hr⟩ | ⟨-, hon, -⟩⟩
  · cases hr
    rfl
  · simp only [Prod.mk.injEq] at hr
    rw [hr.2.2]
    exact hplugin.quiet f hhook _ _ _ d hs hcall hret
  · cases hon

/-- The data of the obfs plugin behind the protocol layer. -/
theorem postDecryptStage_obfs {compatible : Compatible} {buf : Buffer}
    {r : LayeredConn σ κ ρ π × Buffer}
    (h : postDecryptStage plugins compatible s buf = .next r ∨
      postDecryptStage plugins compatible s buf = .waiting r) : r.1.obfs = s.obfs := by
  rcases postDecryptStage_cases plugins compatible s buf with ⟨-, hr⟩ | hr |
    ⟨f, d, -, -, ⟨-, hr⟩ | ⟨-, -, restored, hr⟩ | ⟨-, -, hr⟩⟩
  all_goals
    rw [hr] at h
    rcases h with h | h <;> cases h
  all_goals rfl

/-- Behind the first stage the obfs plugin is settled. -/
def Settled (settled : ρ → Prop) (s : LayeredConn σ κ ρ π) : Prop :=
  s.conn.stage ≠ .init → settled s.obfs

/-- A segment gets the connection out of the first stage only through the plugin. -/
theorem serverRecvCb_settled (hplugin : Settles plugins.obfs settled) {mem seg : Bytes} {taken : Nat}
    {connect : ConnectReply} {reply : SendReply} (hs : s.Settled settled)
    (h : serverRecvCb env plugins strict mem taken connect reply s seg = some t) :
    t.Settled settled := by
  rcases serverRecvCb_ways h with ⟨conn, hread, rfl⟩ |
    ⟨conn, buf, s₁, buf₁, answer, hread, hdecode, hways⟩
  · rw [readStage_waiting hread]
    exact hs
  · cases readStage_ctx.2 _ _ hread
    rcases hways with ⟨rfl, hback⟩ | ⟨rfl, dCtx, buf₂, s₂, buf₃, -, ⟨hpost, rfl⟩ | ⟨hpost, c, -, rfl⟩⟩
    · intro hstage
      rw [sendback_eq hback] at hstage
      have hinit : s.conn.stage ≠ .init := by
        rwa [← (setRecvBuf_keeps s.conn buf₁).2.1]
      cases decodeStage_quiet hplugin (hs hinit) hdecode
    · intro _
      rw [postDecryptStage_obfs (.inr hpost)]
      exact decodeStage_settled hplugin hdecode
    · intro _
      rw [postDecryptStage_obfs (.inl hpost)]
      exact decodeStage_settled hplugin hdecode

/-- What a response leaves of a settled plugin. -/
theorem remoteRecvCb_settled (hplugin : Settles plugins.obfs settled) {reply : SendReply} {r : Remote}
    {data : Bytes} (hs : settled s.obfs) (h : (remoteRecvCb env plugins reply r s data).next = some t) :
    settled t.obfs := by
  obtain ⟨protocol, buf, obfs, out, -, houter, -, hsent⟩ := remoteRecvCb_eq_some h
  obtain ⟨_, _, _, _, rfl⟩ := sendResponse_eq_some hsent
  have hhead := setHeadLen_keeps hplugin.head hs (getHeadSize data 30)
  exact wrapLayer_data (fun f hf block n d hd _ ↦ hplugin.encode f hf _ block n d hhead hd) hhead houter

/-- Every callback keeps the plugin settled. -/
theorem step_settled (hplugin : Settles plugins.obfs settled) {e : Event} (hw : s.Wired)
    (hs : s.Settled settled) (he : s.Watched e) (h : step env plugins strict s e = some t) :
    t.Settled settled := by
  cases e with
  | serverRecv seg mem taken connect reply => exact serverRecvCb_settled hplugin hs h
  | serverSend reply =>
    intro _
    rw [(serverSendCb_keeps h).1]
    exact hs (by rw [hw.stream_of_sendIo he]; rintro ⟨⟩)
  | serverResolve connect resolved =>
    obtain ⟨c, hresolve, rfl⟩ := Option.map_eq_some_iff.mp h
    intro _
    exact hs (by rw [he.1]; rintro ⟨⟩)
  | remoteRecv data reply =>
    obtain ⟨-, r, hremote, hread⟩ := he
    simp only [step, hremote] at h
    intro _
    exact remoteRecvCb_settled hplugin (hs (by rw [hw.stream_of_recvIo hremote hread]; rintro ⟨⟩)) h
  | remoteSend peer reply =>
    obtain ⟨r, hremote, -⟩ := he
    obtain ⟨c, hcall, rfl⟩ := Option.map_eq_some_iff.mp h
    intro _
    apply hs
    rcases hw.waits_or_relays hremote with (hstage | hstage) | hstage <;> rw [hstage] <;> rintro ⟨⟩

/-- A settled plugin gives no segment an answer. -/
theorem answered_of_settled (hplugin : Settles plugins.obfs settled) (hs : settled s.obfs)
    (seg mem : Bytes) (taken : Nat) : answered env plugins strict s seg mem taken = [] := by
  unfold answered
  split
  · split
    · next hdecode => cases decodeStage_quiet hplugin hs hdecode
    · rfl
  · rfl

/-- So no answer is written while a response waits. -/
theorem answersAlone_of_settled (hplugin : Settles plugins.obfs settled) (hw : s.Wired)
    (hs : s.Settled settled) (e : Event) : AnswersAlone env plugins strict s e := by
  cases e with
  | serverRecv seg mem taken connect reply =>
    intro hio
    exact answered_of_settled hplugin (hs (by rw [hw.stream_of_sendIo hio]; exact nofun)) seg mem taken
  | _ => trivial

end Strict

section Decrypting

variable {env : ServerEnv σ κ} {plugins : Plugins ρ π} {compatible : Compatible}
  {s t : LayeredConn σ κ ρ π}

/-- Behind the first stage the context of the client's stream is set up. -/
def Decrypting (s : LayeredConn σ κ ρ π) : Prop := s.conn.stage ≠ .init → s.conn.dCtx.init = true

/-- A segment gets the connection out of the first stage only through `ss_decrypt`. -/
theorem serverRecvCb_decrypting {mem seg : Bytes} {taken : Nat} {connect : ConnectReply}
    {reply : SendReply} (hs : s.Decrypting)
    (h : serverRecvCb env plugins compatible mem taken connect reply s seg = some t) :
    t.Decrypting := by
  rcases serverRecvCb_ways h with ⟨conn, hread, rfl⟩ |
    ⟨conn, buf, s₁, buf₁, answer, hread, hdecode, hways⟩
  · rw [readStage_waiting hread]
    exact hs
  · cases readStage_ctx.2 _ _ hread
    rcases hways with ⟨-, hback⟩ | ⟨-, dCtx, buf₂, s₂, buf₃, hdecrypt, ⟨-, rfl⟩ | ⟨-, c, hrelay, rfl⟩⟩
    · rw [sendback_eq hback]
      intro hstage
      obtain ⟨hctx, hkeep, -⟩ := setRecvBuf_keeps s.conn buf₁
      rw [hctx]
      exact hs (by rwa [← hkeep])
    · intro _
      rw [(setRecvBuf_keeps _ buf₃).1]
      exact decryptSegment_init hdecrypt
    · intro _
      rw [relayStage_ctx (headerStage_ctx _ _) hrelay, (setRecvBuf_keeps _ buf₃).1]
      exact decryptSegment_init hdecrypt

/-- Every callback keeps the context set up. -/
theorem step_decrypting {e : Event} (hw : s.Wired) (hs : s.Decrypting) (he : s.Watched e)
    (h : step env plugins compatible s e = some t) : t.Decrypting := by
  have hpast (hstage : s.conn.stage = .resolve ∨ s.conn.stage = .parse ∨ s.conn.stage = .stream)
      (hctx : t.conn.dCtx = s.conn.dCtx) : t.Decrypting := by
    intro _
    rw [hctx]
    apply hs
    rcases hstage with hstage | hstage | hstage <;> rw [hstage] <;> exact nofun
  cases e with
  | serverRecv seg mem taken connect reply => exact serverRecvCb_decrypting hs h
  | serverSend reply => exact hpast (.inr (.inr (hw.stream_of_sendIo he))) (serverSendCb_keeps h).2.2.2.1
  | serverResolve connect resolved =>
    obtain ⟨c, hresolve, rfl⟩ := Option.map_eq_some_iff.mp h
    exact hpast (.inl he.1) (serverResolveCb_ctx hresolve)
  | remoteRecv data reply =>
    obtain ⟨-, r, hremote, hread⟩ := he
    simp only [step, hremote] at h
    exact hpast (.inr (.inr (hw.stream_of_recvIo hremote hread))) (remoteRecvCb_ctx h)
  | remoteSend peer reply =>
    obtain ⟨r, hremote, -⟩ := he
    obtain ⟨c, hcall, rfl⟩ := Option.map_eq_some_iff.mp h
    refine hpast ?_ (remoteSendCb_relaying hcall).1
    rcases hw.waits_or_relays hremote with (hstage | hstage) | hstage
    · exact .inr (.inl hstage)
    · exact .inl hstage
    · exact .inr (.inr hstage)

end Decrypting

end LayeredConn

/-- What `recv` returned for the client. -/
def Event.fromClient : Event → Bytes
  | .serverRecv seg _ _ _ _ => seg
  | _ => []

/-- What `recv` returned for the remote. -/
def Event.fromRemote : Event → Bytes
  | .remoteRecv data _ => data
  | _ => []

/-- The state in which a context encrypts its next byte. -/
def EncCtx.start (k : StreamCipher σ) (iv : Bytes) (ctx : EncCtx σ) : σ :=
  if ctx.init then ctx.evp else k.setIv iv

/-- The ciphertext of a stream behind what a context has encrypted: the IV precedes the first byte. -/
def ciphertext (k : StreamCipher σ) (iv : Bytes) (ctx : EncCtx σ) : Bytes → Bytes
  | [] => []
  | b :: bs => (if ctx.init then [] else iv) ++ (k.encrypt (ctx.start k iv) (b :: bs)).2

/-- Behind the IV the ciphertext is that of the running cipher. -/
theorem ciphertext_running (k : StreamCipher σ) (iv : Bytes) (e : σ) (data : Bytes) :
    ciphertext k iv ⟨true, e⟩ data = (k.encrypt e data).2 := by
  cases data with
  | nil => exact (List.length_eq_zero_iff.mp (k.length_encrypt e [])).symm
  | cons b bs => rfl

/-- The ciphertext of a stream in two pieces. -/
theorem ciphertext_append (k : StreamCipher σ) (iv : Bytes) (ctx : EncCtx σ) {p : Bytes}
    (hp : p ≠ []) (q : Bytes) :
    ciphertext k iv ctx (p ++ q) = ciphertext k iv ctx p ++
      ciphertext k iv ⟨true, (k.encrypt (ctx.start k iv) p).1⟩ q := by
  cases p with
  | nil => exact absurd rfl hp
  | cons b bs =>
    rw [ciphertext_running]
    simp only [List.cons_append, ciphertext, List.append_assoc]
    rw [← List.cons_append, k.encrypt_append]

/-- `ss_encrypt` in one call. -/
theorem data_ssEncrypt (k : StreamCipher σ) (iv : Bytes) (ctx : EncCtx σ) {plain : Buffer}
    (h : plain.data ≠ []) :
    (ssEncrypt k iv ctx plain).2.data = ciphertext k iv ctx plain.data ∧
      (ssEncrypt k iv ctx plain).1 = ⟨true, (k.encrypt (ctx.start k iv) plain.data).1⟩ := by
  unfold ssEncrypt EncCtx.start
  cases hdata : plain.data with
  | nil => exact absurd hdata h
  | cons b bs =>
    simp only [ciphertext, EncCtx.start]
    cases ctx.init with
    | true => exact ⟨Buffer.data_assign _ _, rfl⟩
    | false => exact ⟨Buffer.data_assign _ _, rfl⟩

namespace LayeredConn

section Plain

variable {env : ServerEnv σ κ} {compatible : Compatible} {s t : LayeredConn σ κ ρ π}

/-- A segment of a plain listener is decrypted and forwarded. -/
theorem plain_segment {mem seg : Bytes} {taken : Nat} {connect : ConnectReply} {reply : SendReply}
    {r : Remote} (hstage : s.conn.stage = .stream) (hremote : s.conn.remote = some r)
    (hauth : s.conn.auth = false) (hctx : s.conn.dCtx.init = true)
    (h : serverRecvCb env noPlugins compatible mem taken connect reply s seg = some t) :
    forwarded env noPlugins compatible s (.serverRecv seg mem taken connect reply) =
        (env.cipher.decrypt s.conn.dCtx.evp seg).2 ∧
      t.conn.dCtx = ⟨true, (env.cipher.decrypt s.conn.dCtx.evp seg).1⟩ ∧
      t.conn.auth = s.conn.auth ∧ t.eCtx = s.eCtx ∧ t.iv = s.iv := by
  have hread : readStage env s.conn seg = .next (s.conn, r.buf.assign seg) :=
    readStage_stream hstage hremote
  have hdecode (buf : Buffer) : decodeStage noPlugins compatible s buf = some (s, buf, false) := rfl
  have hpost (buf : Buffer) : postDecryptStage noPlugins compatible s buf = .next (s, buf) := rfl
  have hwindow : window (r.buf.assign seg).array 0 (r.buf.assign seg).len = seg :=
    Buffer.data_assign r.buf seg
  obtain ⟨buf, hdecrypt, hdata⟩ : ∃ buf, decryptSegment env s.conn.dCtx (r.buf.assign seg) =
      some (⟨true, (env.cipher.decrypt s.conn.dCtx.evp seg).1⟩, buf) ∧
        buf.data = (env.cipher.decrypt s.conn.dCtx.evp seg).2 := by
    simp only [decryptSegment, ssDecrypt, hctx, Bool.not_true, Bool.false_and, Bool.false_eq_true,
      if_false, if_true, hwindow]
    exact ⟨_, rfl, Buffer.data_assign _ _⟩
  simp only [serverRecvCb, hread, hdecode, hdecrypt, hpost] at h
  obtain ⟨c, hrelay, rfl⟩ := Option.map_eq_some_iff.mp h
  rw [setRecvBuf_stream (by exact hstage) (by exact hremote), headerStage] at hrelay
  simp only [hstage] at hrelay
  obtain ⟨k, data, n, r', -, hc, -⟩ := streamStage_moves hrelay
  rw [hc]
  refine ⟨?_, rfl, rfl, rfl, rfl⟩
  simp only [forwarded, unwrapped, hread, hdecode, hdecrypt, hpost, Option.bind_some, hauth,
    Bool.false_eq_true, if_false, Option.getD_some, hdata]

/-- A layer without a hook. -/
theorem wrapLayer_none (on : Bool) (data : ρ) (buf : Buffer) :
    wrapLayer on none data buf = (false, some (data, buf)) := by
  cases on <;> rfl

/-- A response of a plain listener is encrypted. -/
theorem plain_response {reply : SendReply} {r : Remote} {data : Bytes} (hdata : data ≠ [])
    (h : (remoteRecvCb env noPlugins reply r s data).next = some t) :
    wrapped env noPlugins s data = ciphertext env.cipher s.iv s.eCtx data ∧
      t.eCtx = ⟨true, (env.cipher.encrypt (s.eCtx.start env.cipher s.iv) data).1⟩ ∧ t.iv = s.iv ∧
      t.conn.dCtx = s.conn.dCtx ∧ t.conn.auth = s.conn.auth := by
  have hassign : (s.conn.buf.assign data).data = data := Buffer.data_assign _ _
  have hencrypt := data_ssEncrypt env.cipher s.iv s.eCtx (hassign.symm ▸ hdata)
  rw [hassign] at hencrypt
  rw [← hencrypt.1, ← hencrypt.2]
  simp only [wrapped, noPlugins, Option.bind_none, wrapLayer_none, true_and]
  simp only [remoteRecvCb, noPlugins, Option.bind_none, wrapLayer_none] at h
  obtain ⟨_, _, _, _, rfl⟩ := sendResponse_eq_some h
  exact ⟨rfl, rfl, rfl, rfl⟩

/-- Sending to the remote leaves the contexts alone. -/
theorem remoteSendCb_keeps {peer : Bool} {reply : SendReply} {c c' : Conn σ κ}
    (h : remoteSendCb peer reply c = some c') : c'.auth = c.auth := by
  unfold remoteSendCb remoteSend at h
  dsimp only at h
  repeat' split at h
  all_goals cases h
  all_goals rfl

/-- Without an obfs plugin there are no answers. -/
theorem plain_alone (e : Event) : AnswersAlone env noPlugins compatible s e := by
  cases e with
  | serverRecv seg mem taken connect reply =>
    intro _
    simp only [answered, decodeStage, noPlugins, Option.bind_none]
    split <;> rfl
  | _ => trivial

/-- The last stage of a connection without one-time auth. -/
def Relaying (s : LayeredConn σ κ ρ π) : Prop :=
  s.Wired ∧ s.conn.stage = .stream ∧ s.conn.auth = false ∧ s.conn.dCtx.init = true

/-- What a callback of a plain relay does to the two contexts, with what it has for either side. -/
theorem plain_step {e : Event} (hs : s.Relaying) (he : s.Watched e)
    (h : step env noPlugins compatible s e = some t) :
    t.Relaying ∧ t.iv = s.iv ∧
      ((e.fromClient = [] ∧ forwarded env noPlugins compatible s e = [] ∧
          t.conn.dCtx = s.conn.dCtx) ∨
        forwarded env noPlugins compatible s e =
            (env.cipher.decrypt s.conn.dCtx.evp e.fromClient).2 ∧
          t.conn.dCtx = ⟨true, (env.cipher.decrypt s.conn.dCtx.evp e.fromClient).1⟩) ∧
      ((e.fromRemote = [] ∧ returned env noPlugins compatible s e = [] ∧ t.eCtx = s.eCtx) ∨
        e.fromRemote ≠ [] ∧
          returned env noPlugins compatible s e = ciphertext env.cipher s.iv s.eCtx e.fromRemote ∧
          t.eCtx = ⟨true, (env.cipher.encrypt (s.eCtx.start env.cipher s.iv) e.fromRemote).1⟩) := by
  obtain ⟨hw, hstage, hauth, hctx⟩ := hs
  have hw' := step_wired hw he h
  have hrelaying (hstage' : t.conn.stage = .stream) (hauth' : t.conn.auth = s.conn.auth)
      (hctx' : t.conn.dCtx.init = true) : t.Relaying := ⟨hw', hstage', hauth'.trans hauth, hctx'⟩
  cases e with
  | serverRecv seg mem taken connect reply =>
    obtain ⟨r, hremote, -⟩ := (wired_stream_iff hstage).mp hw
    change serverRecvCb env noPlugins compatible mem taken connect reply s seg = some t at h
    obtain ⟨hdata, hctx', hauth', hectx, hiv⟩ := plain_segment hstage hremote hauth hctx h
    obtain ⟨hstage', -⟩ := serverRecvCb_moves hstage hremote h
    refine ⟨hrelaying hstage' hauth' (by rw [hctx']), hiv, .inr ⟨hdata, hctx'⟩, .inl ⟨rfl, ?_, hectx⟩⟩
    have hread : readStage env s.conn seg = .next (s.conn, r.buf.assign seg) :=
      readStage_stream hstage hremote
    simp only [returned, answered, hread, decodeStage, noPlugins, Option.bind_none]
  | serverSend reply =>
    obtain ⟨-, hectx, hiv, hctx', hauth'⟩ := serverSendCb_keeps h
    refine ⟨hrelaying ((serverSendCb_moves h).1.trans hstage) hauth' (by rw [hctx', hctx]), hiv,
      .inl ⟨rfl, rfl, hctx'⟩, .inl ⟨rfl, rfl, hectx⟩⟩
  | serverResolve connect resolved => cases hstage.symm.trans he.1
  | remoteRecv data reply =>
    obtain ⟨hdata, r, hremote, -⟩ := he
    simp only [step, hremote] at h
    obtain ⟨hwrapped, hectx, hiv, hctx', hauth'⟩ := plain_response hdata h
    refine ⟨hrelaying ((remoteRecvCb_moves h hremote).1.trans hstage) hauth' (by rw [hctx', hctx]),
      hiv, .inl ⟨rfl, rfl, hctx'⟩, .inr ⟨hdata, hwrapped, hectx⟩⟩
  | remoteSend peer reply =>
    obtain ⟨c, hcall, rfl⟩ := Option.map_eq_some_iff.mp h
    obtain ⟨r, r', n, -, -, -, -, hmoves⟩ := remoteSendCb_moves hcall
    have hstage' : c.stage = .stream := by
      rcases hmoves with ⟨hkeep, -⟩ | ⟨hstream, -⟩
      · exact hkeep.trans hstage
      · exact hstream
    have hctx' : c.dCtx = s.conn.dCtx := (remoteSendCb_relaying hcall).1
    refine ⟨hrelaying hstage' (remoteSendCb_keeps hcall) ?_, rfl, .inl ⟨rfl, rfl, hctx'⟩,
      .inl ⟨rfl, rfl, rfl⟩⟩
    rw [show (LayeredConn.conn { s with conn := c }).dCtx = s.conn.dCtx from hctx', hctx]

/-- The segments of a plain relay bring the plaintext of what the client has sent. -/
theorem plain_forwarded {es : List Event} {p : Bytes} (hs : s.Relaying)
    (ha : Along (step env noPlugins compatible) Watched s es)
    (hrun : run (step env noPlugins compatible) s es = some t)
    (hclient : es.flatMap Event.fromClient <+: (env.cipher.encrypt s.conn.dCtx.evp p).2) :
    Base.collect (step env noPlugins compatible) (forwarded env noPlugins compatible) s es =
      p.take (es.flatMap Event.fromClient).length := by
  induction es generalizing s p with
  | nil => rw [List.flatMap_nil, List.length_nil, List.take_zero, Base.collect]
  | cons e es ih =>
    obtain ⟨u, hu, hrest⟩ := (run_cons_eq_some _).mp hrun
    obtain ⟨hu', -, hdecrypts, -⟩ := plain_step hs ha.1 hu
    rw [collect_cons hu]
    rw [List.flatMap_cons] at hclient ⊢
    rcases hdecrypts with ⟨hnone, hforwarded, hctx⟩ | ⟨hforwarded, hctx⟩
    · rw [hnone, List.nil_append] at hclient ⊢
      rw [hforwarded, List.nil_append]
      exact ih hu' (ha.2 u hu) hrest (by rwa [hctx])
    · -- the segment is the ciphertext of as many bytes of the plaintext
      have hlen : e.fromClient.length ≤ p.length := by
        have hle := hclient.length_le
        rw [List.length_append, env.cipher.length_encrypt] at hle
        omega
      have hsplit := env.cipher.encrypt_append s.conn.dCtx.evp (p.take e.fromClient.length)
        (p.drop e.fromClient.length)
      rw [List.take_append_drop] at hsplit
      rw [hsplit] at hclient
      have hfirst : e.fromClient =
          (env.cipher.encrypt s.conn.dCtx.evp (p.take e.fromClient.length)).2 := by
        apply List.IsPrefix.eq_of_length
        · exact List.prefix_of_prefix_length_le ((List.prefix_append _ _).trans hclient)
            (List.prefix_append _ _) (by
              rw [env.cipher.length_encrypt, List.length_take, Nat.min_eq_left hlen])
        · rw [env.cipher.length_encrypt, List.length_take, Nat.min_eq_left hlen]
      have hdecrypt := env.cipher.decrypt_encrypt s.conn.dCtx.evp (p.take e.fromClient.length)
      rw [← hfirst] at hdecrypt
      rw [hdecrypt] at hforwarded hctx
      have hothers : es.flatMap Event.fromClient <+:
          (env.cipher.encrypt u.conn.dCtx.evp (p.drop e.fromClient.length)).2 := by
        rw [hctx]
        rw [← hfirst] at hclient
        exact (List.prefix_append_right_inj _).mp hclient
      rw [hforwarded, ih hu' (ha.2 u hu) hrest hothers, List.length_append, List.take_add]

/-- The responses of a plain relay bring the ciphertext of what the remote has sent. -/
theorem plain_returned {es : List Event} (hs : s.Relaying)
    (ha : Along (step env noPlugins compatible) Watched s es)
    (hrun : run (step env noPlugins compatible) s es = some t) :
    Base.collect (step env noPlugins compatible) (returned env noPlugins compatible) s es =
      ciphertext env.cipher s.iv s.eCtx (es.flatMap Event.fromRemote) := by
  induction es generalizing s with
  | nil => rw [List.flatMap_nil, Base.collect, ciphertext]
  | cons e es ih =>
    obtain ⟨u, hu, hrest⟩ := (run_cons_eq_some _).mp hrun
    obtain ⟨hu', hiv, -, hencrypts⟩ := plain_step hs ha.1 hu
    rw [collect_cons hu, ih hu' (ha.2 u hu) hrest, hiv, List.flatMap_cons]
    rcases hencrypts with ⟨hnone, hreturned, hctx⟩ | ⟨hsome, hreturned, hctx⟩
    · rw [hnone, hreturned, hctx, List.nil_append, List.nil_append]
    · rw [hreturned, hctx, ciphertext_append _ _ _ hsome]

end Plain

end LayeredConn

end OpenWrtCompile.Server
