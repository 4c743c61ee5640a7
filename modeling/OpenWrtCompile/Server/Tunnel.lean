import OpenWrtCompile.Base.Decoder
import OpenWrtCompile.Server.RelayRuns

/-!
# The tunnel

The layers of a connection one behind the other: `server_decode`, `ss_decrypt` and
`server_post_decrypt` on the stream from the client (`shadowsocksr-libev/src/server/server.c:677–772`),
`server_pre_encrypt`, `ss_encrypt` and `server_encode` on the stream to it (1283–1307). Each layer is a
decoder of what the same layer of the client has encoded.
-/

namespace OpenWrtCompile.Server
open OpenWrtCompile.Base OpenWrtCompile.Base.Framing

variable {σ κ ρ π : Type}

/-! ## Hooks as decoders -/

/-- The hooks of a layer: the one that decodes does what the decoder does on the data of a block, and
the one that encodes leaves alone what the layer holds back. -/
structure HookDecodes (decode encode : Option (Hook ρ)) (holds : ρ → Bytes → Prop)
    (d : Decoder Bytes UInt8 UInt8) : Prop where
  absent : decode = none → ∀ x l, d x l = some (x, l)
  follows : ∀ f, decode = some f → ∀ s x block n x' out, holds s x →
    d x (block.take n) = some (x', out) → ∃ h, f s block n = some h ∧ h.ret = out.length ∧
      h.needsendback = false ∧ h.block.take out.length = out ∧ holds h.data x'
  wraps : ∀ f, encode = some f → ∀ s x block n h, holds s x → f s block n = some h → holds h.data x

/-- A successful call of a hook keeps a property of the plugin's data. -/
def HookKeeps (hook : Option (Hook ρ)) (P : ρ → Prop) : Prop :=
  ∀ f, hook = some f → ∀ s block n h, P s → f s block n = some h → 0 ≤ h.ret → P h.data

/-- Every hook of a connection keeps a property of the data of its plugin. -/
structure PluginsKeep (plugins : Plugins ρ π) (P : ρ → Prop) (Q : π → Prop) : Prop where
  decode : HookKeeps (plugins.obfs.bind (·.serverDecode)) P
  encode : HookKeeps (plugins.obfs.bind (·.serverEncode)) P
  head : ∀ c, plugins.obfs = some c → ∀ s n, P s → P (c.setHeadLen s n)
  postDecrypt : HookKeeps (plugins.protocol.bind (·.serverPostDecrypt)) Q
  preEncrypt : HookKeeps (plugins.protocol.bind (·.serverPreEncrypt)) Q

/-- The state of `ss_decrypt` as a decoder. -/
def cipherDecoder (k : StreamCipher σ) : Decoder σ UInt8 UInt8 := fun s l ↦ some (k.decrypt s l)

/-- A ciphertext of any length is decrypted in pieces. -/
theorem decodes_cipherDecoder (k : StreamCipher σ) (n : Nat) :
    (cipherDecoder k).Decodes (fun s code data ↦ code = (k.encrypt s data).2) n n where
  piece s l rest data h hl := by
    have hlen : l.length ≤ data.length := by
      have hle := congrArg List.length h
      rw [List.length_append, k.length_encrypt] at hle
      omega
    have hsplit := congrArg Prod.snd (k.encrypt_append s (data.take l.length) (data.drop l.length))
    rw [List.take_append_drop, ← h] at hsplit
    have hfirst : (k.encrypt s (data.take l.length)).2.length = l.length := by
      rw [k.length_encrypt, List.length_take, Nat.min_eq_left hlen]
    obtain ⟨hpiece, hrest⟩ := List.append_inj hsplit hfirst.symm
    refine ⟨_, data.take l.length, data.drop l.length, ?_, (List.take_append_drop _ _).symm, ?_, hrest⟩
    · rw [cipherDecoder]
      conv_lhs => rw [hpiece, k.decrypt_encrypt]
    · rw [List.length_take, Nat.min_eq_left hlen]
      exact hl
  empty s data h := by
    have hlen := congrArg List.length h
    rw [k.length_encrypt] at hlen
    exact List.length_eq_zero_iff.mp hlen.symm

namespace LayeredConn

/-- A running context decrypts the data of a buffer. -/
theorem decryptSegment_running (env : ServerEnv σ κ) {ctx : EncCtx σ} (hctx : ctx.init = true)
    (buf : Buffer) : ∃ buf', decryptSegment env ctx buf =
      some (⟨true, (env.cipher.decrypt ctx.evp buf.data).1⟩, buf') ∧
        buf'.data = (env.cipher.decrypt ctx.evp buf.data).2 := by
  have hdata : window buf.array 0 buf.len = buf.data := rfl
  simp only [decryptSegment, ssDecrypt, hctx, Bool.not_true, Bool.false_and, Bool.false_eq_true,
    if_false, if_true, hdata]
  exact ⟨_, rfl, Buffer.data_assign _ _⟩

/-- The buffer with what a hook returned. -/
theorem data_result {h : Hooked ρ} {out : Bytes} (hret : h.ret = out.length)
    (hblock : h.block.take out.length = out) (buf : Buffer) : (h.result buf).data = out := by
  rw [Buffer.data, Hooked.result, hret]
  exact hblock

section Layers

variable {env : ServerEnv σ κ} {plugins : Plugins ρ π} {compatible : Compatible}
  {s t : LayeredConn σ κ ρ π} {encode : Option (Hook ρ)} {wrap : Option (Hook π)}
  {holds : ρ → Bytes → Prop} {keeps : π → Bytes → Prop} {d e : Decoder Bytes UInt8 UInt8}

/-- The obfs layer on a segment. -/
theorem decodeStage_decodes (h : HookDecodes (plugins.obfs.bind (·.serverDecode)) encode holds d)
    (compatible : Compatible) (buf : Buffer) {x x' out : Bytes} (hs : holds s.obfs x)
    (hd : d x buf.data = some (x', out)) :
    ∃ obfs buf', decodeStage plugins compatible s buf = some ({ s with obfs }, buf', false) ∧
      buf'.data = out ∧ holds obfs x' := by
  unfold decodeStage
  cases hhook : plugins.obfs.bind (·.serverDecode) with
  | none =>
    rw [h.absent hhook] at hd
    cases hd
    exact ⟨s.obfs, buf, rfl, rfl, hs⟩
  | some f =>
    obtain ⟨r, hcall, hret, hno, hblock, hholds⟩ := h.follows f hhook _ _ _ _ _ _ hs hd
    refine ⟨r.data, r.result buf, ?_, data_result hret hblock buf, hholds⟩
    simp only [hcall, hret, Int.natCast_nonneg, if_true, hno]

/-- The protocol layer on a segment. Without a whole frame it waits. -/
theorem postDecryptStage_decodes
    (h : HookDecodes (plugins.protocol.bind (·.serverPostDecrypt)) wrap keeps e)
    (hstrict : compatible.protocol = false) (buf : Buffer) {y y' out : Bytes} (hs : keeps s.protocol y)
    (he : e y buf.data = some (y', out)) :
    ∃ protocol buf', buf'.data = out ∧ keeps protocol y' ∧
      (postDecryptStage plugins compatible s buf = .next ({ s with protocol }, buf') ∨
        out = [] ∧ postDecryptStage plugins compatible s buf = .waiting ({ s with protocol }, buf')) := by
  unfold postDecryptStage
  cases hhook : plugins.protocol.bind (·.serverPostDecrypt) with
  | none =>
    rw [h.absent hhook] at he
    cases he
    exact ⟨s.protocol, buf, rfl, hs, .inl rfl⟩
  | some f =>
    obtain ⟨r, hcall, hret, -, hblock, hkeeps⟩ := h.follows f hhook _ _ _ _ _ _ hs he
    refine ⟨r.data, r.result buf, data_result hret hblock buf, hkeeps, ?_⟩
    simp only [hcall, hstrict, Bool.false_eq_true, if_false]
    cases out with
    | nil =>
      right
      rw [List.length_nil] at hret
      simp only [hret, Int.natCast_zero, Int.lt_irrefl, if_false, and_self]
    | cons b bs =>
      left
      rw [if_pos (by rw [hret]; exact Int.natCast_pos.mpr (Nat.succ_pos _))]

/-- The layers of a segment, one behind the other. -/
def layers {χ ψ : Type} (k : StreamCipher σ) (d : Decoder χ UInt8 UInt8) (e : Decoder ψ UInt8 UInt8) :
    Decoder ((χ × σ) × ψ) UInt8 UInt8 := (d.andThen (cipherDecoder k)).andThen e

/-- The last stage of a connection without one-time auth, with what its layers hold back. -/
structure Holds (holds : ρ → Bytes → Prop) (keeps : π → Bytes → Prop) (s : LayeredConn σ κ ρ π)
    (x : (Bytes × σ) × Bytes) : Prop where
  stage : s.conn.stage = .stream
  auth : s.conn.auth = false
  dCtx : s.conn.dCtx = ⟨true, x.1.2⟩
  obfs : holds s.obfs x.1.1
  protocol : keeps s.protocol x.2

/-- What the parts of the pipeline give. -/
theorem layers_eq_some {k : StreamCipher σ} {x x' : (Bytes × σ) × Bytes} {l out : Bytes}
    (h : layers k d e x l = some (x', out)) :
    ∃ code, d x.1.1 l = some (x'.1.1, code) ∧ x'.1.2 = (k.decrypt x.1.2 code).1 ∧
      e x.2 (k.decrypt x.1.2 code).2 = some (x'.2, out) := by
  obtain ⟨⟨y, mid⟩, hinner, houter⟩ := Option.bind_eq_some_iff.mp h
  obtain ⟨⟨z, code⟩, hfirst, hcipher⟩ := Option.bind_eq_some_iff.mp hinner
  obtain ⟨q, hq, hx⟩ := Option.map_eq_some_iff.mp houter
  simp only [cipherDecoder, Option.map_some, Option.some.injEq, Prod.mk.injEq] at hcipher
  obtain ⟨rfl, rfl⟩ := hcipher
  cases hx
  exact ⟨code, hfirst, rfl, hq⟩

/-- The stages of a segment behind the obfs layer. -/
theorem serverRecvCb_stages (mem : Bytes) {seg : Bytes} (taken : Nat) (connect : ConnectReply)
    (reply : SendReply) {r : Remote} {obfs : ρ} {protocol : π} {dCtx : EncCtx σ}
    {buf₁ buf₂ buf₃ : Buffer} (hstage : s.conn.stage = .stream) (hremote : s.conn.remote = some r)
    (hdecode : decodeStage plugins compatible s (r.buf.assign seg) =
      some ({ s with obfs }, buf₁, false))
    (hdecrypt : decryptSegment env s.conn.dCtx buf₁ = some (dCtx, buf₂))
    (hpost : postDecryptStage plugins compatible { s with obfs } buf₂ =
      .next ({ s with obfs, protocol }, buf₃)) :
    serverRecvCb env plugins compatible mem taken connect reply s seg =
      (streamStage env reply { s.conn with dCtx, remote := some { r with buf := buf₃ } }
        { r with buf := buf₃ }).map fun conn ↦
          { s with obfs, protocol, conn, handed := s.handed ++ [buf₃.data] } := by
  have hread : readStage env s.conn seg = .next (s.conn, r.buf.assign seg) :=
    readStage_stream hstage hremote
  simp only [serverRecvCb, hread, hdecode, hdecrypt, hpost]
  rw [setRecvBuf_stream (c := { s.conn with dCtx }) hstage hremote]
  simp only [headerStage, hstage, relayStage]

/-- A segment goes through the layers. What they give is forwarded, and the connection is closed for
nothing but the error of a `send`. -/
theorem segment_decodes
    (ho : HookDecodes (plugins.obfs.bind (·.serverDecode)) encode holds d)
    (hp : HookDecodes (plugins.protocol.bind (·.serverPostDecrypt)) wrap keeps e)
    (hstrict : compatible.protocol = false) {x x' : (Bytes × σ) × Bytes} (mem : Bytes) {seg out : Bytes}
    (taken : Nat) (connect : ConnectReply) (reply : SendReply) {r : Remote}
    (hs : s.Holds holds keeps x) (hremote : s.conn.remote = some r)
    (hlayers : layers env.cipher d e x seg = some (x', out)) :
    forwarded env plugins compatible s (.serverRecv seg mem taken connect reply) = out ∧
      answered env plugins compatible s seg mem taken = [] ∧
      (∀ t, serverRecvCb env plugins compatible mem taken connect reply s seg = some t →
        t.Holds holds keeps x' ∧ t.eCtx = s.eCtx ∧ t.iv = s.iv ∧
          t.obfsCompatibleState = s.obfsCompatibleState) ∧
      ∀ n, reply = .sent n →
        ∃ t, serverRecvCb env plugins compatible mem taken connect reply s seg = some t := by
  obtain ⟨hstage, hauth, hctx, hobfs, hprotocol⟩ := hs
  obtain ⟨code, hfirst, hevp, hlast⟩ := layers_eq_some hlayers
  have hread : readStage env s.conn seg = .next (s.conn, r.buf.assign seg) :=
    readStage_stream hstage hremote
  obtain ⟨obfs, buf₁, hdecode, hbuf₁, hobfs'⟩ := decodeStage_decodes ho compatible
    (r.buf.assign seg) hobfs (by rw [Buffer.data_assign]; exact hfirst)
  obtain ⟨buf₂, hdecrypt, hbuf₂⟩ := decryptSegment_running env
    (show s.conn.dCtx.init = true by rw [hctx]) buf₁
  rw [hctx, hbuf₁, ← hevp] at hdecrypt
  rw [hctx, hbuf₁] at hbuf₂
  obtain ⟨protocol, buf₃, hbuf₃, hprotocol', hpost⟩ := postDecryptStage_decodes
    (s := { s with obfs }) hp hstrict buf₂ hprotocol (by rw [hbuf₂]; exact hlast)
  rw [← hctx] at hdecrypt
  have hanswered : answered env plugins compatible s seg mem taken = [] := by
    simp only [answered, hread, hdecode]
  rcases hpost with hpost | ⟨rfl, hpost⟩
  · have hcall := fun reply ↦
      serverRecvCb_stages mem taken connect reply hstage hremote hdecode hdecrypt hpost
    refine ⟨?_, hanswered, fun t h ↦ ?_, ?_⟩
    · simp only [forwarded, unwrapped, hread, hdecode, hdecrypt, hpost, Option.bind_some, hauth,
        Bool.false_eq_true, if_false, Option.getD_some]
      exact hbuf₃
    · rw [hcall] at h
      obtain ⟨c, hstream, rfl⟩ := Option.map_eq_some_iff.mp h
      obtain ⟨k, data, n, r', -, hc, -⟩ := streamStage_moves hstream
      rw [hc]
      exact ⟨⟨hstage, hauth, rfl, hobfs', hprotocol'⟩, rfl, rfl, rfl⟩
    · rintro n rfl
      rw [hcall, streamStage]
      simp only [hauth, Bool.false_eq_true, if_false]
      split <;> exact ⟨_, rfl⟩
  · have hcall : serverRecvCb env plugins compatible mem taken connect reply s seg =
        some { s with
          obfs, protocol
          conn := { s.conn with dCtx := ⟨true, x'.1.2⟩, remote := some { r with buf := buf₃ } } } := by
      simp only [serverRecvCb, hread, hdecode, hdecrypt, hpost]
      rw [setRecvBuf_stream (c := { s.conn with dCtx := ⟨true, x'.1.2⟩ }) hstage hremote]
    refine ⟨?_, hanswered, fun t h ↦ ?_, fun _ _ ↦ ⟨_, hcall⟩⟩
    · simp only [forwarded, unwrapped, hread, hdecode, hdecrypt, hpost, Option.bind_none,
        Option.getD_none]
    · cases hcall.symm.trans h
      exact ⟨⟨hstage, hauth, rfl, hobfs', hprotocol'⟩, rfl, rfl, rfl⟩

/-! ## What holds of the data of the plugins -/

variable {P : ρ → Prop} {Q : π → Prop}

/-- A segment keeps what holds of the data of the plugins, without the compatible modes. -/
theorem serverRecvCb_plugins (h : PluginsKeep plugins P Q) {mem seg : Bytes} {taken : Nat}
    {connect : ConnectReply} {reply : SendReply} (hs : P s.obfs ∧ Q s.protocol)
    (hrecv : serverRecvCb env plugins strict mem taken connect reply s seg = some t) :
    P t.obfs ∧ Q t.protocol := by
  rcases serverRecvCb_ways hrecv with ⟨conn, -, rfl⟩ |
    ⟨conn, buf, s₁, buf₁, answer, -, hdecode, hways⟩
  · exact hs
  · have hs₁ : P s₁.obfs ∧ Q s₁.protocol := by
      rcases decodeStage_cases hdecode with ⟨-, hr⟩ | ⟨f, d, hhook, hcall, ⟨hret, hr⟩ | ⟨-, hon, -⟩⟩
      · cases hr
        exact hs
      · cases hr
        exact ⟨h.decode f hhook _ _ _ d hs.1 hcall hret, hs.2⟩
      · cases hon
    rcases hways with ⟨-, hback⟩ | ⟨-, dCtx, buf₂, s₂, buf₃, -, hpost⟩
    · unfold sendback at hback
      split at hback
      · cases hback
        exact hs₁
      · next f hhook =>
        split at hback
        · cases hback
        · next d hcall =>
          split at hback
          · cases hback
          · next hret =>
            cases hback
            exact ⟨h.encode f hhook _ _ _ d hs₁.1 hcall (Int.not_lt.mp hret), hs₁.2⟩
    · have hs₂ (hpost : postDecryptStage plugins strict s₁ buf₂ = .waiting (s₂, buf₃) ∨
          postDecryptStage plugins strict s₁ buf₂ = .next (s₂, buf₃)) : P s₂.obfs ∧ Q s₂.protocol := by
        rcases postDecryptStage_cases plugins strict s₁ buf₂ with ⟨-, hr⟩ | hr |
          ⟨f, d, hhook, hcall, ⟨hret, hr⟩ | ⟨-, hon, -⟩ | ⟨hret, -, hr⟩⟩
        · rw [hr] at hpost
          rcases hpost with hpost | hpost <;> cases hpost
          exact hs₁
        · rw [hr] at hpost
          rcases hpost with hpost | hpost <;> cases hpost
        · rw [hr] at hpost
          rcases hpost with hpost | hpost <;> cases hpost
          exact ⟨hs₁.1, h.postDecrypt f hhook _ _ _ d hs₁.2 hcall (Int.le_of_lt hret)⟩
        · cases hon
        · rw [hr] at hpost
          rcases hpost with hpost | hpost <;> cases hpost
          exact ⟨hs₁.1, h.postDecrypt f hhook _ _ _ d hs₁.2 hcall (Int.le_of_eq hret.symm)⟩
      rcases hpost with ⟨hpost, rfl⟩ | ⟨hpost, c, -, rfl⟩
      · exact hs₂ (.inl hpost)
      · exact hs₂ (.inr hpost)

/-- So does a layer of a response. -/
theorem wrapLayer_keeps {hook : Option (Hook ρ)} (h : HookKeeps hook P) {on : Bool} {data data' : ρ}
    {buf buf' : Buffer} (hs : P data) (hwrap : (wrapLayer on hook data buf).2 = some (data', buf')) :
    P data' :=
  wrapLayer_data (fun f hf block n d hd hret ↦ h f hf data block n d hs hd hret) hs hwrap

/-- Every callback keeps what holds of the data of the plugins. -/
theorem step_plugins (h : PluginsKeep plugins P Q) {ev : Event} (hs : P s.obfs ∧ Q s.protocol)
    (hstep : step env plugins strict s ev = some t) : P t.obfs ∧ Q t.protocol := by
  cases ev with
  | serverRecv seg mem taken connect reply => exact serverRecvCb_plugins h hs hstep
  | serverSend reply =>
    unfold step serverSendCb at hstep
    dsimp only at hstep
    repeat' split at hstep
    all_goals cases hstep
    all_goals exact hs
  | serverResolve connect resolved =>
    obtain ⟨c, -, rfl⟩ := Option.map_eq_some_iff.mp hstep
    exact hs
  | remoteRecv data reply =>
    unfold step at hstep
    dsimp only at hstep
    split at hstep
    · cases hstep
    · next r hremote =>
      obtain ⟨protocol, buf, obfs, out, hinner, houter, -, hsent⟩ := remoteRecvCb_eq_some hstep
      obtain ⟨_, _, _, _, rfl⟩ := sendResponse_eq_some hsent
      exact ⟨wrapLayer_keeps h.encode (setHeadLen_keeps h.head hs.1 _) houter,
        wrapLayer_keeps h.preEncrypt hs.2 hinner⟩
  | remoteSend peer reply =>
    obtain ⟨c, -, rfl⟩ := Option.map_eq_some_iff.mp hstep
    exact hs

/-! ## Runs through the layers -/

/-- The layers of a connection as decoders. -/
structure Tunnels (plugins : Plugins ρ π) (holds : ρ → Bytes → Prop) (keeps : π → Bytes → Prop)
    (d e : Decoder Bytes UInt8 UInt8) : Prop where
  obfs : HookDecodes (plugins.obfs.bind (·.serverDecode)) (plugins.obfs.bind (·.serverEncode)) holds d
  protocol : HookDecodes (plugins.protocol.bind (·.serverPostDecrypt))
    (plugins.protocol.bind (·.serverPreEncrypt)) keeps e
  head : ∀ c, plugins.obfs = some c → ∀ s x n, holds s x → holds (c.setHeadLen s n) x

/-- A layer of a response leaves alone what it holds back. -/
theorem wrapLayer_holds {decode : Option (Hook ρ)} (h : HookDecodes decode encode holds d) {on : Bool}
    {data data' : ρ} {buf buf' : Buffer} {x : Bytes} (hs : holds data x)
    (hwrap : (wrapLayer on encode data buf).2 = some (data', buf')) : holds data' x :=
  wrapLayer_data (P := (holds · x)) (fun f hf block n d hd _ ↦ h.wraps f hf data x block n d hs hd) hs
    hwrap

/-- A response leaves the layers of the client's stream alone. -/
theorem remoteRecvCb_holds (h : Tunnels plugins holds keeps d e) {x : (Bytes × σ) × Bytes}
    {reply : SendReply} {r : Remote} {data : Bytes} (hs : s.Holds holds keeps x)
    (hnext : (remoteRecvCb env plugins reply r s data).next = some t) : t.Holds holds keeps x := by
  obtain ⟨hstage, hauth, hctx, hobfs, hprotocol⟩ := hs
  obtain ⟨protocol, buf, obfs, out, hinner, houter, -, hsent⟩ := remoteRecvCb_eq_some hnext
  obtain ⟨_, _, _, _, rfl⟩ := sendResponse_eq_some hsent
  have hhead := setHeadLen_keeps (P := (holds · x.1.1)) (fun c hc s n ↦ h.head c hc s x.1.1 n) hobfs
    (getHeadSize data 30)
  exact ⟨hstage, hauth, hctx, wrapLayer_holds h.obfs hhead houter,
    wrapLayer_holds h.protocol hprotocol hinner⟩

/-- Sending to the client leaves the layers alone. -/
theorem serverSendCb_holds {x : (Bytes × σ) × Bytes} {reply : SendReply} (hs : s.Holds holds keeps x)
    (h : serverSendCb reply s = some t) : t.Holds holds keeps x := by
  obtain ⟨hstage, hauth, hctx, hobfs, hprotocol⟩ := hs
  unfold serverSendCb at h
  split at h
  · cases h
  · dsimp only at h
    repeat' split at h
    all_goals cases h
    all_goals exact ⟨hstage, hauth, hctx, hobfs, hprotocol⟩

/-- What a callback does to the layers of the client's stream: a segment goes through them, and what
comes out is forwarded. -/
theorem step_decodes (h : Tunnels plugins holds keeps d e) (hstrict : compatible.protocol = false)
    {reads : (Bytes × σ) × Bytes → Bytes → Bytes → Prop} {n m : Nat}
    (hreads : (layers env.cipher d e).Decodes reads n m) {x : (Bytes × σ) × Bytes} {ev : Event}
    {rest data : Bytes} (hw : s.Wired) (hs : s.Holds holds keeps x) (hev : s.Watched ev)
    (hn : ev.fromClient.length ≤ n) (hx : reads x (ev.fromClient ++ rest) data)
    (hstep : step env plugins compatible s ev = some t) :
    ∃ x' more, data = forwarded env plugins compatible s ev ++ more ∧ reads x' rest more ∧
      t.Holds holds keeps x' := by
  cases ev with
  | serverRecv seg mem taken connect reply =>
    obtain ⟨r, hremote, -⟩ := (wired_stream_iff hs.stage).mp hw
    obtain ⟨x', out, more, hlayers, rfl, -, hrest⟩ := hreads.piece x seg rest data hx hn
    obtain ⟨hforwarded, -, hnext, -⟩ :=
      segment_decodes h.obfs h.protocol hstrict mem taken connect reply hs hremote hlayers
    exact ⟨x', more, by rw [hforwarded], hrest, (hnext t hstep).1⟩
  | serverSend reply => exact ⟨x, data, rfl, hx, serverSendCb_holds hs hstep⟩
  | serverResolve connect resolved => cases hs.stage.symm.trans hev.1
  | remoteRecv chunk reply =>
    obtain ⟨-, r, hremote, -⟩ := hev
    simp only [step, hremote] at hstep
    exact ⟨x, data, rfl, hx, remoteRecvCb_holds h hs hstep⟩
  | remoteSend peer reply =>
    obtain ⟨c, hcall, rfl⟩ := Option.map_eq_some_iff.mp hstep
    obtain ⟨r, r', k, -, -, -, -, hmoves⟩ := remoteSendCb_moves hcall
    have hstage' : c.stage = .stream := by
      rcases hmoves with ⟨hkeep, -⟩ | ⟨hstream, -⟩
      · exact hkeep.trans hs.stage
      · exact hstream
    exact ⟨x, data, rfl, hx, hstage', (remoteSendCb_keeps hcall).trans hs.auth,
      (remoteSendCb_relaying hcall).1.trans hs.dCtx, hs.obfs, hs.protocol⟩

/-- Over a run the segments give the data of the client's stream in order. -/
theorem run_decodes (h : Tunnels plugins holds keeps d e) (hstrict : compatible.protocol = false)
    {reads : (Bytes × σ) × Bytes → Bytes → Bytes → Prop} {n m : Nat}
    (hreads : (layers env.cipher d e).Decodes reads n m) {x : (Bytes × σ) × Bytes} {es : List Event}
    {rest data : Bytes} (hw : s.Wired) (hs : s.Holds holds keeps x)
    (hes : Along (step env plugins compatible) Watched s es)
    (hn : ∀ ev ∈ es, ev.fromClient.length ≤ n)
    (hx : reads x (es.flatMap Event.fromClient ++ rest) data)
    (hrun : run (step env plugins compatible) s es = some t) :
    ∃ x' more, data =
        Base.collect (step env plugins compatible) (forwarded env plugins compatible) s es ++ more ∧
      reads x' rest more ∧ t.Holds holds keeps x' := by
  induction es generalizing s x data with
  | nil =>
    cases Option.some.inj hrun
    exact ⟨x, data, rfl, hx, hs⟩
  | cons ev es ih =>
    obtain ⟨u, hu, hrest⟩ := (run_cons_eq_some _).mp hrun
    obtain ⟨hlen, hn⟩ := List.forall_mem_cons.mp hn
    rw [List.flatMap_cons, List.append_assoc] at hx
    obtain ⟨x₁, more, rfl, hx₁, hu₁⟩ := step_decodes h hstrict hreads hw hs hes.1 hlen hx hu
    obtain ⟨x', more', rfl, hx', ht⟩ := ih (step_wired hw hes.1 hu) hu₁ (hes.2 u hu) hn hx₁ hrest
    exact ⟨x', more', by rw [collect_cons hu, List.append_assoc], hx', ht⟩

end Layers

end LayeredConn

end OpenWrtCompile.Server
