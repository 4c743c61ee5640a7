import OpenWrtCompile.Server.Tunnel

/-!
# The plugins in the tunnel

`shadowsocksr-libev/src/server/obfs.c:43–113` (`new_obfs_class`): each obfs plugin whose header or
handshake is over, and each protocol plugin of the server, as a decoder. `http_simple` and `http_post`
hand the data on, `tls1.2_ticket_auth` takes it out of records, `verify_simple` out of its frames.
-/

namespace OpenWrtCompile.Server
open OpenWrtCompile.Base OpenWrtCompile.Base.Framing

variable {σ κ : Type}

/-! ## Protocol plugins -/

/-- The names of `new_obfs_class` that a protocol layer may have, if the server has hooks for them;
`origin` stands for none. -/
inductive ProtocolPlugin where
  | origin
  | verifySimple
  deriving DecidableEq, Repr

/-- What the calls of a protocol plugin find outside its connection: the draws of each call, and what
its new block holds. -/
abbrev ProtocolPlugin.Outside : ProtocolPlugin → Type
  | .origin => Unit
  | .verifySimple => Nat → (Nat → UInt64) × (Nat → UInt8)

/-- The data of a protocol plugin. -/
abbrev ProtocolPlugin.Data : ProtocolPlugin → Type
  | .origin => Unit
  | .verifySimple => (Nat → (Nat → UInt64) × (Nat → UInt8)) × Bytes

/-- `verify_simple` on a server. -/
def verifyServer : ObfsClass ((Nat → (Nat → UInt64) × (Nat → UInt8)) × Bytes) where
  serverPreEncrypt := some (percall fun w ↦ (verifySimple w.1 w.2).serverPreEncrypt)
  serverEncode := none
  serverDecode := none
  serverPostDecrypt := some (percall fun w ↦ (verifySimple w.1 w.2).serverPostDecrypt)
  setHeadLen s _ := s

/-- `new_obfs_class` for a protocol layer. -/
def newProtocolClass : (q : ProtocolPlugin) → Option (ObfsClass q.Data)
  | .origin => none
  | .verifySimple => some verifyServer

/-- `new_obfs` of a protocol plugin. -/
def newProtocol : (q : ProtocolPlugin) → q.Outside → q.Data
  | .origin, _ => ()
  | .verifySimple, outside => (outside, [])

/-! ## Decoders -/

/-- The header or the handshake of an obfs plugin is over. -/
def ObfsPlugin.Open : (p : ObfsPlugin) → p.Data → Prop
  | .plain, _ => True
  | .httpSimple, s | .httpPost, s => s.2.localData.hasRecvHeader = true
  | .tls12TicketAuth, s => s.2.handshakeStatus = .done

/-- What an obfs plugin has received and not yet put out. -/
def ObfsPlugin.pending : (p : ObfsPlugin) → p.Data → Bytes
  | .tls12TicketAuth, s => s.2.recvBuffer
  | _, _ => []

/-- What a protocol plugin has received and not yet put out. -/
def ProtocolPlugin.pending : (q : ProtocolPlugin) → q.Data → Bytes
  | .origin, _ => []
  | .verifySimple, s => s.2

/-- An obfs plugin behind its header or handshake. -/
def ObfsPlugin.decoder : ObfsPlugin → Decoder Bytes UInt8 UInt8
  | .tls12TicketAuth => feed (Obfs.parseRecord Obfs.serverHeader)
  | _ => Decoder.pass Bytes UInt8

/-- A protocol plugin; the `recv_buffer` of `verify_simple` has 16384 bytes. -/
def ProtocolPlugin.decoder : ProtocolPlugin → Decoder Bytes UInt8 UInt8
  | .origin => Decoder.pass Bytes UInt8
  | .verifySimple => fun p l ↦ Framing.accept (Framing.receive 16384 Protocol.VerifySimple.parse p l)

/-- A response does not change what was received. -/
theorem serverEncode_recvHeader (now : Http.Tm) (o : Http.HttpObfs) (data : Bytes) :
    (Http.httpSimpleServerEncode now o data).1.localData.hasRecvHeader = o.localData.hasRecvHeader := by
  unfold Http.httpSimpleServerEncode
  split <;> rfl

/-- `http_simple` and `http_post` hand the data behind the header on. -/
theorem httpServer_decodes :
    HookDecodes httpServer.serverDecode httpServer.serverEncode
      (fun s x ↦ s.2.localData.hasRecvHeader = true ∧ [] = x) (Decoder.pass Bytes UInt8) where
  absent := nofun
  follows f hf s x block n x' out hs hd := by
    cases hf
    cases hd
    obtain ⟨hs, hx⟩ := hs
    have hhook : (httpSimple (s.1 0).1 (s.1 0).2).serverDecode = some _ := rfl
    rw [percall_eq hhook]
    simp only [Http.httpSimpleServerDecode, hs, Bool.true_or, if_true, Option.map_some]
    exact ⟨_, rfl, rfl, rfl, take_store_zero _ _, hs, hx⟩
  wraps f hf s x block n h hs hcall := by
    cases hf
    have hhook : (httpSimple (s.1 0).1 (s.1 0).2).serverEncode = some _ := rfl
    rw [percall_eq hhook] at hcall
    obtain ⟨r, hr, rfl⟩ := Option.map_eq_some_iff.mp hcall
    cases hr
    exact ⟨(serverEncode_recvHeader _ _ _).trans hs.1, hs.2⟩

/-- `tls1.2_ticket_auth` takes the data out of its records. -/
theorem tlsServer_decodes (config : ObfsConfig) :
    HookDecodes (tlsServer config).serverDecode (tlsServer config).serverEncode
      (fun s x ↦ s.2.handshakeStatus = .done ∧ s.2.recvBuffer = x)
      (feed (Obfs.parseRecord Obfs.serverHeader)) where
  absent := nofun
  follows f hf s x block n x' out hs hd := by
    cases hf
    obtain ⟨hdone, rfl⟩ := hs
    obtain ⟨hook, hhook, hcall⟩ := tlsHook config.hmac config.tls (s.1 0) s.2 block n
    rw [percall_eq hhook, hcall, Option.map_map]
    have hstate : s.2 = ⟨.done, s.2.sendBuffer, s.2.recvBuffer⟩ := by rw [← hdone]
    have hreceive : Obfs.serverReceive config.hmac config.tls (s.1 0).now (s.1 0).global
        ⟨.done, s.2.sendBuffer, s.2.recvBuffer⟩ ⟨block, n⟩ = some (⟨.done, s.2.sendBuffer, x'⟩, out) :=
      Obfs.serverReceive_done s.2.sendBuffer ⟨block, n⟩ hd
    rw [← hstate] at hreceive
    obtain ⟨d, hdecode, hd'⟩ := Option.bind_eq_some_iff.mp hreceive
    obtain ⟨out', hout, heq⟩ := Option.map_eq_some_iff.mp hd'
    simp only [Prod.mk.injEq] at heq
    obtain ⟨hlocal, rfl⟩ := heq
    have hno : d.needsendback = false := by
      rw [Obfs.serverDecode, hdone] at hdecode
      cases hdecode
      rfl
    dsimp only at hdecode
    rw [hdecode]
    refine ⟨_, rfl, ?_, hno, ?_, ?_⟩
    · simp only [Function.comp_apply, hout, Option.map_some, Option.getD_some]
    · simp only [Function.comp_apply, decodedPut, hout]
      exact take_store_zero _ _
    · simp only [Function.comp_apply, hlocal, and_self]
  wraps f hf s x block n h hs hcall := by
    cases hf
    obtain ⟨hdone, hx⟩ := hs
    have hhook : (tls12TicketAuth config.hmac config.tls (s.1 0)).serverEncode = some _ := rfl
    rw [percall_eq hhook] at hcall
    obtain ⟨r, hr, rfl⟩ := Option.map_eq_some_iff.mp hcall
    obtain ⟨⟨l, out⟩, hencode, hr⟩ := Option.bind_eq_some_iff.mp hr
    rw [Obfs.serverEncode, if_pos hdone] at hencode
    obtain ⟨records, -, hl⟩ := Option.map_eq_some_iff.mp hencode
    cases hl
    dsimp only at hr
    split at hr
    · cases hr
    · cases hr
      exact ⟨hdone, hx⟩

/-- `verify_simple` takes the data out of its frames. -/
theorem verifyServer_decodes :
    HookDecodes verifyServer.serverPostDecrypt verifyServer.serverPreEncrypt
      (fun s x ↦ s.2 = x)
      (fun p l ↦ Framing.accept (Framing.receive 16384 Protocol.VerifySimple.parse p l)) where
  absent := nofun
  follows f hf s x block n x' out hs hd := by
    cases hf
    cases hs
    have hhook : (verifySimple (s.1 0).1 (s.1 0).2).serverPostDecrypt = some _ := rfl
    rw [percall_eq hhook]
    obtain ⟨⟨p, r⟩, hreceive, hr⟩ := Option.bind_eq_some_iff.mp hd
    obtain ⟨out', hout, heq⟩ := Option.map_eq_some_iff.mp hr
    cases heq
    dsimp only at hout
    have hpost : Protocol.VerifySimple.serverPostDecrypt s.2 (block.take n) = some (p, r) := hreceive
    simp only [hpost, hout, Option.map_some]
    exact ⟨_, rfl, rfl, rfl, take_store_zero _ _, rfl⟩
  wraps f hf s x block n h hs hcall := by
    cases hf
    have hhook : (verifySimple (s.1 0).1 (s.1 0).2).serverPreEncrypt = some _ := rfl
    rw [percall_eq hhook] at hcall
    obtain ⟨r, hr, rfl⟩ := Option.map_eq_some_iff.mp hcall
    obtain ⟨out, -, rfl⟩ := Option.map_eq_some_iff.mp hr
    exact hs

/-! ## What the plugins hold back -/

/-- A whole record is taken out of `recv_buffer`. -/
def ObfsPlugin.Waits : (p : ObfsPlugin) → p.Data → Prop
  | .tls12TicketAuth, s => s.2.handshakeStatus = .done →
    Obfs.parseRecord Obfs.serverHeader s.2.recvBuffer = .more
  | _, _ => True

/-- A whole frame is taken out of `recv_buffer`. -/
def ProtocolPlugin.Waits : (q : ProtocolPlugin) → q.Data → Prop
  | .origin, _ => True
  | .verifySimple, s => Protocol.VerifySimple.parse s.2 = .more

/-- A record has five bytes at least. -/
theorem parseRecord_pos {good : Bytes → Bool} (b payload : Bytes) (length : Nat)
    (h : Obfs.parseRecord good b = .frame payload length) : 0 < length := by
  unfold Obfs.parseRecord at h
  repeat' split at h
  all_goals cases h
  omega

/-- A frame of `verify_simple` has seven bytes at least. -/
theorem parse_pos (b payload : Bytes) (length : Nat)
    (h : Protocol.VerifySimple.parse b = .frame payload length) : 0 < length := by
  unfold Protocol.VerifySimple.parse at h
  dsimp only at h
  split at h
  · cases h
  · split at h
    · cases h
    · next hrange =>
      simp only [Bool.or_eq_true, decide_eq_true_eq, not_or, Nat.not_lt] at hrange
      repeat' split at h
      all_goals cases h
      omega

/-- The data phase leaves less than a record. -/
theorem decodeData_waits {l : Obfs.LocalData} {g : Obfs.GlobalData} {data out : Bytes}
    {capacity : Nat} (h : (Obfs.decodeData l g data capacity).output = some out) :
    Obfs.parseRecord Obfs.serverHeader (Obfs.decodeData l g data capacity).localData.recvBuffer =
      .more := by
  unfold Obfs.decodeData at h ⊢
  simp only [Obfs.decodeRecords_eq_loop] at h ⊢
  obtain ⟨left, hdecode⟩ := Obfs.decode_of_recordsLoop h
  rw [(Obfs.recordsLoop_eq capacity hdecode).1]
  refine parse_of_decode ?_ parseRecord_pos (Nat.lt_succ_self _) hdecode
  intro payload length hframe
  cases hframe

/-- The hooks of `tls1.2_ticket_auth` take out whole records. -/
theorem tlsServer_decode_waits (config : ObfsConfig) :
    HookKeeps (tlsServer config).serverDecode (ObfsPlugin.Waits .tls12TicketAuth) := by
  intro f hf s block n h hs hcall hret
  cases hf
  obtain ⟨hook, hhook, hdef⟩ := tlsHook config.hmac config.tls (s.1 0) s.2 block n
  rw [percall_eq hhook, hdef, Option.map_map] at hcall
  obtain ⟨d, hdecode, rfl⟩ := Option.map_eq_some_iff.mp hcall
  simp only [Function.comp_apply] at hret
  obtain ⟨out, hout⟩ : ∃ out, d.output = some out := by
    cases hout : d.output with
    | some out => exact ⟨out, rfl⟩
    | none =>
      rw [hout] at hret
      exact absurd hret (Int.not_le.mpr (Int.negSucc_lt_zero 0))
  intro hdone
  simp only [Function.comp_apply] at hdone ⊢
  by_cases hs' : s.2.handshakeStatus = .done
  · rw [Obfs.serverDecode, hs'] at hdecode
    cases hdecode
    exact decodeData_waits hout
  · rcases serverDecode_open hs' hdecode with ⟨-, rfl⟩ | hhello
    · rw [decodeFinished_eq] at hout hdone ⊢
      split at hout
      · next hvalid =>
        rw [if_pos hvalid]
        exact decodeData_waits hout
      · cases hout
    · rcases Obfs.decodeHello_cases config.hmac config.tls (s.1 0).now s.2 (s.1 0).global block n
        with ⟨-, hnone⟩ | ⟨-, -, e, he, -⟩ | ⟨-, -, e, he, -, hnone, -⟩
      · rw [hnone] at hhello
        cases hhello
      · cases he.symm.trans hhello
        rw [decodeHello_status hhello] at hdone
        cases hdone
      · cases he.symm.trans hhello
        cases hnone.symm.trans hout

/-- Its encoder takes no part in that. -/
theorem tlsServer_encode_waits (config : ObfsConfig) :
    HookKeeps (tlsServer config).serverEncode (ObfsPlugin.Waits .tls12TicketAuth) := by
  intro f hf s block n h hs hcall _
  cases hf
  have hhook : (tls12TicketAuth config.hmac config.tls (s.1 0)).serverEncode = some _ := rfl
  rw [percall_eq hhook] at hcall
  obtain ⟨r, hr, rfl⟩ := Option.map_eq_some_iff.mp hcall
  obtain ⟨⟨l, out⟩, hencode, hr⟩ := Option.bind_eq_some_iff.mp hr
  dsimp only at hr
  split at hr
  · cases hr
  · cases hr
    intro hdone
    unfold Obfs.serverEncode at hencode
    split at hencode
    · next hstatus =>
      obtain ⟨records, -, hl⟩ := Option.map_eq_some_iff.mp hencode
      cases hl
      exact hs hstatus
    · cases hencode
      cases hdone

/-- The hooks of `verify_simple` take out whole frames. -/
theorem verifyServer_postDecrypt_waits :
    HookKeeps verifyServer.serverPostDecrypt (ProtocolPlugin.Waits .verifySimple) := by
  intro f hf s block n h hs hcall hret
  cases hf
  have hhook : (verifySimple (s.1 0).1 (s.1 0).2).serverPostDecrypt = some _ := rfl
  rw [percall_eq hhook] at hcall
  obtain ⟨r, hr, rfl⟩ := Option.map_eq_some_iff.mp hcall
  obtain ⟨⟨left, out⟩, hreceive, rfl⟩ := Option.map_eq_some_iff.mp hr
  unfold Protocol.VerifySimple.serverPostDecrypt Framing.receive at hreceive
  split at hreceive
  · cases hreceive
    exact absurd hret (Int.not_le.mpr (Int.negSucc_lt_zero 0))
  · split at hreceive
    · next hkept =>
      cases hreceive
      refine parse_of_decode ?_ parse_pos (Nat.lt_succ_self _) hkept
      intro payload length hframe
      cases hframe
    · cases hreceive
      exact absurd hret (Int.not_le.mpr (Int.negSucc_lt_zero 0))
    · cases hreceive

/-- Its encoder takes no part in that. -/
theorem verifyServer_preEncrypt_waits :
    HookKeeps verifyServer.serverPreEncrypt (ProtocolPlugin.Waits .verifySimple) := by
  intro f hf s block n h hs hcall _
  have hsame : h.data.2 = s.2 := (verifyServer_decodes.wraps f hf s s.2 block n h rfl hcall)
  show Protocol.VerifySimple.parse h.data.2 = .more
  rw [hsame]
  exact hs

/-- The plugins of a listener take out of their buffers what is whole. -/
theorem plugins_wait (config : ObfsConfig) (p : ObfsPlugin) (q : ProtocolPlugin) :
    PluginsKeep ⟨newObfsClass config p, newProtocolClass q⟩ p.Waits q.Waits where
  decode := by
    cases p with
    | plain => exact nofun
    | httpSimple | httpPost => exact fun _ _ _ _ _ _ _ _ _ ↦ trivial
    | tls12TicketAuth => exact tlsServer_decode_waits config
  encode := by
    cases p with
    | plain => exact nofun
    | httpSimple | httpPost => exact fun _ _ _ _ _ _ _ _ _ ↦ trivial
    | tls12TicketAuth => exact tlsServer_encode_waits config
  head := by
    cases p with
    | plain => exact nofun
    | httpSimple | httpPost => exact fun _ _ _ _ _ ↦ trivial
    | tls12TicketAuth =>
      intro c hc s n hs
      cases hc
      exact hs
  postDecrypt := by
    cases q with
    | origin => exact nofun
    | verifySimple => exact verifyServer_postDecrypt_waits
  preEncrypt := by
    cases q with
    | origin => exact nofun
    | verifySimple => exact verifyServer_preEncrypt_waits

end OpenWrtCompile.Server
