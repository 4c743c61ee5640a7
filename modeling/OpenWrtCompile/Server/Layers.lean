import OpenWrtCompile.Server.Conn

/-!
# A TCP connection with obfs and protocol plugins

`shadowsocksr-libev/src/server/server.c`: `server_recv_cb` (606–1075) with its plugin layers
(677–772), `server_send_cb` (1077–1137), `remote_recv_cb` (1239–1351) and `accept_cb` (1634–1689).
The plugins are parameters. A callback returns `none` when it closes and frees the connection, and
where what it does is undefined.
-/

namespace OpenWrtCompile.Server
open OpenWrtCompile.Base

/-- What a hook of a plugin leaves: its own data, the block that the pointer it was given points to
now, whether that is another block (the old one being freed), the return value and `*needsendback`. -/
structure Hooked (ρ : Type) where
  data : ρ
  block : Bytes
  moved : Bool
  ret : Int
  needsendback : Bool

/-- A hook gets its own data, a block and the number of bytes in it. The result is `none` where the
behaviour is undefined. -/
abbrev Hook (ρ : Type) := ρ → Bytes → Nat → Option (Hooked ρ)

/-- `obfs_class`, as far as a TCP connection of the server calls it. A hook may be NULL. -/
structure ObfsClass (ρ : Type) where
  serverPreEncrypt : Option (Hook ρ)
  serverEncode : Option (Hook ρ)
  serverDecode : Option (Hook ρ)
  serverPostDecrypt : Option (Hook ρ)
  /-- `set_server_info` with another `head_len`. -/
  setHeadLen : ρ → Int → ρ

/-- `server->obfs_plugin` and `server->protocol_plugin`, which may be NULL. -/
structure Plugins (ρ π : Type) where
  obfs : Option (ObfsClass ρ)
  protocol : Option (ObfsClass π)

/-- The options `obfs_compatible` and `protocol_compatible`. -/
structure Compatible where
  obfs : Bool
  protocol : Bool
  deriving DecidableEq, Repr

/-- Both options off. -/
def strict : Compatible := ⟨false, false⟩

/-- `server_t` with its plugins. `handed` is the log of what goes to the header parser and the relay,
`toClient` the log of all bytes the kernel has taken for the client's socket. -/
structure LayeredConn (σ κ ρ π : Type) where
  conn : Conn σ κ
  eCtx : EncCtx σ
  /-- The IV of `e_ctx`. -/
  iv : Bytes
  obfs : ρ
  protocol : π
  obfsCompatibleState : Bool
  protocolCompatibleState : Bool
  sendIo : Bool
  toClient : Bytes
  handed : List Bytes

/-- How a part of a callback ends: the connection is closed, the callback returns, or it goes on. -/
inductive Progress (ω α : Type) where
  | closed
  | waiting (s : ω)
  | next (a : α)

variable {σ κ ρ π : Type}

/-- `accept_cb`: a new connection with the data of new plugins. -/
def accept (conn : Conn σ κ) (evp : σ) (iv : Bytes) (obfs : ρ) (protocol : π) :
    LayeredConn σ κ ρ π where
  conn := conn
  eCtx := ⟨false, evp⟩
  iv := iv
  obfs := obfs
  protocol := protocol
  obfsCompatibleState := false
  protocolCompatibleState := false
  sendIo := false
  toClient := []
  handed := []

/-- `get_head_size`; `char` is signed. -/
def getHeadSize (plain : Bytes) (defSize : Int) : Int :=
  match plain with
  | b :: c :: _ =>
    if b &&& 0x07 = 1 then 7
    else if b &&& 0x07 = 4 then 19
    else if b &&& 0x07 = 3 then 4 + c.toInt8.toInt
    else defSize
  | _ => defSize

/-- The buffer with what a hook returned. -/
def Hooked.result (h : Hooked ρ) (buf : Buffer) : Buffer :=
  { buf with array := h.block, len := h.ret.toNat }

/-- `memcpy(buf, back_buf, sizeof(buffer_t))`: the pointer and the length of before. The bytes are
those the hook has left in the block; if it has freed the block, they are undefined. -/
def Hooked.restore (h : Hooked ρ) (buf : Buffer) : Option Buffer :=
  if h.moved then none else some { buf with array := h.block }

namespace Conn

/-- `buf` of `server_recv_cb`. -/
def recvBuf (c : Conn σ κ) : Option Buffer :=
  if c.stage = .stream then c.remote.map (·.buf) else some c.buf

/-- Another value of `*buf`. -/
def setRecvBuf (c : Conn σ κ) (buf : Buffer) : Conn σ κ :=
  if c.stage = .stream then { c with remote := c.remote.map fun r ↦ { r with buf } }
  else { c with buf }

end Conn

/-- Lines 613–675: the segment is read into the buffer. -/
def readStage (env : ServerEnv σ κ) (c : Conn σ κ) (seg : Bytes) :
    Progress (Conn σ κ) (Conn σ κ × Buffer) :=
  match c.stage with
  -- the read watcher is stopped while a name is resolved
  | .resolve => .closed
  | .stream =>
    match c.remote with
    | none => .closed
    | some r => .next (c, r.buf.assign seg)
  | stage =>
    if bufSize < c.buf.len then .closed
    else
      match stage with
      | .error => .waiting { c with buf := (c.buf.write c.buf.len seg).reset }
      | .init =>
        if (c.buf.append seg).len ≤ env.cipher.ivLen + 1 then .waiting { c with buf := c.buf.append seg }
        else .next (c, c.buf.append seg)
      | _ => .next (c, (c.buf.write c.buf.len seg).setLen seg.length)

/-- Lines 723–730. A new context with less than an IV computes a negative length. -/
def decryptSegment (env : ServerEnv σ κ) (dCtx : EncCtx σ) (buf : Buffer) :
    Option (EncCtx σ × Buffer) :=
  if !dCtx.init && buf.len < env.cipher.ivLen then none
  else ssDecrypt env.cipher env.ivSeen dCtx buf

/-- Lines 775–816, on the decrypted segment. -/
def headerStage (auth : Bool) (c : Conn σ κ) : Received σ κ :=
  match c.stage with
  | .init => initStage auth c
  | .handshake => handshakeStage auth c
  | .stream =>
    match c.remote with
    | none => .closed
    | some r => .stream c r
  | _ => .parse c

/-- Lines 818–1075. -/
def relayStage (env : ServerEnv σ κ) (connect : ConnectReply) (reply : SendReply) :
    Received σ κ → Option (Conn σ κ)
  | .closed => none
  | .waiting c => some c
  | .stream c r => streamStage env reply c r
  | .parse c =>
    match requestStage env c with
    | none => none
    | some (.addr _ _ _, c) => literalStage env connect c
    | some (.name _ _, c) => some (queryStage c)

namespace LayeredConn

variable (env : ServerEnv σ κ) (plugins : Plugins ρ π) (compatible : Compatible)

/-- Lines 679–709: `server_decode`, and whether it asks for an answer. -/
def decodeStage (s : LayeredConn σ κ ρ π) (buf : Buffer) :
    Option (LayeredConn σ κ ρ π × Buffer × Bool) :=
  match plugins.obfs.bind (·.serverDecode) with
  | none => some (s, buf, false)
  | some serverDecode =>
    match serverDecode s.obfs buf.array buf.len with
    | none => none
    | some h =>
      let s := { s with obfs := h.data }
      if 0 ≤ h.ret then some (s, h.result buf, h.needsendback)
      else if compatible.obfs then
        (h.restore buf).map fun buf ↦ ({ s with obfsCompatibleState := true }, buf, h.needsendback)
      else none

/-- Lines 711–720: the answer of `server_encode` to no data, of which the kernel takes `taken`
bytes. `mem` is the block that `malloc` returned. -/
def sendback (mem : Bytes) (taken : Nat) (s : LayeredConn σ κ ρ π) :
    Option (LayeredConn σ κ ρ π) :=
  match plugins.obfs.bind (·.serverEncode) with
  | none => some s
  | some serverEncode =>
    match serverEncode s.obfs mem 0 with
    | none => none
    | some h =>
      if h.ret < 0 then none
      else
        some { s with
          obfs := h.data
          toClient := s.toClient ++ (h.block.take h.ret.toNat).take taken }

/-- Lines 732–772: `server_post_decrypt`. With `protocol_compatible` both tests fall back, and behind
the first one the second finds the restored length: if that is 0, `back_buf` is freed twice. -/
def postDecryptStage (s : LayeredConn σ κ ρ π) (buf : Buffer) :
    Progress (LayeredConn σ κ ρ π × Buffer) (LayeredConn σ κ ρ π × Buffer) :=
  match plugins.protocol.bind (·.serverPostDecrypt) with
  | none => .next (s, buf)
  | some serverPostDecrypt =>
    match serverPostDecrypt s.protocol buf.array buf.len with
    | none => .closed
    | some h =>
      let s := { s with protocol := h.data }
      if 0 < h.ret then .next (s, h.result buf)
      else if compatible.protocol then
        match h.restore buf with
        | none => .closed
        | some restored =>
          if h.ret < 0 && restored.len = 0 then .closed
          else .next ({ s with protocolCompatibleState := true }, restored)
      else if h.ret < 0 then .closed
      else .waiting (s, h.result buf)

/-- `server_recv_cb`. -/
def serverRecvCb (mem : Bytes) (taken : Nat) (connect : ConnectReply) (reply : SendReply)
    (s : LayeredConn σ κ ρ π) (seg : Bytes) : Option (LayeredConn σ κ ρ π) :=
  match readStage env s.conn seg with
  | .closed => none
  | .waiting conn => some { s with conn }
  | .next (conn, buf) =>
    match decodeStage plugins compatible s buf with
    | none => none
    | some (s, buf, true) => sendback plugins mem taken { s with conn := conn.setRecvBuf buf }
    | some (s, buf, false) =>
      match decryptSegment env conn.dCtx buf with
      | none => none
      | some (dCtx, buf) =>
        match postDecryptStage plugins compatible s buf with
        | .closed => none
        | .waiting (s, buf) => some { s with conn := { conn with dCtx }.setRecvBuf buf }
        | .next (s, buf) =>
          (relayStage env connect reply
            (headerStage env.parse.auth ({ conn with dCtx }.setRecvBuf buf))).map fun conn ↦
              { s with conn, handed := s.handed ++ [buf.data] }

/-- A layer of a response: the hook is called where there is one and `on` holds. The results are
whether it was called, and what it left. -/
def wrapLayer (on : Bool) (hook : Option (Hook ρ)) (data : ρ) (buf : Buffer) :
    Bool × Option (ρ × Buffer) :=
  match on, hook with
  | true, some f =>
    (true, (f data buf.array buf.len).bind fun h ↦
      if h.ret < 0 then none else some (h.data, h.result buf))
  | _, _ => (false, some (data, buf))

/-- Lines 1312–1332: the response is sent. -/
def sendResponse (reply : SendReply) (r : Remote) (s : LayeredConn σ κ ρ π) (buf : Buffer) :
    Option (LayeredConn σ κ ρ π) :=
  match reply with
  | .sent n =>
    let s := { s with toClient := s.toClient ++ buf.data.take n }
    if n < buf.len then
      some { s with
        conn := { s.conn with
          buf := { buf with len := buf.len - n, idx := n }, remote := some { r with recvIo := false } }
        sendIo := true }
    else some { s with conn := { s.conn with buf } }
  | .again =>
    some { s with
      conn := { s.conn with
        buf := { buf with idx := 0 }, remote := some { r with recvIo := false } }
      sendIo := true }
  | _ => none

/-- What `remote_recv_cb` does: which layers it puts on the response, and the connection behind it. -/
structure Responded (σ κ ρ π : Type) where
  protocolWraps : Bool
  obfsWraps : Bool
  next : Option (LayeredConn σ κ ρ π)

/-- `remote_recv_cb`, `data` being what `recv` returned for the remote `r`. Both layers test
`obfs_compatible_state`. -/
def remoteRecvCb (reply : SendReply) (r : Remote) (s : LayeredConn σ κ ρ π) (data : Bytes) :
    Responded σ κ ρ π :=
  let buf := s.conn.buf.assign data
  let obfs := (plugins.obfs.map fun p ↦ p.setHeadLen s.obfs (getHeadSize data 30)).getD s.obfs
  let inner := wrapLayer (!s.obfsCompatibleState) (plugins.protocol.bind (·.serverPreEncrypt))
    s.protocol buf
  match inner.2 with
  | none => ⟨inner.1, false, none⟩
  | some (protocol, buf) =>
    let encrypted := ssEncrypt env.cipher s.iv s.eCtx buf
    let outer := wrapLayer (!s.obfsCompatibleState) (plugins.obfs.bind (·.serverEncode)) obfs
      encrypted.2
    match outer.2 with
    | none => ⟨inner.1, outer.1, none⟩
    | some (obfs, buf) =>
      ⟨inner.1, outer.1, sendResponse reply r { s with eCtx := encrypted.1, obfs, protocol } buf⟩

/-- `server_send_cb`. -/
def serverSendCb (reply : SendReply) (s : LayeredConn σ κ ρ π) : Option (LayeredConn σ κ ρ π) :=
  match s.conn.remote with
  | none => none
  | some r =>
    if s.conn.buf.len = 0 then none
    else
      match reply with
      | .sent n =>
        let s := { s with toClient := s.toClient ++ s.conn.buf.pending.take n }
        if n < s.conn.buf.len then
          some { s with conn := { s.conn with
            buf := { s.conn.buf with len := s.conn.buf.len - n, idx := s.conn.buf.idx + n } } }
        else
          some { s with
            conn := { s.conn with
              buf := s.conn.buf.reset, remote := some { r with recvIo := true } }
            sendIo := false }
      | .again => some s
      | _ => none

end LayeredConn

/-- The callbacks of a connection, with what the kernel, the resolver and the peers answer. -/
inductive Event where
  | serverRecv (seg mem : Bytes) (taken : Nat) (connect : ConnectReply) (reply : SendReply)
  | serverSend (reply : SendReply)
  | serverResolve (connect : ConnectReply) (resolved : Bool)
  | remoteRecv (data : Bytes) (reply : SendReply)
  | remoteSend (peer : Bool) (reply : SendReply)

namespace LayeredConn

/-- One callback. A response needs a remote. -/
def step (env : ServerEnv σ κ) (plugins : Plugins ρ π) (compatible : Compatible)
    (s : LayeredConn σ κ ρ π) : Event → Option (LayeredConn σ κ ρ π)
  | .serverRecv seg mem taken connect reply =>
    serverRecvCb env plugins compatible mem taken connect reply s seg
  | .serverSend reply => serverSendCb reply s
  | .serverResolve connect resolved =>
    (serverResolveCb env connect resolved s.conn).map fun conn ↦ { s with conn }
  | .remoteRecv data reply =>
    match s.conn.remote with
    | none => none
    | some r => (remoteRecvCb env plugins reply r s data).next
  | .remoteSend peer reply => (remoteSendCb peer reply s.conn).map fun conn ↦ { s with conn }

end LayeredConn

/-! ## Without plugins -/

/-- A segment of a plain listener is read, decrypted and handed on. -/
theorem serverRecvCb_eq_stages (env : ServerEnv σ κ) (connect : ConnectReply) (reply : SendReply)
    (c : Conn σ κ) (seg : Bytes) (hctx : c.stage = .init ∨ c.dCtx.init = true) :
    serverRecvCb env connect reply c seg =
      match readStage env c seg with
      | .closed => none
      | .waiting c => some c
      | .next (c, buf) =>
        (decryptSegment env c.dCtx buf).bind fun r ↦
          relayStage env connect reply
            (headerStage env.parse.auth ({ c with dCtx := r.1 }.setRecvBuf r.2)) := by
  have hdecrypt {buf : Buffer} (h : c.dCtx.init = true ∨ env.cipher.ivLen ≤ buf.len) :
      decryptSegment env c.dCtx buf = ssDecrypt env.cipher env.ivSeen c.dCtx buf := by
    rw [decryptSegment, if_neg]
    rw [Bool.and_eq_true, Bool.not_eq_true', decide_eq_true_eq]
    rintro ⟨hnew, hshort⟩
    rcases h with h | h
    · rw [h] at hnew
      cases hnew
    · omega
  have hstart (h : c.stage ≠ .init) : c.dCtx.init = true := hctx.resolve_left h
  unfold serverRecvCb receive readStage
  cases hstage : c.stage with
  | resolve => rfl
  | stream =>
    cases hremote : c.remote with
    | none => rfl
    | some r =>
      simp only [hdecrypt (.inl (hstart (by simp [hstage])))]
      cases ssDecrypt env.cipher env.ivSeen c.dCtx (r.buf.assign seg) with
      | none => rfl
      | some d =>
        simp only [Option.bind_some, Conn.setRecvBuf, hstage, if_true, hremote, Option.map_some,
          headerStage, relayStage]
        rfl
  | error =>
    by_cases hfull : bufSize < c.buf.len
    · simp only [hfull, if_true]
    · simp only [hfull, if_false]
  | init =>
    by_cases hfull : bufSize < c.buf.len
    · simp only [hfull, if_true]
    · simp only [hfull, if_false]
      by_cases hshort : (c.buf.append seg).len ≤ env.cipher.ivLen + 1
      · simp only [hshort, if_true]
      · have hlong : env.cipher.ivLen ≤ (c.buf.append seg).len := by omega
        simp only [hshort, if_false, decryptStage, hdecrypt (.inr hlong)]
        cases ssDecrypt env.cipher env.ivSeen c.dCtx (c.buf.append seg) with
        | none => rfl
        | some d =>
          simp only [Option.bind_some, Conn.setRecvBuf, hstage, reduceCtorEq, if_false, headerStage]
          rfl
  | handshake | parse =>
    by_cases hfull : bufSize < c.buf.len
    · simp only [hfull, if_true]
    · simp only [hfull, if_false, decryptStage, hdecrypt (.inl (hstart (by simp [hstage])))]
      cases ssDecrypt env.cipher env.ivSeen c.dCtx
          ((c.buf.write c.buf.len seg).setLen seg.length) with
      | none => rfl
      | some d =>
        simp only [Option.bind_some, Conn.setRecvBuf, hstage, reduceCtorEq, if_false, headerStage]
        rfl

/-- Without plugins the connection is that of a plain listener. -/
theorem LayeredConn.serverRecvCb_plain (env : ServerEnv σ κ) (compatible : Compatible) (mem : Bytes)
    (taken : Nat) (connect : ConnectReply) (reply : SendReply) (s : LayeredConn σ κ ρ π) (seg : Bytes)
    (hctx : s.conn.stage = .init ∨ s.conn.dCtx.init = true) :
    (LayeredConn.serverRecvCb env ⟨none, none⟩ compatible mem taken connect reply s seg).map
        LayeredConn.conn =
      Server.serverRecvCb env connect reply s.conn seg := by
  rw [serverRecvCb_eq_stages env connect reply s.conn seg hctx]
  unfold LayeredConn.serverRecvCb
  cases readStage env s.conn seg with
  | closed => rfl
  | waiting c => rfl
  | next a =>
    simp only [LayeredConn.decodeStage, LayeredConn.postDecryptStage, Option.bind_none]
    cases decryptSegment env a.1.dCtx a.2 with
    | none => rfl
    | some d =>
      simp only [Option.bind_some, Option.map_map]
      exact Option.map_id'

end OpenWrtCompile.Server
