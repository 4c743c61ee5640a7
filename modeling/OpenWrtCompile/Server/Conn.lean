import OpenWrtCompile.Server.Cipher
import OpenWrtCompile.Server.Request

/-!
# One TCP connection of the server

`shadowsocksr-libev/src/server/server.c`: `connect_to_remote` (478–604), `server_recv_cb`
(606–1075), `server_resolve_cb` (1188–1239), `remote_send_cb` (1355–1430) and the constructors, for
a listener without an obfs or protocol plugin (`new_obfs_class` returns NULL for `plain` and
`origin`). A callback returns `none` when it closes and frees the connection. What the kernel, the
resolver and the peers do is an argument of the callback.
-/

namespace OpenWrtCompile.Server
open OpenWrtCompile.Base

/-- The `STAGE_*` constants of `common.h`. -/
inductive Stage where
  | error
  | init
  | handshake
  | parse
  | resolve
  | stream
  deriving DecidableEq, Repr

/-- `remote_t`. `sent` is the log of all bytes the kernel has taken for the remote socket. -/
structure Remote where
  buf : Buffer
  connected : Bool
  sendIo : Bool
  recvIo : Bool
  sent : Bytes
  deriving DecidableEq, Repr

/-- `server_t`, as far as the client-to-remote direction uses it. -/
structure Conn (σ κ : Type) where
  stage : Stage
  buf : Buffer
  headerBuf : Buffer
  auth : Bool
  dCtx : EncCtx σ
  chunk : κ
  remote : Option Remote
  recvIo : Bool

/-- What the callbacks use beside the connection: the cipher, the request parser's environment, the
memory of used IVs, the check of one-time-auth chunks and the `fast_open` option. -/
structure ServerEnv (σ κ : Type) where
  cipher : StreamCipher σ
  parse : ParseEnv
  /-- `cache_key_exist(iv_cache, …)`. -/
  ivSeen : Bytes → Bool
  /-- `ss_check_hash`: the verified data, or `none` for the return value 0. -/
  checkHash : κ → Bytes → Option (κ × Bytes)
  fastOpen : Bool

/-- The result of `send` and of `sendto` with `MSG_FASTOPEN`. -/
inductive SendReply where
  | sent (n : Nat)
  /-- `-1` with `EAGAIN`, `EWOULDBLOCK` or `EINPROGRESS`. -/
  | again
  /-- `-1` with `EOPNOTSUPP`, `EPROTONOSUPPORT` or `ENOPROTOOPT`. -/
  | unsupported
  /-- `-1` with any other `errno`. -/
  | error
  deriving DecidableEq, Repr

/-- What the kernel answers to the calls of `connect_to_remote`. -/
structure ConnectReply where
  /-- The outbound block list, `socket`, `bind` or `setinterface` refuses the connection. -/
  refused : Bool
  fastOpen : SendReply
  /-- `connect` fails with something other than `EINPROGRESS`. -/
  connectFails : Bool
  /-- The block that `balloc` gives the buffer of the new remote. -/
  mem : Bytes
  deriving DecidableEq, Repr

variable {σ κ : Type}

/-- `new_server`; `mem` and `headerMem` are the two fresh blocks. -/
def newServer (evp : σ) (chunk : κ) (mem headerMem : Bytes) : Conn σ κ where
  stage := .init
  buf := .balloc mem
  headerBuf := .balloc headerMem
  auth := false
  dCtx := ⟨false, evp⟩
  chunk := chunk
  remote := none
  recvIo := true

/-- `new_remote`. -/
def newRemote (mem : Bytes) : Remote where
  buf := .balloc mem
  connected := false
  sendIo := false
  recvIo := false
  sent := []

/-- The fast-open part of `connect_to_remote`: the bytes the kernel took, the buffer with `idx` and
`len` moved, and whether `fast_open` stays on. -/
def fastOpenSend (reply : SendReply) (buf : Buffer) : Bytes × Buffer × Bool :=
  match reply with
  | .sent n =>
    if n ≤ buf.len then
      (buf.pending.take n, { buf with idx := buf.idx + n, len := buf.len - n }, true)
    else (buf.pending, buf.reset, true)
  | .again => ([], buf, true)
  | .unsupported => ([], buf, false)
  | .error => ([], buf, true)

/-- `connect_to_remote`: the new remote and what is left of `server->buf`, or NULL. -/
def connectToRemote (fastOpen : Bool) (reply : ConnectReply) (buf : Buffer) :
    Option (Remote × Buffer) :=
  if reply.refused then none
  else
    let (taken, buf, stillOn) :=
      if fastOpen then fastOpenSend reply.fastOpen buf else ([], buf, false)
    if !stillOn && reply.connectFails then none
    else some ({ newRemote reply.mem with sent := taken }, buf)

/-- How `server_recv_cb` goes on once it has read and decrypted a segment. -/
inductive Received (σ κ : Type) where
  | closed
  | waiting (c : Conn σ κ)
  | parse (c : Conn σ κ)
  | stream (c : Conn σ κ) (r : Remote)

/-- Lines 793–816: the segment is added to `header_buf`, and `server->buf` is tested. -/
def handshakeStage (auth : Bool) (c : Conn σ κ) : Received σ κ :=
  let headerLen := c.headerBuf.len
  let headerBuf := (c.headerBuf.brealloc (c.buf.len + headerLen) bufSize).append c.buf.data
  match isHeaderComplete auth c.buf with
  | .complete =>
    .parse { c with
      stage := .parse
      buf := (c.buf.brealloc headerBuf.len bufSize).assign headerBuf.data
      headerBuf := headerBuf.bfree }
  | .invalid => .waiting { c with stage := .error, headerBuf, buf := c.buf.reset }
  | .incomplete => .waiting { c with headerBuf, buf := c.buf.reset }

/-- Lines 775–791, and on into the handshake when the first segment is not a whole header. -/
def initStage (auth : Bool) (c : Conn σ κ) : Received σ κ :=
  match isHeaderComplete auth c.buf with
  | .complete => .parse { c with stage := .parse, headerBuf := c.headerBuf.bfree }
  | .invalid => .waiting { c with stage := .error, buf := c.buf.reset }
  | .incomplete => handshakeStage auth { c with stage := .handshake }

/-- Lines 723–816 for `server->buf`: decrypt, then handle an incomplete header. -/
def decryptStage (env : ServerEnv σ κ) (c : Conn σ κ) : Received σ κ :=
  match ssDecrypt env.cipher env.ivSeen c.dCtx c.buf with
  | none => .closed
  | some (dCtx, buf) =>
    let c := { c with dCtx, buf }
    match c.stage with
    | .init => initStage env.parse.auth c
    | .handshake => handshakeStage env.parse.auth c
    | _ => .parse c

/-- `server_recv_cb` up to line 816, `seg` being what `recv` returned. -/
def receive (env : ServerEnv σ κ) (c : Conn σ κ) (seg : Bytes) : Received σ κ :=
  match c.stage with
  -- the read watcher is stopped while a name is resolved; the code would end in `FATAL`
  | .resolve => .closed
  | .stream =>
    match c.remote with
    | none => .closed
    | some r =>
      let buf := r.buf.assign seg
      match ssDecrypt env.cipher env.ivSeen c.dCtx buf with
      | none => .closed
      | some (dCtx, buf) => .stream { c with dCtx } { r with buf }
  | stage =>
    if bufSize < c.buf.len then .closed
    else
      match stage with
      | .error => .waiting { c with buf := (c.buf.write c.buf.len seg).reset }
      | .init =>
        let c := { c with buf := c.buf.append seg }
        -- `buf->len <= enc_get_iv_len() + 1`: wait for more
        if c.buf.len ≤ env.cipher.ivLen + 1 then .waiting c else decryptStage env c
      | _ => decryptStage env { c with buf := (c.buf.write c.buf.len seg).setLen seg.length }

/-- Lines 822–846, `STAGE_STREAM`: verify and send what was received. -/
def streamStage (env : ServerEnv σ κ) (reply : SendReply) (c : Conn σ κ) (r : Remote) :
    Option (Conn σ κ) :=
  let checked := if c.auth then env.checkHash c.chunk r.buf.data else some (c.chunk, r.buf.data)
  match checked with
  | none => none
  | some (chunk, data) =>
    let r := { r with buf := r.buf.assign data }
    let c := { c with chunk }
    match reply with
    | .sent n =>
      let r := { r with sent := r.sent ++ data.take n }
      if n < r.buf.len then
        some { c with
          remote := some { r with
            buf := { r.buf with len := r.buf.len - n, idx := n }, sendIo := true }
          recvIo := false }
      else some { c with remote := some r }
    | .again =>
      some { c with
        remote := some { r with buf := { r.buf with idx := 0 }, sendIo := true }
        recvIo := false }
    | _ => none

/-- Lines 872–1036, `STAGE_PARSE` up to the connection: parse the header, move the payload to the
front and verify its chunks. -/
def requestStage (env : ServerEnv σ κ) (c : Conn σ κ) : Option (Target × Conn σ κ) :=
  match parseRequest env.parse c.auth c.buf with
  | .error _ => none
  | .ok req =>
    if req.auth then
      match env.checkHash c.chunk req.payload.data with
      | none => none
      | some (chunk, data) =>
        some (req.target, { c with auth := true, chunk, buf := req.payload.assign data })
    else some (req.target, { c with auth := false, buf := req.payload })

/-- Lines 1039–1061, a literal address: what is left of `server->buf` is copied from the start of
its block. -/
def literalStage (env : ServerEnv σ κ) (reply : ConnectReply) (c : Conn σ κ) : Option (Conn σ κ) :=
  match connectToRemote env.fastOpen reply c.buf with
  | none => none
  | some (r, buf) =>
    if 0 < buf.len then
      some { c with
        remote := some { r with buf := r.buf.assign (window buf.array 0 buf.len), sendIo := true }
        buf := buf.reset
        recvIo := false }
    else some { c with remote := some { r with sendIo := true }, buf, recvIo := false }

/-- Lines 1062–1072, a host name: stop reading until it is resolved. -/
def queryStage (c : Conn σ κ) : Conn σ κ := { c with stage := .resolve, recvIo := false }

/-- `server_resolve_cb`; `resolved` is whether an address was found. Here the rest of `server->buf`
is copied from `idx` on. -/
def serverResolveCb (env : ServerEnv σ κ) (reply : ConnectReply) (resolved : Bool) (c : Conn σ κ) :
    Option (Conn σ κ) :=
  if !resolved then none
  else match connectToRemote env.fastOpen reply c.buf with
    | none => none
    | some (r, buf) =>
      if 0 < buf.len then
        some { c with
          remote := some { r with
            buf := r.buf.assign (window buf.array buf.idx buf.len), sendIo := true }
          buf := buf.reset }
      else some { c with remote := some { r with sendIo := true }, buf }

/-- `server_recv_cb`. -/
def serverRecvCb (env : ServerEnv σ κ) (connect : ConnectReply) (reply : SendReply)
    (c : Conn σ κ) (seg : Bytes) : Option (Conn σ κ) :=
  match receive env c seg with
  | .closed => none
  | .waiting c => some c
  | .stream c r => streamStage env reply c r
  | .parse c =>
    match requestStage env c with
    | none => none
    | some (.addr _ _ _, c) => literalStage env connect c
    | some (.name _ _, c) => some (queryStage c)

/-- The sending half of `remote_send_cb`, for a connected remote with data. -/
def remoteSend (reply : SendReply) (c : Conn σ κ) (r : Remote) : Option (Conn σ κ) :=
  match reply with
  | .sent n =>
    let sent := r.sent ++ r.buf.pending.take n
    if n < r.buf.len then
      some { c with remote := some { r with
        sent
        buf := { r.buf with len := r.buf.len - n, idx := r.buf.idx + n } } }
    else
      some { c with
        stage := .stream
        recvIo := true
        remote := some { r with
          sent
          buf := r.buf.reset
          sendIo := false
          recvIo := if c.stage = .stream then r.recvIo else true } }
  | .again => some c
  | _ => none

/-- `remote_send_cb`; `peer` is whether `getpeername` succeeds. -/
def remoteSendCb (peer : Bool) (reply : SendReply) (c : Conn σ κ) : Option (Conn σ κ) :=
  match c.remote with
  | none => none
  | some r =>
    if r.connected then if r.buf.len = 0 then none else remoteSend reply c r
    else if !peer then none
    else
      let r := { r with connected := true }
      if r.buf.len = 0 then
        some { c with
          stage := .stream, recvIo := true
          remote := some { r with sendIo := false, recvIo := true } }
      else remoteSend reply { c with remote := some r } r

/-- A listener to run examples with: an XOR cipher, no block list, every name a name. -/
def plainEnv (fastOpen : Bool) : ServerEnv Unit Unit where
  cipher := xorCipher 0x5A
  parse := {
    auth := false
    onetimeauthFails := fun _ ↦ false
    outboundBlocked := fun _ ↦ false
    corkIpInit := fun _ ↦ none
    dnsPton := fun _ _ ↦ [] }
  ivSeen _ := false
  checkHash _ data := some ((), data)
  fastOpen := fastOpen

end OpenWrtCompile.Server
