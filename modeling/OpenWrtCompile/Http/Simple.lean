import OpenWrtCompile.Http.Header

/-!
# The plugins `http_simple` and `http_post`

`shadowsocksr-libev/src/server/http_simple.c:21–50, 159–498, 514–626`. `Memory` is what the
functions read without having written it. A step is `none` where the program overruns a block, reads
through `NULL` or copies a negative number of bytes.
-/

namespace OpenWrtCompile.Http
open OpenWrtCompile.Base

/-- `http_simple_local_data`; the size of `recv_buffer` is its length. -/
structure HttpSimpleLocalData where
  hasSentHeader : Bool
  hasRecvHeader : Bool
  hostMatched : Bool
  recvBuffer : Bytes
  deriving DecidableEq, Repr

/-- `obfs`. -/
structure HttpObfs where
  server : ServerInfo
  localData : HttpSimpleLocalData
  deriving DecidableEq, Repr

/-- The bytes up to the next NUL behind what was received, behind `recv_buffer` and behind the two
bytes of `c_hex`, and the string in the new block `host`. -/
structure Memory where
  behind : Bytes
  behindRecv : Bytes
  behindHex : Bytes
  freshHost : Bytes
  deriving DecidableEq, Repr

/-- `http_simple_new_obfs`, with `set_server_info`. -/
def httpSimpleNewObfs (info : ServerInfo) : HttpObfs := ⟨info, ⟨false, false, false, []⟩⟩

/-- `head_size`: an `int`, at most the length of the data. -/
def headSize (info : ServerInfo) (draws : Draws) (dataLength : Nat) : Int :=
  min (Int.bmod (info.headLen + draws.size.toNat % 64) (2 ^ 32)) dataLength

/-- The blocks of `client_encode` are large enough: `encode_buffer`, `hosts[1024]`, `phost[128]`,
`hostport[128]` and `out_buffer`. -/
def EncodeFits (plugin : Plugin) (draws : Draws) (info : ServerInfo) (data : Bytes) : Prop :=
  0 ≤ headSize info draws data.length ∧ info.hosts.length < 1024 ∧
    (splitHosts info.hosts).1.length ≤ 128 ∧ (hostport info draws).length < 128 ∧
    let size := (headSize info draws data.length).toNat
    let header := requestHeader plugin draws info (data.take size)
    header.length < data.length + 2048 ∧ header.length ≤ size + 2048

instance (plugin : Plugin) (draws : Draws) (info : ServerInfo) (data : Bytes) :
    Decidable (EncodeFits plugin draws info data) :=
  inferInstanceAs (Decidable (_ ∧ _ ∧ _ ∧ _ ∧ _ ∧ _))

/-- An empty `param` is replaced by `NULL`. -/
def ServerInfo.dropEmptyParam (info : ServerInfo) : ServerInfo :=
  match info.param with
  | none => info
  | some param => if cString param 0 = [] then { info with param := none } else info

/-- The common body of the two `client_encode`. -/
def clientEncode (plugin : Plugin) (draws : Draws) (o : HttpObfs) (data : Bytes) :
    Option (HttpObfs × Bytes) :=
  if o.localData.hasSentHeader then some (o, data)
  else if EncodeFits plugin draws o.server data then
    let size := (headSize o.server draws data.length).toNat
    some (⟨o.server.dropEmptyParam, { o.localData with hasSentHeader := true }⟩,
      requestHeader plugin draws o.server (data.take size) ++ data.drop size)
  else none

/-- `http_simple_client_encode`. -/
def httpSimpleClientEncode : Draws → HttpObfs → Bytes → Option (HttpObfs × Bytes) :=
  clientEncode .httpSimple

/-- `http_post_client_encode`. -/
def httpPostClientEncode : Draws → HttpObfs → Bytes → Option (HttpObfs × Bytes) :=
  clientEncode .httpPost

/-- `client_encode` of a plugin. -/
def Plugin.clientEncode : Plugin → Draws → HttpObfs → Bytes → Option (HttpObfs × Bytes)
  | .httpSimple => httpSimpleClientEncode
  | .httpPost => httpPostClientEncode

/-- `http_simple_server_encode`, at the time `t`. -/
def httpSimpleServerEncode (t : Tm) (o : HttpObfs) (data : Bytes) : HttpObfs × Bytes :=
  if o.localData.hasSentHeader then (o, data)
  else
    (⟨o.server, { o.localData with hasSentHeader := true }⟩, responseHeader t ++ data)

/-- `http_simple_client_decode` of a segment. -/
def httpSimpleClientDecode (mem : Memory) (o : HttpObfs) (data : Bytes) :
    Option (HttpObfs × Bytes) :=
  if o.localData.hasRecvHeader then some (o, data)
  else
    match strstr (data ++ mem.behind) blankLine with
    | none => some (o, [])
    | some i =>
      let dataBegin := i + 4
      if data.length < dataBegin then none
      else
        some (⟨o.server, { o.localData with hasRecvHeader := true }⟩, data.drop dataBegin)

/-- What an error path leaves of the local data. -/
def HttpSimpleLocalData.refuse (l : HttpSimpleLocalData) (recvBuffer : Bytes) :
    HttpSimpleLocalData :=
  { l with hasSentHeader := true, hasRecvHeader := true, recvBuffer := recvBuffer }

/-- Whether the host of the request in `recv_buffer` is one of `param`. -/
def hostIsMatch (mem : Memory) (param recvBuffer : Bytes) : Option Bool :=
  let hosts := cString param 0
  if hosts.length < 1024 ∧ (splitHosts hosts).1.length ≤ 128 then
    (getHostFromHttpHeader (cString mem.freshHost 0) (recvBuffer ++ mem.behindRecv)).map
      fun host ↦ decide (host ∈ (splitHosts hosts).1)
  else none

/-- The host check of `server_decode`: the data of the plugin afterwards, and whether it goes on. -/
def checkHost (mem : Memory) (o : HttpObfs) : Option (HttpObfs × Bool) :=
  match o.server.param with
  | some param =>
    if cString param 0 = [] then some (⟨{ o.server with param := none }, o.localData⟩, true)
    else if o.localData.hostMatched then some (o, true)
    else
      (hostIsMatch mem param o.localData.recvBuffer).map fun isMatch ↦
        if isMatch then (⟨o.server, { o.localData with hostMatched := true }⟩, true)
        else (⟨o.server, o.localData.refuse []⟩, false)
  | none => if o.localData.hostMatched then some (o, true) else none

/-- `server_decode` once an empty line stands before `dataBegin` in the block `encryptdata`. Of the
block, which holds all that was received, `datalength` bytes are counted: those of the last call. -/
def completeHeader (mem : Memory) (o : HttpObfs) (encryptdata : Bytes) (datalength dataBegin : Nat) :
    Option (HttpObfs × Option Bytes) :=
  let retBuf := getDataFromHttpHeader mem.behindHex encryptdata
  match checkHost mem o with
  | none => none
  | some (o, false) => some (o, none)
  | some (o, true) =>
    if retBuf = [] then some (o, none)
    else if datalength < dataBegin then none
    else
      some (⟨o.server, { o.localData with hasRecvHeader := true }⟩,
        some (retBuf ++ window encryptdata dataBegin (datalength - dataBegin)))

/-- `http_simple_server_decode` of a segment: the output is `none` for the return value -1. -/
def httpSimpleServerDecode (mem : Memory) (o : HttpObfs) (data : Bytes) :
    Option (HttpObfs × Option Bytes) :=
  if o.localData.hasRecvHeader then some (o, some data)
  else
    let recv := o.localData.recvBuffer ++ data
    let encryptdata := if data ≠ [] then recv ++ mem.behind else mem.behind
    let o : HttpObfs := ⟨o.server, { o.localData with recvBuffer := recv }⟩
    if recv.length ≤ 10 then some (⟨o.server, o.localData.refuse recv⟩, none)
    else if strstr recv (ascii "GET /") ≠ some 0 ∧ strstr recv (ascii "POST /") ≠ some 0 then
      some (⟨o.server, o.localData.refuse []⟩, none)
    else if 65536 < recv.length then some (⟨o.server, o.localData.refuse []⟩, none)
    else
      match strstr encryptdata blankLine with
      | none => some (o, some [])
      | some i => completeHeader mem o encryptdata data.length (i + 4)

/-- The two methods are what the server expects. -/
theorem strstr_method (plugin : Plugin) (recv : Bytes) (h : plugin.method ++ ascii " /" <+: recv) :
    strstr recv (ascii "GET /") = some 0 ∨ strstr recv (ascii "POST /") = some 0 := by
  obtain ⟨rest, rfl⟩ := h
  cases plugin with
  | httpSimple =>
    left
    exact strstr_append rest (by decide) (by decide)
  | httpPost =>
    right
    exact strstr_append rest (by decide) (by decide)

end OpenWrtCompile.Http
