import OpenWrtCompile.Obfs.Tls12Ticket

/-!
# The encoders and the client side of `tls1.2_ticket_auth`

`shadowsocksr-libev/src/server/tls1.2_ticket.c:75–129` (records and the data phase of the encoders),
`130–263` (the client's handshake flights), `312–368` (`server_encode`) and `370–416`
(`client_decode`). A block that is overrun makes the result `none`.
-/

namespace OpenWrtCompile.Obfs
open OpenWrtCompile.Base

/-- `tls12_ticket_auth_pack_data`: one record. -/
def packData (data : Bytes) : Bytes := [0x17, 0x03, 0x03] ++ bytes16 data.length ++ data

/-- A call of an encoder: the bytes, the draws of `xorshift128plus`, the bytes of `rand_bytes` with
those of unset memory behind them, and the clock. -/
structure Call where
  data : Bytes
  draw : Nat → UInt64
  rand : Nat → UInt8
  now : Nat

/-- The random bytes from the `off`-th on. -/
def Call.randBytes (c : Call) (off len : Nat) : Bytes := (List.range len).map fun i ↦ c.rand (off + i)

/-- A record behind the bytes in `out_buffer`; `none` where it does not fit. -/
def putRecord (size : Nat) (out record : Bytes) : Option Bytes :=
  if out.length + record.length ≤ size then some (out ++ record) else none

/-- `xorshift128plus() % 4096 + 100`, at most what is left. -/
def recordLength (draw : UInt64) (left : Nat) : Nat := min ((draw % 4096).toNat + 100) left

/-- The loop that cuts a message into records, `k` being the number of draws so far. Each pass takes
some bytes, so `fuel` above their number is enough. -/
def recordLoop (draw : Nat → UInt64) (size : Nat) : Nat → Nat → Bytes → Bytes → Option Bytes
  | 0, _, out, _ => some out
  | fuel + 1, k, out, data =>
    if 2048 < data.length then do
      let len := recordLength (draw k) data.length
      let out' ← putRecord size out (packData (data.take len))
      recordLoop draw size fuel (k + 1) out' (data.drop len)
    else if 0 < data.length then putRecord size out (packData data)
    else some out

/-- The encoders with `handshake_status == 8`; `none` where `out_buffer` is overrun. -/
def dataEncode (c : Call) : Option Bytes :=
  if c.data.length < 1024 then some (packData c.data)
  else recordLoop c.draw (c.data.length + 2048) (c.data.length + 1) 0 [] c.data

/-- The loop over records that the two decoders share: what is left of `recv_buffer`, the output so
far and the capacity. `good` is the check of a header, `grow` the capacity for a record, from the
capacity, the number of pending bytes, of those put out, and the record's size. -/
def recordsLoop (good : Bytes → Bool) (grow : Nat → Nat → Nat → Nat → Nat) :
    Nat → Bytes → Bytes → Nat → Bytes × Option Bytes × Nat
  | 0, recv, out, capacity => (recv, some out, capacity)
  | fuel + 1, recv, out, capacity =>
    if 5 < recv.length then
      if !good recv then (recv, none, capacity)
      else
        let size := be16 recv 3
        if recv.length < size + 5 then (recv, some out, capacity)
        else
          recordsLoop good grow fuel (recv.drop (5 + size)) (out ++ window recv 5 size)
            (grow capacity recv.length out.length size)
    else (recv, some out, capacity)

/-- The header the client takes: it looks at the first byte alone. -/
def clientHeader (b : Bytes) : Bool := byteAt b 0 = 0x17

/-- The loop of the client. -/
def clientDecodeRecords : Nat → Bytes → Bytes → Nat → Bytes × Option Bytes × Nat :=
  recordsLoop clientHeader fun capacity _ put size ↦
    if capacity < put + size then (put + size) * 2 else capacity

/-- `tls12_ticket_auth_client_decode` with `handshake_status == 8`. -/
def clientDecodeData (l : LocalData) (g : GlobalData) (data : Bytes) (capacity : Nat) : Decoded :=
  let recv := l.recvBuffer ++ data
  let r := clientDecodeRecords (recv.length + 1) recv [] capacity
  ⟨{ l with recvBuffer := r.1 }, g, r.2.1, r.2.2, false⟩

/-- `tls12_ticket_auth_client_decode`: `n` bytes were received into the block `mem`. Before the
handshake is over it checks the HMAC of the ServerHello and leaves its data alone. -/
def clientDecode (hmac : Bytes → Bytes → Bytes) (info : ServerInfo) (l : LocalData) (g : GlobalData)
    (mem : Bytes) (n : Nat) : Decoded :=
  match l.handshakeStatus with
  | .done => clientDecodeData l g (mem.take n) mem.length
  | _ =>
    if n < 11 + 32 + 1 + 32 then ⟨l, g, none, mem.length, false⟩
    else if window mem 33 obfsHmacSha1Len ≠
        (hmac (info.key ++ g.localClientId) (window mem 11 22)).take obfsHmacSha1Len then
      ⟨l, g, none, mem.length, false⟩
    else ⟨l, g, some [], mem.length, true⟩

/-! ## The handshake flights -/

/-- `tls_data0`. -/
def tlsData0 : Bytes :=
  [0x00, 0x1C, 0xC0, 0x2B, 0xC0, 0x2F, 0xCC, 0xA9, 0xCC, 0xA8, 0xCC, 0x14, 0xCC, 0x13, 0xC0, 0x0A,
    0xC0, 0x14, 0xC0, 0x09, 0xC0, 0x13, 0x00, 0x9C, 0x00, 0x35, 0x00, 0x2F, 0x00, 0x0A, 0x01, 0x00]

/-- `tls_data1`. -/
def tlsData1 : Bytes := [0xFF, 0x01, 0x00, 0x01, 0x00]

/-- `tls_data2`. -/
def tlsData2 : Bytes := [0x00, 0x17, 0x00, 0x00, 0x00, 0x23, 0x00, 0xD0]

/-- `tls_data3`. -/
def tlsData3 : Bytes :=
  [0x00, 0x0D, 0x00, 0x16, 0x00, 0x14, 0x06, 0x01, 0x06, 0x03, 0x05, 0x01, 0x05, 0x03, 0x04, 0x01,
    0x04, 0x03, 0x03, 0x01, 0x03, 0x03, 0x02, 0x01, 0x02, 0x03, 0x00, 0x05, 0x00, 0x05, 0x01, 0x00,
    0x00, 0x00, 0x00, 0x00, 0x12, 0x00, 0x00, 0x75, 0x50, 0x00, 0x00, 0x00, 0x0B, 0x00, 0x02, 0x01,
    0x00, 0x00, 0x0A, 0x00, 0x06, 0x00, 0x04, 0x00, 0x17, 0x00, 0x18]

/-- `server.param`, or `server.host` without one; an empty `param` counts as none. -/
def hostsText (info : ServerInfo) (host : Bytes) : Bytes :=
  match info.param with
  | none => cString host 0
  | some p => if cString p 0 = [] then cString host 0 else cString p 0

/-- What follows each comma. -/
def afterCommas : Bytes → List Bytes
  | [] => []
  | c :: t => if c = 0x2C then t :: afterCommas t else afterCommas t

/-- `phost`: each host, with all that follows it. -/
def phost (hosts : Bytes) : List Bytes := hosts :: afterCommas hosts

/-- The host that a draw chooses. -/
def chosenHost (hosts : Bytes) (draw : UInt64) : Bytes :=
  (phost hosts)[draw.toNat % (phost hosts).length]?.getD []

/-- `hosts`, `phost` and `sni` have room: 1024 bytes, 128 hosts and 256 bytes. -/
def hostFits (hosts : Bytes) (draw : UInt64) : Bool :=
  hosts.length < 1024 && (phost hosts).length ≤ 128 && (chosenHost hosts draw).length < 256

/-- The server name: the chosen host, or nothing where it ends with a digit. -/
def serverName (hosts : Bytes) (draw : UInt64) : Bytes :=
  if (chosenHost hosts draw).getLast?.any fun c ↦ 0x30 ≤ c && c ≤ 0x39 then []
  else chosenHost hosts draw

/-- `tls_data`: the extensions of the ClientHello. -/
def tlsData (sni rand : Bytes) : Bytes :=
  tlsData1 ++ [0, 0] ++ bytes16 (sni.length + 5) ++ bytes16 (sni.length + 3) ++ [0] ++
    bytes16 sni.length ++ sni ++ tlsData2 ++ rand ++ tlsData3

/-- The ClientHello from its version on. -/
def helloBody (auth clientId ext : Bytes) : Bytes :=
  [0x03, 0x03] ++ auth ++ [0x20] ++ clientId ++ tlsData0 ++ bytes16 ext.length ++ ext

/-- Record header and message header in front of it. -/
def wrapHello (body : Bytes) : Bytes :=
  [0x16, 0x03, 0x01] ++ bytes16 (body.length + 4) ++ [0x01, 0x00] ++ bytes16 body.length ++ body

/-- The ClientHello flight. -/
def clientHello (hmac : Bytes → Bytes → Bytes) (info : ServerInfo) (host : Bytes) (g : GlobalData)
    (c : Call) : Option Bytes :=
  let hosts := hostsText info host
  if hostFits hosts (c.draw 0) then
    some (wrapHello (helloBody (packAuthData hmac info g c.now (c.randBytes 208 18)) g.localClientId
      (tlsData (serverName hosts (c.draw 0)) (c.randBytes 0 208))))
  else none

/-- The ChangeCipherSpec and Finished messages of the client. -/
def finishedHead (rand : Bytes) : Bytes :=
  [0x14, 0x03, 0x03, 0x00, 0x01, 0x01] ++ [0x16, 0x03, 0x03, 0x00, 0x20] ++ rand

/-- The last flight of the client: the Finished message with its HMAC, and what was queued. -/
def clientFinished (hmac : Bytes → Bytes → Bytes) (info : ServerInfo) (g : GlobalData)
    (rand queued : Bytes) : Bytes :=
  finishedHead rand ++
    (hmac (info.key ++ g.localClientId) (finishedHead rand)).take obfsHmacSha1Len ++ queued

/-- `tls12_ticket_auth_client_encode`. Before the handshake is over every call queues its data, as a
record; the first one then sends the ClientHello, and a later one without data the last flight. -/
def clientEncode (hmac : Bytes → Bytes → Bytes) (info : ServerInfo) (host : Bytes) (g : GlobalData)
    (l : LocalData) (c : Call) : Option (LocalData × Bytes) :=
  if l.handshakeStatus = .done then (dataEncode c).map (Prod.mk l)
  else
    let queued := l.sendBuffer ++ packData c.data
    if l.handshakeStatus = .start then
      (clientHello hmac info host g c).map
        (Prod.mk { l with sendBuffer := queued, handshakeStatus := .clientHelloSent })
    else if c.data = [] then
      some ({ l with sendBuffer := [], handshakeStatus := .done },
        clientFinished hmac info g (c.randBytes 0 22) queued)
    else some ({ l with sendBuffer := queued }, [])

/-- `tls12_ticket_auth_server_encode`. -/
def serverEncode (hmac : Bytes → Bytes → Bytes) (info : ServerInfo) (g : GlobalData)
    (l : LocalData) (c : Call) : Option (LocalData × Bytes) :=
  if l.handshakeStatus = .done then (dataEncode c).map (Prod.mk l)
  else
    some (serverHello hmac info l g c.now (c.randBytes 0 18) (c.randBytes 18 22)
      (c.randBytes 40 10))

end OpenWrtCompile.Obfs
