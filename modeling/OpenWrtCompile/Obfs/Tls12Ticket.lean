import OpenWrtCompile.Base.Bytes

/-!
# The server side of `tls1.2_ticket_auth`

`shadowsocksr-libev/src/server/tls1.2_ticket.c` (`init_data`, `new_obfs`, the handshake answer of
`server_encode`, `server_decode`) and the list of used ids in `list.c`. The HMAC, the clock and the
random bytes are parameters. `char` is signed, and what is read behind the received bytes comes from
the rest of the block `mem` they stand in.
-/

namespace OpenWrtCompile.Obfs
open OpenWrtCompile.Base

/-- `OBFS_HMAC_SHA1_LEN`. -/
def obfsHmacSha1Len : Nat := 10

/-- `handshake_status`: 0, 1 and 2 before the answer of the server, then 3 and 8. -/
inductive HandshakeStatus where
  | start
  | clientHelloSent
  | clientHello
  | serverHello
  | done
  deriving DecidableEq, Repr

/-- `tls12_ticket_auth_local_data`; the sizes are the lengths of the buffers. -/
structure LocalData where
  handshakeStatus : HandshakeStatus
  sendBuffer : Bytes
  recvBuffer : Bytes
  deriving DecidableEq, Repr

/-- `tls12_ticket_auth_global_data`. -/
structure GlobalData where
  localClientId : Bytes
  clientData : List Bytes
  startupTime : Int
  deriving DecidableEq, Repr

/-- The part of `server_info` that the plugin reads. -/
structure ServerInfo where
  key : Bytes
  param : Option Bytes
  deriving DecidableEq, Repr

/-- `tls12_ticket_auth_local_data_init`. -/
def localDataInit : LocalData := ⟨.start, [], []⟩

/-- `tls12_ticket_auth_init_data`: `clientId` is what `rand_bytes` gave. -/
def initData (clientId : Bytes) (now : Int) : GlobalData := ⟨clientId, [], now⟩

/-- `list_have_same_cmp`: `memcmp` is nonzero for some element. -/
def listHaveSameCmp (l : List Bytes) (data : Bytes) : Bool := l.any fun d ↦ d ≠ data

/-- `list_add_back`. -/
def listAddBack (l : List Bytes) (data : Bytes) : List Bytes := l ++ [data]

/-- `mem[i]`. -/
def byteAt (mem : Bytes) (i : Nat) : UInt8 := mem[i]?.getD 0

/-- A big-endian 16-bit number at `i`. -/
def be16 (mem : Bytes) (i : Nat) : Nat := (byteAt mem i).toNat * 256 + (byteAt mem (i + 1)).toNat

/-- `atoi`, for a value that fits an `int`. -/
def atoi (s : Bytes) : Int :=
  let digits (t : Bytes) : Int :=
    (t.takeWhile fun c ↦ 0x30 ≤ c && c ≤ 0x39).foldl (fun n c ↦ n * 10 + (c.toNat - 48)) 0
  match s.dropWhile fun c ↦ c = 0x20 || (0x09 ≤ c && c ≤ 0x0D) with
  | 0x2D :: t => -digits t
  | 0x2B :: t => digits t
  | t => digits t

/-- `max_time_dif`; an empty `param` counts as none. -/
def maxTimeDif (param : Option Bytes) : Int :=
  match param with
  | none => 0
  | some [] => 0
  | some p => atoi p

/-- The 22 bytes of a ClientHello that `client_data` remembers. -/
def verifyId (mem : Bytes) : Bytes := window mem 11 22

/-- `utc_time`, the first four bytes of the verify id as a signed 32-bit number. -/
def utcTime (mem : Bytes) : Int :=
  Int.bmod ((be16 mem 11 * 65536 + be16 mem 13 : Nat) : Int) (2 ^ 32)

/-- `sessionid_len`, a signed `char`. -/
def sessionidLen (mem : Bytes) : Int := (byteAt mem 43).toInt8.toInt

/-- The checks up to the TLS version: record and message header with sizes that match. -/
def helloFormat (mem : Bytes) (n : Nat) : Bool :=
  byteAt mem 0 = 0x16 && byteAt mem 1 = 0x03 && byteAt mem 2 = 0x01 && be16 mem 3 + 5 = n &&
    byteAt mem 5 = 0x01 && byteAt mem 6 = 0x00 && be16 mem 7 + 9 = n &&
      byteAt mem 9 = 0x03 && byteAt mem 10 = 0x03

/-- The time check; it is off without a positive `max_time_dif`. -/
def acceptableTime (info : ServerInfo) (startupTime now : Int) (mem : Bytes) : Bool :=
  let maxDif := maxTimeDif info.param
  let timeDif := Int.bmod (utcTime mem - now) (2 ^ 32)
  !(0 < maxDif && (timeDif < -maxDif || maxDif < timeDif ||
    utcTime mem - startupTime < Int.tdiv (-maxDif) 2))

/-- The HMAC check of a ClientHello, under the key and the session id it carries. -/
def helloHmac (hmac : Bytes → Bytes → Bytes) (info : ServerInfo) (mem : Bytes) : Bool :=
  window mem 33 obfsHmacSha1Len =
    (hmac (info.key ++ window mem 44 (sessionidLen mem).toNat) (verifyId mem)).take obfsHmacSha1Len

/-- What `server_decode` leaves: the plugin's data, the output (`none` for the return value -1), the
capacity of the block and `*needsendback`. -/
structure Decoded where
  localData : LocalData
  global : GlobalData
  output : Option Bytes
  capacity : Nat
  needsendback : Bool
  deriving DecidableEq, Repr

/-- The loop over TLS records: what is left of `recv_buffer`, the output so far and the capacity.
Each pass takes five bytes at least, so `fuel` above the length of `recv` is enough. -/
def decodeRecords : Nat → Bytes → Bytes → Nat → Bytes × Option Bytes × Nat
  | 0, recv, out, capacity => (recv, some out, capacity)
  | fuel + 1, recv, out, capacity =>
    if 5 < recv.length then
      if byteAt recv 0 ≠ 0x17 || byteAt recv 1 ≠ 0x03 || byteAt recv 2 ≠ 0x03 then
        (recv, none, capacity)
      else
        let size := be16 recv 3
        if recv.length < size + 5 then (recv, some out, capacity)
        else
          let capacity :=
            if capacity < recv.length + size then (recv.length + size) * 2 else capacity
          decodeRecords fuel (recv.drop (5 + size)) (out ++ window recv 5 size) capacity
    else (recv, some out, capacity)

/-- `server_decode` with `handshake_status == 8`. -/
def decodeData (l : LocalData) (g : GlobalData) (data : Bytes) (capacity : Nat) : Decoded :=
  let recv := l.recvBuffer ++ data
  let r := decodeRecords (recv.length + 1) recv [] capacity
  ⟨{ l with recvBuffer := r.1 }, g, r.2.1, r.2.2, false⟩

/-- `server_decode` with `handshake_status == 3`. -/
def decodeFinished (hmac : Bytes → Bytes → Bytes) (info : ServerInfo) (l : LocalData)
    (g : GlobalData) (mem : Bytes) (n : Nat) : Decoded :=
  if n < 43 || mem.take 6 ≠ [0x14, 0x03, 0x03, 0x00, 0x01, 0x01] ||
      window mem 6 5 ≠ [0x16, 0x03, 0x03, 0x00, 0x20] ||
      window mem 33 obfsHmacSha1Len ≠
        (hmac (info.key ++ g.localClientId) (mem.take 33)).take obfsHmacSha1Len then
    ⟨l, g, none, mem.length, false⟩
  else
    decodeData { l with recvBuffer := window mem 43 (n - 43), handshakeStatus := .done } g []
      mem.length

/-- `server_decode` while a ClientHello is awaited. The result is `none` when more than 32 bytes are
copied into `local_client_id`: what the program does from there on is undefined. -/
def decodeHello (hmac : Bytes → Bytes → Bytes) (info : ServerInfo) (now : Int) (l : LocalData)
    (g : GlobalData) (mem : Bytes) (n : Nat) : Option Decoded :=
  let l := { l with handshakeStatus := .clientHello }
  if !helloFormat mem n then some ⟨l, g, none, mem.length, false⟩
  else if sessionidLen mem < 32 then some ⟨l, g, none, mem.length, false⟩
  else if 32 < sessionidLen mem then none
  else
    let g := { g with localClientId := window mem 44 (sessionidLen mem).toNat }
    if !acceptableTime info g.startupTime now mem then some ⟨l, g, none, mem.length, false⟩
    else if !helloHmac hmac info mem then some ⟨l, g, none, mem.length, false⟩
    else if listHaveSameCmp g.clientData (verifyId mem) then
      some ⟨l, g, none, mem.length, false⟩
    else
      some ⟨l, { g with clientData := listAddBack g.clientData (verifyId mem) }, some [],
        mem.length, true⟩

/-- `tls12_ticket_auth_server_decode`: `n` bytes were received into the block `mem`. -/
def serverDecode (hmac : Bytes → Bytes → Bytes) (info : ServerInfo) (now : Int) (l : LocalData)
    (g : GlobalData) (mem : Bytes) (n : Nat) : Option Decoded :=
  match l.handshakeStatus with
  | .done => some (decodeData l g (mem.take n) mem.length)
  | .serverHello => some (decodeFinished hmac info l g mem n)
  | _ => decodeHello hmac info now l g mem n

/-- `tls12_ticket_pack_auth_data`: the time, 18 random bytes and the HMAC. -/
def packAuthData (hmac : Bytes → Bytes → Bytes) (info : ServerInfo) (g : GlobalData) (now : Nat)
    (rand : Bytes) : Bytes :=
  let msg := [now / 16777216, now / 65536, now / 256, now].map UInt8.ofNat ++ rand
  msg ++ (hmac (info.key ++ g.localClientId) msg).take obfsHmacSha1Len

/-- `tls12_ticket_auth_server_encode` before the handshake is over: the ServerHello flight. `rand`
and `rand'` are the two draws of random bytes, `mem` the last ten bytes of the unset block, which go
into the HMAC as they are. -/
def serverHello (hmac : Bytes → Bytes → Bytes) (info : ServerInfo) (l : LocalData) (g : GlobalData)
    (now : Nat) (rand rand' mem : Bytes) : LocalData × Bytes :=
  let msg := [0x16, 0x03, 0x03, 0x00, 0x51, 0x02, 0x00, 0x00, 0x4D, 0x03, 0x03] ++
    packAuthData hmac info g now rand ++ [0x20] ++ g.localClientId ++
    [0xC0, 0x2F, 0x00, 0x00, 0x05, 0xFF, 0x01, 0x00, 0x01, 0x00] ++
    [0x14, 0x03, 0x03, 0x00, 0x01, 0x01, 0x16, 0x03, 0x03, 0x00, 0x20] ++ rand'
  ({ l with handshakeStatus := .serverHello },
    msg ++ (hmac (info.key ++ g.localClientId) (msg ++ mem)).take obfsHmacSha1Len)

/-- An id passes the list when every stored id is that same id: the sense of `memcmp` is inverted. -/
theorem listHaveSameCmp_eq_false_iff (l : List Bytes) (data : Bytes) :
    listHaveSameCmp l data = false ↔ ∀ d ∈ l, d = data := by
  simp [listHaveSameCmp]

/-- An empty list lets every id pass. -/
@[simp] theorem listHaveSameCmp_nil (data : Bytes) : listHaveSameCmp [] data = false := by
  rw [listHaveSameCmp_eq_false_iff]
  simp

/-- Records are decoded without touching the list of used ids, and nothing is sent back. -/
theorem decodeFinished_keeps (hmac : Bytes → Bytes → Bytes) (info : ServerInfo) (l : LocalData)
    (g : GlobalData) (mem : Bytes) (n : Nat) (hl : l.handshakeStatus = .serverHello) :
    (decodeFinished hmac info l g mem n).needsendback = false ∧
      ((decodeFinished hmac info l g mem n).localData.handshakeStatus = .serverHello ∨
        (decodeFinished hmac info l g mem n).localData.handshakeStatus = .done) := by
  unfold decodeFinished
  split
  · exact ⟨rfl, .inl hl⟩
  · exact ⟨rfl, .inr rfl⟩

/-- A ClientHello whose session id runs over the 32 bytes of `local_client_id`. -/
def helloOverruns (mem : Bytes) (n : Nat) : Bool := helloFormat mem n && decide (32 < sessionidLen mem)

/-- A ClientHello with an acceptable time and a correct HMAC. -/
def validHello (hmac : Bytes → Bytes → Bytes) (info : ServerInfo) (startupTime now : Int)
    (mem : Bytes) (n : Nat) : Bool :=
  helloFormat mem n && decide (32 ≤ sessionidLen mem) &&
    acceptableTime info startupTime now mem && helloHmac hmac info mem

/-- Where a ClientHello is awaited, memory is overrun, or the message is a valid ClientHello whose
id is not found and is stored, or it takes the error path. -/
theorem decodeHello_cases (hmac : Bytes → Bytes → Bytes) (info : ServerInfo) (now : Int)
    (l : LocalData) (g : GlobalData) (mem : Bytes) (n : Nat) :
    (helloOverruns mem n = true ∧ decodeHello hmac info now l g mem n = none) ∨
      (helloOverruns mem n = false ∧ (validHello hmac info g.startupTime now mem n = true ∧
          listHaveSameCmp g.clientData (verifyId mem) = false) ∧
        ∃ d, decodeHello hmac info now l g mem n = some d ∧ d.needsendback = true ∧
          d.output = some []) ∨
      (helloOverruns mem n = false ∧ ¬ (validHello hmac info g.startupTime now mem n = true ∧
          listHaveSameCmp g.clientData (verifyId mem) = false) ∧
        ∃ d, decodeHello hmac info now l g mem n = some d ∧ d.needsendback = false ∧
          d.output = none ∧ d.global.clientData = g.clientData) := by
  unfold decodeHello helloOverruns validHello
  cases hf : helloFormat mem n with
  | false => simp
  | true =>
    by_cases hshort : sessionidLen mem < 32
    · simp [hshort, Int.not_le.mpr hshort, Int.le_of_lt hshort]
    · by_cases hlong : 32 < sessionidLen mem
      · simp [hshort, hlong]
      · have h32 : sessionidLen mem = 32 := by omega
        cases ht : acceptableTime info g.startupTime now mem with
        | false => simp [h32, ht]
        | true =>
          cases hh : helloHmac hmac info mem with
          | false => simp [h32, ht]
          | true =>
            cases hs : listHaveSameCmp g.clientData (verifyId mem) with
            | false => simp [h32, ht, hs]
            | true => simp [h32, ht, hs]

end OpenWrtCompile.Obfs
