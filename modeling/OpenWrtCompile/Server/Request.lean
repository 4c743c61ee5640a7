import OpenWrtCompile.Server.Buffer

/-!
# The request header

`shadowsocksr-libev/src/server/server.c:227–285` (`parse_header_len`, `is_header_complete`), the
`STAGE_PARSE` branch of `server_recv_cb` (`server.c:833–1033`) and `netutils.c:262–297`
(`validate_hostname`). A header is the address type, the address, the port and, with one-time
authentication, a truncated HMAC.
-/

namespace OpenWrtCompile.Server
open OpenWrtCompile.Base

/-- `ONETIMEAUTH_FLAG`. -/
def onetimeauthFlag : UInt8 := 0x10

/-- `ADDRTYPE_MASK`. -/
def addrtypeMask : UInt8 := 0xEF

/-- `ONETIMEAUTH_BYTES`. -/
def onetimeauthBytes : Nat := 10

/-- The two values of `sa_family` a request can name. -/
inductive Family where
  | inet
  | inet6
  deriving DecidableEq, Repr

/-- `auth || (atyp & ONETIMEAUTH_FLAG)`. -/
def wantsAuth (auth : Bool) (atyp : UInt8) : Bool := auth || (atyp &&& onetimeauthFlag) != 0

/-- `parse_header_len`: the address and port bytes after `offset`, or 0 for an unknown type. -/
def parseHeaderLen (atyp : UInt8) (buf : Buffer) (offset : Nat) : Nat :=
  if atyp &&& addrtypeMask = 1 then 4 + 2
  else if atyp &&& addrtypeMask = 3 then (buf.byte offset).toNat + 1 + 2
  else if atyp &&& addrtypeMask = 4 then 16 + 2
  else 0

/-- The results 1, 0 and -1 of `is_header_complete`. -/
inductive Completeness where
  | complete
  | incomplete
  | invalid
  deriving DecidableEq, Repr

/-- `buf_len >= header_len ? 1 : 0`, after the optional HMAC has been added. -/
def checkLength (auth : Bool) (buf : Buffer) (headerLen : Nat) : Completeness :=
  if headerLen + (if wantsAuth auth (buf.byte 0) then onetimeauthBytes else 0) ≤ buf.len then
    .complete
  else .incomplete

/-- `is_header_complete`. -/
def isHeaderComplete (auth : Bool) (buf : Buffer) : Completeness :=
  if buf.byte 0 &&& addrtypeMask = 1 then checkLength auth buf (1 + 4 + 2)
  else if buf.byte 0 &&& addrtypeMask = 3 then
    if buf.len < 1 + 1 then .incomplete
    else checkLength auth buf (1 + ((buf.byte 1).toNat + 1) + 2)
  else if buf.byte 0 &&& addrtypeMask = 4 then checkLength auth buf (1 + 16 + 2)
  else .invalid

/-- The address field that belongs to an address type: four bytes, a counted name of 1 to 255
bytes, or sixteen bytes. -/
inductive AddressField (atyp : UInt8) : Bytes → Prop where
  | ipv4 (addr : Bytes) (type : atyp &&& addrtypeMask = 1) (length : addr.length = 4) :
    AddressField atyp addr
  | name (n : UInt8) (name : Bytes) (type : atyp &&& addrtypeMask = 3) (pos : 0 < n.toNat)
    (length : name.length = n.toNat) : AddressField atyp (n :: name)
  | ipv6 (addr : Bytes) (type : atyp &&& addrtypeMask = 4) (length : addr.length = 16) :
    AddressField atyp addr

/-- One whole request header on the wire, with the HMAC exactly when one is due. -/
inductive IsHeader (auth : Bool) : Bytes → Prop where
  | mk (atyp : UInt8) (addr port tag : Bytes) (field : AddressField atyp addr)
    (port_length : port.length = 2)
    (tag_length : tag.length = if wantsAuth auth atyp then onetimeauthBytes else 0) :
    IsHeader auth (atyp :: (addr ++ port ++ tag))

/-- The letters of `valid_label_bytes`. -/
def validLabelByte (c : UInt8) : Bool :=
  (0x61 ≤ c && c ≤ 0x7A) || (0x41 ≤ c && c ≤ 0x5A) || (0x30 ≤ c && c ≤ 0x39) || c = 0x2D || c = 0x5F

/-- The loop of `validate_hostname` over the labels, `label` being the offset of the current one.
Each pass moves it forward, so `fuel` above the name's length is enough. -/
def validateLabels (host : Bytes) (n : Nat) : Nat → Nat → Bool
  | 0, _ => false
  | fuel + 1, label =>
    if label < n then
      let labelLen := match (cString host label).idxOf? 0x2E with
        | some d => d
        | none => n - label
      if n < label + labelLen then false
      else if 63 < labelLen || labelLen < 1 then false
      else if host[label]?.getD 0 = 0x2D || host[label + labelLen - 1]?.getD 0 = 0x2D then false
      else if ((cString host label).takeWhile validLabelByte).length < labelLen then false
      else validateLabels host n fuel (label + labelLen + 1)
    else true

/-- `validate_hostname`. -/
def validateHostname (host : Bytes) (n : Nat) : Bool :=
  if n < 1 || 255 < n then false
  else if host[0]?.getD 0 = 0x2E then false
  else validateLabels host n (n + 1) 0

/-- What `server_recv_cb` connects to: an address, or a host name to resolve. -/
inductive Target where
  | addr (family : Family) (addr port : Bytes)
  | name (host port : Bytes)
  deriving DecidableEq, Repr

/-- Why a request is dropped before any connection is made. -/
inductive Drop where
  | malformed
  | bad
  | blocked
  deriving DecidableEq, Repr

/-- What the request parser gets from elsewhere: the `auth` option, the HMAC check, the outbound
block list and the literal parsers of libcork and libudns. -/
structure ParseEnv where
  auth : Bool
  /-- `ss_onetimeauth_verify` found a mismatch. -/
  onetimeauthFails : Bytes → Bool
  /-- `acl && outbound_block_match_host(host) == 1`. -/
  outboundBlocked : Bytes → Bool
  /-- `cork_ip_init`, with the version it found. -/
  corkIpInit : Bytes → Option Family
  /-- `dns_pton`. -/
  dnsPton : Family → Bytes → Bytes

/-- Lines 885–903: the HMAC of the header, and the new value of `server->auth`. -/
def checkOnetimeauth (env : ParseEnv) (buf : Buffer) (serverAuth : Bool) : Except Drop Bool :=
  if wantsAuth env.auth (buf.byte 0) then
    let headerLen := parseHeaderLen (buf.byte 0) buf 1
    if headerLen = 0 || buf.len < 1 + headerLen + onetimeauthBytes then .error .malformed
    else if env.onetimeauthFails (buf.array.take (1 + headerLen + onetimeauthBytes)) then
      .error .bad
    else .ok true
  else .ok serverAuth

/-- Lines 905–1003: the remote address, and the offset of the port. -/
def parseTarget (env : ParseEnv) (buf : Buffer) : Except Drop (Target × Nat) :=
  if buf.byte 0 &&& addrtypeMask = 1 then
    if 4 + 3 ≤ buf.len then
      .ok (.addr .inet (window buf.array 1 4) (window buf.array 5 2), 5)
    else .error .malformed
  else if buf.byte 0 &&& addrtypeMask = 3 then
    let nameLen := (buf.byte 1).toNat
    if nameLen + 4 ≤ buf.len then
      -- `host` is zeroed before the name is copied into it
      let host := store (List.replicate 257 0) 0 (window buf.array 2 nameLen)
      let port := window buf.array (2 + nameLen) 2
      if env.outboundBlocked (cString host 0) then .error .blocked
      else match env.corkIpInit (cString host 0) with
        | some f => .ok (.addr f (env.dnsPton f (cString host 0)) port, 2 + nameLen)
        | none =>
          if validateHostname host nameLen then .ok (.name (cString host 0) port, 2 + nameLen)
          else .error .malformed
    else .error .malformed
  else if buf.byte 0 &&& addrtypeMask = 4 then
    if 16 + 3 ≤ buf.len then
      .ok (.addr .inet6 (window buf.array 1 16) (window buf.array 17 2), 17)
    else .error .malformed
  else .error .malformed

/-- A parsed request: the new `server->auth`, the target and the buffer with the header removed. -/
structure Request where
  auth : Bool
  target : Target
  payload : Buffer

/-- The `STAGE_PARSE` branch up to the `memmove` that leaves the payload at the front. -/
def parseRequest (env : ParseEnv) (serverAuth : Bool) (buf : Buffer) : Except Drop Request := do
  let auth ← checkOnetimeauth env buf serverAuth
  let (target, portOffset) ← parseTarget env buf
  let offset := portOffset + 2 + (if auth then onetimeauthBytes else 0)
  if buf.len < offset then .error .malformed
  else
    let rest := window buf.array offset (buf.len - offset)
    .ok ⟨auth, target, (buf.write 0 rest).setLen (buf.len - offset)⟩

/-- Whether the header is complete depends on the bytes in use only. -/
theorem isHeaderComplete_eq_ofBytes (auth : Bool) (buf : Buffer) (hl : buf.len ≤ buf.array.length)
    (hp : 0 < buf.len) : isHeaderComplete auth buf = isHeaderComplete auth (.ofBytes buf.data) := by
  have hlen : (Buffer.ofBytes buf.data).len = buf.len := buf.length_data hl
  have hb (i : Nat) (hi : i < buf.len) : (Buffer.ofBytes buf.data).byte i = buf.byte i := by
    rw [buf.byte_eq_data i hi]
    rfl
  have h0 := hb 0 hp
  by_cases h1 : 1 < buf.len
  · simp only [isHeaderComplete, checkLength, hlen, h0, hb 1 h1]
  · simp only [isHeaderComplete, checkLength, hlen, h0, show buf.len < 1 + 1 by omega, if_true]

/-- On a non-empty part received so far of a header and what follows it, `is_header_complete` tells
exactly whether the whole header is there. -/
theorem isHeaderComplete_of_isHeader {auth : Bool} {h rest p : Bytes} (hh : IsHeader auth h)
    (hne : p ≠ []) (hp : p <+: h ++ rest) :
    isHeaderComplete auth (.ofBytes p) =
      if h.length ≤ p.length then .complete else .incomplete := by
  cases hh with
  | mk atyp addr port tag field hport htag =>
    cases p with
    | nil => exact absurd rfl hne
    | cons a q =>
      rw [List.cons_append, List.cons_prefix_cons] at hp
      rcases hp with ⟨rfl, hq⟩
      have hlen : (Buffer.ofBytes (a :: q)).len = q.length + 1 := rfl
      have hzero : (Buffer.ofBytes (a :: q)).byte 0 = a := rfl
      cases field with
      | ipv4 _ type length =>
        simp only [isHeaderComplete, hzero, type, if_true, checkLength, hlen, List.length_cons,
          List.length_append, length, hport, htag]
        congr 1
        exact propext (by omega)
      | name n name type pos length =>
        have h31 : ¬ (3 : UInt8) = 1 := by decide
        simp only [isHeaderComplete, hzero, type, h31, if_true, if_false, hlen]
        cases q with
        | nil => simp
        | cons b q =>
          rw [List.cons_append, List.cons_append, List.cons_append, List.cons_prefix_cons] at hq
          rcases hq with ⟨rfl, -⟩
          have hlt : ¬ (b :: q).length + 1 < 1 + 1 := by simp only [List.length_cons]; omega
          rw [if_neg hlt]
          simp only [checkLength, hzero, hlen, List.length_cons, List.length_append, length,
            hport, htag, show (Buffer.ofBytes (a :: b :: q)).byte 1 = b from rfl]
          congr 1
          exact propext (by omega)
      | ipv6 _ type length =>
        have h41 : ¬ (4 : UInt8) = 1 := by decide
        have h43 : ¬ (4 : UInt8) = 3 := by decide
        simp only [isHeaderComplete, hzero, type, h41, h43, if_true, if_false, checkLength, hlen,
          List.length_cons, List.length_append, length, hport, htag]
        congr 1
        exact propext (by omega)

/-- A header is at least five bytes long. -/
theorem IsHeader.five_le {auth : Bool} {h : Bytes} (hh : IsHeader auth h) : 5 ≤ h.length := by
  cases hh with
  | mk atyp addr port tag field hport htag =>
    simp only [List.length_cons, List.length_append, hport]
    cases field with
    | ipv4 _ type length => omega
    | name n name type pos length => simp only [List.length_cons]; omega
    | ipv6 _ type length => omega

end OpenWrtCompile.Server
