import OpenWrtCompile.Base.CString
import OpenWrtCompile.Protocol.AuthSha1

/-!
# The frames of a first message

`client_pre_encrypt` of `auth_simple`, `auth_sha1`, `auth_sha1_v2` and `auth_sha1_v4`
(`shadowsocksr-libev/src/server/auth.c:95–170`, `214–288`, `331–425`, `485–583`) with
`get_head_size` (`obfsutil.c:1–12`). The first message of a connection begins with an authenticated
frame, whose size `get_head_size` takes from the address that the plaintext begins with. Whether a
plain `char` is signed, the random draws, the clock and what `malloc` leaves in `out_buffer` are
parameters.
-/

namespace OpenWrtCompile.Protocol.HeadSplit
open OpenWrtCompile.Base OpenWrtCompile.Protocol OpenWrtCompile.Protocol.AuthSha1

/-- `auth_simple_pack_unit_size`. -/
def packUnitSize : Nat := 2000

/-- `OBFS_HMAC_SHA1_LEN`. -/
def obfsHmacSha1Len : Nat := 10

/-- `get_head_size`. -/
def getHeadSize (signed : Bool) (plaindata : Bytes) (defSize : Int) : Int :=
  match plaindata with
  | first :: second :: _ =>
    let headType := first &&& 0x7
    if headType = 1 then 7
    else if headType = 4 then 19
    else if headType = 3 then 4 + plainChar signed second
    else defSize
  | _ => defSize

/-- `head_size` of `client_pre_encrypt`. -/
def headSize (signed : Bool) (plaindata : Bytes) : Int :=
  let headSize := getHeadSize signed plaindata 30
  if plaindata.length < headSize then plaindata.length else headSize

/-! ### The frames -/

/-- `local_client_id`. -/
abbrev ClientId := { id : Bytes // id.length = 8 }

/-- `auth_simple_global_data`. -/
structure GlobalData where
  localClientId : ClientId
  connectionId : UInt32

/-- What a call takes from elsewhere: the draw for each frame, the contents of `out_buffer`, the
time, and what `rand_bytes` gives. -/
structure Outside where
  draw : Nat → UInt64
  mem : Nat → UInt8
  time : UInt32
  freshId : ClientId
  freshConnection : UInt32

/-- The server's key and `ss_sha1_hmac` with it and the IV. -/
structure ServerInfo where
  key : Bytes
  hmac : Bytes → { hash : Bytes // hash.length = 20 }

/-- The arguments of `pack_data` for the frame `k`, which is written at `out_buffer[used]`. -/
def Outside.packet (o : Outside) (k used : Nat) (data : Bytes) : Packet :=
  ⟨data, o.draw k, fun i ↦ o.mem (used + i)⟩

/-- `++global->connection_id`, with new numbers when they run out. -/
def GlobalData.next (o : Outside) (g : GlobalData) : GlobalData :=
  let connectionId := g.connectionId + 1
  if 0xFF000000 < connectionId then ⟨o.freshId, o.freshConnection &&& 0xFFFFFF⟩
  else { g with connectionId := connectionId }

/-- A padding at `outdata[off]` that begins with its length in one byte. -/
def shortPadding (p : Packet) (off randLen : Nat) : Bytes :=
  UInt8.ofNat randLen :: p.unset (off + 1) (randLen - 1)

/-- `(xorshift128plus() & 0xF) + 1`. -/
def randLen16 (p : Packet) : Nat := (p.draw &&& 0xF).toNat + 1

/-- `(xorshift128plus() & 0x7F) + 1`. -/
def randLen128 (p : Packet) : Nat := (p.draw &&& 0x7F).toNat + 1

/-- `pack_data` of the first two plugins, which fill in different checksums. -/
def packShort (fill : Bytes → Bytes) (p : Packet) : Bytes :=
  fill (bytes16 (randLen16 p + p.data.length + 6) ++ shortPadding p 2 (randLen16 p) ++ p.data)

/-- `auth_simple_pack_data`. -/
def authSimplePackData : Packet → Bytes := packShort fillcrc32

/-- `auth_sha1_pack_data`. -/
def authSha1PackData : Packet → Bytes := packShort filladler32

/-- The time and the numbers of client and connection. -/
def timeAndIds (o : Outside) (g : GlobalData) : Bytes :=
  le32 o.time ++ g.localClientId.1.take 4 ++ le32 g.connectionId

/-- A frame with the hash of it. -/
def sign (server : ServerInfo) (frame : Bytes) : Bytes :=
  frame ++ (server.hmac frame).1.take obfsHmacSha1Len

/-- `auth_simple_pack_auth_data`, the connection having been counted. -/
def authSimplePackAuthData (o : Outside) (_ : ServerInfo) (g : GlobalData) (p : Packet) : Bytes :=
  let outSize := randLen16 p + p.data.length + 6 + 12
  fillcrc32 (bytes16 outSize ++ shortPadding p 2 (randLen16 p) ++ timeAndIds o g ++ p.data)

/-- `auth_sha1_pack_auth_data`. -/
def authSha1PackAuthData (o : Outside) (server : ServerInfo) (g : GlobalData) (p : Packet) :
    Bytes :=
  let dataOffset := randLen128 p + 4 + 2
  let outSize := dataOffset + p.data.length + 12 + obfsHmacSha1Len
  sign server (le32 (crc32 server.key) ++ bytes16 outSize ++ shortPadding p 6 (randLen128 p) ++
    timeAndIds o g ++ p.data)

/-- `auth_sha1_v2_pack_auth_data`. -/
def authSha1V2PackAuthData (_ : Outside) (server : ServerInfo) (g : GlobalData) (p : Packet) :
    Bytes :=
  let dataOffset := p.randLen + 4 + 2
  let outSize := dataOffset + p.data.length + 12 + obfsHmacSha1Len
  sign server (le32 (crc32 (ascii "auth_sha1_v2" ++ server.key)) ++ bytes16 outSize ++
    p.padding 6 ++ (g.localClientId.1 ++ le32 g.connectionId) ++ p.data)

/-- `auth_sha1_v4_pack_auth_data`. -/
def authSha1V4PackAuthData (o : Outside) (server : ServerInfo) (g : GlobalData) (p : Packet) :
    Bytes :=
  let dataOffset := p.randLen + 4 + 2
  let outSize := dataOffset + p.data.length + 12 + obfsHmacSha1Len
  let crcSalt := bytes16 outSize ++ ascii "auth_sha1_v4" ++ server.key
  sign server (bytes16 outSize ++ le32 (crc32 crcSalt) ++ p.padding 6 ++ timeAndIds o g ++ p.data)

/-! ### The four functions -/

/-- The data of a plugin that `client_pre_encrypt` uses. -/
structure Obfs where
  globalData : GlobalData
  hasSentHeader : Bool

/-- The loop over the units of a message and the frame of the rest, `k` frames being written and
`used` bytes of `out_buffer`. Each pass takes some bytes, so `fuel` above their number is enough. -/
def packLoop (packData : Packet → Bytes) (o : Outside) : Nat → Nat → Nat → Bytes → List Bytes
  | 0, _, _, _ => []
  | fuel + 1, k, used, data =>
    if packUnitSize < data.length then
      let frame := packData (o.packet k used (data.take packUnitSize))
      frame :: packLoop packData o fuel (k + 1) (used + frame.length) (data.drop packUnitSize)
    else if 0 < data.length then [packData (o.packet k used data)]
    else []

/-- `client_pre_encrypt`: the frames that it writes to `out_buffer`; `none` where it passes a
negative size to `memmove`. -/
def clientPreEncrypt (packAuthData : GlobalData → Packet → Bytes) (packData : Packet → Bytes)
    (signed : Bool) (o : Outside) (self : Obfs) (plaindata : Bytes) :
    Option (Obfs × List Bytes) :=
  let size := headSize signed plaindata
  let globalData := self.globalData.next o
  let frame := packAuthData globalData (o.packet 0 0 (plaindata.take size.toNat))
  if 0 < plaindata.length ∧ self.hasSentHeader = false then
    if size < 0 then none
    else
      some (⟨globalData, true⟩, frame ::
        packLoop packData o (plaindata.length + 1) 1 frame.length (plaindata.drop size.toNat))
  else some (self, packLoop packData o (plaindata.length + 1) 0 0 plaindata)

/-- `auth_simple_client_pre_encrypt`. -/
def authSimpleClientPreEncrypt (server : ServerInfo) (signed : Bool) (o : Outside) :=
  clientPreEncrypt (authSimplePackAuthData o server) authSimplePackData signed o

/-- `auth_sha1_client_pre_encrypt`. -/
def authSha1ClientPreEncrypt (server : ServerInfo) (signed : Bool) (o : Outside) :=
  clientPreEncrypt (authSha1PackAuthData o server) authSha1PackData signed o

/-- `auth_sha1_v2_client_pre_encrypt`. -/
def authSha1V2ClientPreEncrypt (server : ServerInfo) (signed : Bool) (o : Outside) :=
  clientPreEncrypt (authSha1V2PackAuthData o server) authSha1V2PackData signed o

/-- `auth_sha1_v4_client_pre_encrypt`. -/
def authSha1V4ClientPreEncrypt (server : ServerInfo) (signed : Bool) (o : Outside) :=
  clientPreEncrypt (authSha1V4PackAuthData o server) authSha1V4PackData signed o

/-- The four plugins. -/
inductive Plugin where
  | authSimple
  | authSha1
  | authSha1V2
  | authSha1V4
  deriving DecidableEq, Repr

namespace Plugin

/-- `pack_data`. -/
def packData : Plugin → Packet → Bytes
  | authSimple => authSimplePackData
  | authSha1 => authSha1PackData
  | authSha1V2 => authSha1V2PackData
  | authSha1V4 => authSha1V4PackData

/-- `pack_auth_data`. -/
def packAuthData (o : Outside) (server : ServerInfo) : Plugin → GlobalData → Packet → Bytes
  | authSimple => authSimplePackAuthData o server
  | authSha1 => authSha1PackAuthData o server
  | authSha1V2 => authSha1V2PackAuthData o server
  | authSha1V4 => authSha1V4PackAuthData o server

/-- `client_pre_encrypt`. -/
def clientPreEncrypt (server : ServerInfo) (signed : Bool) (o : Outside) :
    Plugin → Obfs → Bytes → Option (Obfs × List Bytes)
  | authSimple => authSimpleClientPreEncrypt server signed o
  | authSha1 => authSha1ClientPreEncrypt server signed o
  | authSha1V2 => authSha1V2ClientPreEncrypt server signed o
  | authSha1V4 => authSha1V4ClientPreEncrypt server signed o

end Plugin

/-! ## What the frames carry -/

/-- What a frame carries: what lies behind the padding at `off` and `skip` bytes more, up to the
last `tail` bytes. -/
def payload (off skip tail : Nat) (frame : Bytes) : Bytes :=
  window frame (dataOffset frame off + skip) (frame.length - (dataOffset frame off + skip) - tail)

namespace Plugin

/-- The payload of a frame of `pack_data`. -/
def dataPayload : Plugin → Bytes → Bytes
  | authSimple | authSha1 => payload 2 0 4
  | authSha1V2 => payload (2 + v2.checkLength) 0 4
  | authSha1V4 => payload (2 + v4.checkLength) 0 4

/-- The payload of a frame of `pack_auth_data`. -/
def authPayload : Plugin → Bytes → Bytes
  | authSimple => payload 2 12 4
  | authSha1 | authSha1V2 | authSha1V4 => payload 6 12 obfsHmacSha1Len

/-- The payloads of the frames of a first message. -/
def payloads (p : Plugin) : List Bytes → List Bytes
  | [] => []
  | frame :: frames => p.authPayload frame :: frames.map p.dataPayload

end Plugin

/-- The pieces of some data: units, and the rest. -/
inductive Pieces : Bytes → List Bytes → Prop where
  | nil : Pieces [] []
  | rest {data : Bytes} (hpos : 0 < data.length) (hle : data.length ≤ packUnitSize) :
      Pieces data [data]
  | unit {piece data : Bytes} {pieces : List Bytes} (hunit : piece.length = packUnitSize)
      (hpos : 0 < data.length) (hrest : Pieces data pieces) : Pieces (piece ++ data) (piece :: pieces)

/-- Together the pieces are the data. -/
theorem Pieces.flatten_eq {data : Bytes} {pieces : List Bytes} (h : Pieces data pieces) :
    pieces.flatten = data := by
  induction h with
  | nil => rfl
  | rest => simp
  | unit _ _ _ ih => rw [List.flatten_cons, ih]

/-- The frames of a first message: one with the head, and one for each piece of what follows it. -/
structure SplitsHead (p : Plugin) (signed : Bool) (plaindata : Bytes) (frames : List Bytes) :
    Prop where
  head_pos : 1 ≤ headSize signed plaindata
  head_le : headSize signed plaindata ≤ plaindata.length
  split : ∃ pieces, Pieces (plaindata.drop (headSize signed plaindata).toNat) pieces ∧
    p.payloads frames = plaindata.take (headSize signed plaindata).toNat :: pieces
  carried : (p.payloads frames).flatten = plaindata

/-- The address is a domain name whose length byte reads as a number below -3. -/
def NegativeLength (signed : Bool) : Bytes → Prop
  | first :: second :: _ =>
    signed = true ∧ first &&& 0x7 = 3 ∧ 128 ≤ second.toNat ∧ second.toNat ≤ 252
  | _ => False

/-! ### Single frames -/

section frames

/-- The payload of a frame in parts. -/
theorem payload_eq {before padding ids data check : Bytes} {off skip tail : Nat}
    (hoff : dataOffset (before ++ (padding ++ (ids ++ (data ++ check)))) off =
      before.length + padding.length) (hskip : ids.length = skip) (htail : check.length = tail) :
    payload off skip tail (before ++ (padding ++ (ids ++ (data ++ check)))) = data := by
  have hstart : (before ++ (padding ++ ids)).length = before.length + padding.length + skip := by
    simp only [List.length_append, hskip, Nat.add_assoc]
  have hsplit : before ++ (padding ++ (ids ++ (data ++ check))) =
      (before ++ (padding ++ ids)) ++ (data ++ check) := by
    simp only [List.append_assoc]
  have hlen : (before ++ (padding ++ (ids ++ (data ++ check)))).length -
      (before.length + padding.length + skip) - tail = data.length := by
    rw [hsplit, List.length_append, hstart, List.length_append]
    omega
  rw [payload, hoff, hlen, window, hsplit, ← hstart, List.drop_left, List.take_left]

/-- A padding whose length is one byte. -/
theorem dataOffset_shortPadding (p : Packet) (before rest : Bytes) {off randLen : Nat}
    (hoff : before.length = off) (hpos : 0 < randLen) (hmax : randLen < 255) :
    dataOffset (before ++ (shortPadding p off randLen ++ rest)) off =
      before.length + (shortPadding p off randLen).length := by
  have hbyte : (before ++ (shortPadding p off randLen ++ rest))[off]? =
      some (UInt8.ofNat randLen) := by
    rw [← hoff, List.getElem?_append_right le_rfl, Nat.sub_self]
    rfl
  have hone : (UInt8.ofNat randLen).toNat = randLen := by
    rw [UInt8.toNat_ofNat']
    omega
  have hlen : (shortPadding p off randLen).length = randLen := by
    simp only [shortPadding, List.length_cons, Packet.unset, List.length_map, List.length_range]
    omega
  rw [dataOffset, hbyte, Option.getD_some, hone, if_pos hmax, hlen]
  omega

/-- A padding of the later versions. -/
theorem dataOffset_longPadding (p : Packet) (before rest : Bytes) {off : Nat}
    (hoff : before.length = off) :
    dataOffset (before ++ (p.padding off ++ rest)) off =
      before.length + (p.padding off).length := by
  rw [dataOffset_padding p before rest hoff, p.length_padding, hoff]

theorem randLen16_spec (p : Packet) : 0 < randLen16 p ∧ randLen16 p ≤ 16 := by
  have h : (p.draw &&& 0xF).toNat ≤ 15 := by
    rw [UInt64.toNat_and]
    exact Nat.and_le_right
  unfold randLen16
  omega

theorem randLen128_spec (p : Packet) : 0 < randLen128 p ∧ randLen128 p ≤ 128 := by
  have h : (p.draw &&& 0x7F).toNat ≤ 127 := by
    rw [UInt64.toNat_and]
    exact Nat.and_le_right
  unfold randLen128
  omega

theorem length_timeAndIds (o : Outside) (g : GlobalData) : (timeAndIds o g).length = 12 := by
  have hid := g.localClientId.2
  simp only [timeAndIds, List.length_append, length_le32, List.length_take, hid]
  omega

theorem length_hash (server : ServerInfo) (frame : Bytes) :
    ((server.hmac frame).1.take obfsHmacSha1Len).length = obfsHmacSha1Len := by
  rw [List.length_take, (server.hmac frame).2]
  rfl

theorem length_sign (server : ServerInfo) (frame : Bytes) :
    (sign server frame).length = frame.length + 10 := by
  rw [sign, List.length_append, length_hash]
  rfl

/-- A frame of `pack_data` of the first two plugins. -/
theorem payload_packShort (fill : Bytes → Bytes) (check : Bytes → UInt32) (p : Packet)
    (hfill : ∀ buffer, fill buffer = buffer ++ le32 (check buffer)) :
    payload 2 0 4 (packShort fill p) = p.data := by
  obtain ⟨hpos, hmax⟩ := randLen16_spec p
  rw [packShort, hfill]
  simp only [List.append_assoc]
  exact payload_eq (dataOffset_shortPadding p _ _ rfl hpos (by omega)) List.length_nil
    (length_le32 _)

/-- A signed frame of `pack_auth_data`. -/
theorem payload_sign {server : ServerInfo} {before padding ids data : Bytes}
    (hids : ids.length = 12)
    (hoff : ∀ rest, dataOffset (before ++ (padding ++ rest)) 6 = before.length + padding.length) :
    payload 6 12 obfsHmacSha1Len (sign server (before ++ padding ++ ids ++ data)) = data := by
  have hhash := length_hash server (before ++ padding ++ ids ++ data)
  rw [sign]
  generalize (server.hmac (before ++ padding ++ ids ++ data)).1.take obfsHmacSha1Len = hash at hhash ⊢
  simp only [List.append_assoc]
  exact payload_eq (hoff _) hids hhash

variable (p : Plugin) (packet : Packet)

/-- A frame of `pack_data` carries its data. -/
theorem Plugin.dataPayload_packData : p.dataPayload (p.packData packet) = packet.data := by
  have hlong (v : Version) :
      payload (2 + v.checkLength) 0 4 (AuthSha1.packData v packet) = packet.data := by
    have hhead := length_frameHead v packet
    rw [packData_eq]
    exact payload_eq (dataOffset_longPadding packet _ _ hhead) List.length_nil (length_le32 _)
  cases p with
  | authSimple => exact payload_packShort fillcrc32 crcRegister packet fun _ ↦ rfl
  | authSha1 => exact payload_packShort filladler32 adler32 packet fun _ ↦ rfl
  | authSha1V2 => exact hlong v2
  | authSha1V4 => exact hlong v4

/-- A frame of `pack_auth_data` carries its data. -/
theorem Plugin.authPayload_packAuthData (o : Outside) (server : ServerInfo) (g : GlobalData) :
    p.authPayload (p.packAuthData o server g packet) = packet.data := by
  cases p with
  | authSimple =>
    obtain ⟨hpos, hmax⟩ := randLen16_spec packet
    simp only [Plugin.authPayload, Plugin.packAuthData, authSimplePackAuthData, fillcrc32,
      List.append_assoc]
    exact payload_eq (dataOffset_shortPadding packet _ _ rfl hpos (by omega))
      (length_timeAndIds o g) (length_le32 _)
  | authSha1 =>
    obtain ⟨hpos, hmax⟩ := randLen128_spec packet
    exact payload_sign (length_timeAndIds o g) fun rest ↦
      dataOffset_shortPadding packet _ rest rfl hpos (by omega)
  | authSha1V2 =>
    have hids : (g.localClientId.1 ++ le32 g.connectionId).length = 12 := by
      rw [List.length_append, g.localClientId.2, length_le32]
    exact payload_sign hids fun rest ↦ dataOffset_longPadding packet _ rest rfl
  | authSha1V4 =>
    exact payload_sign (length_timeAndIds o g) fun rest ↦
      dataOffset_longPadding packet _ rest rfl

end frames

/-! ### A message -/

section messages
variable (p : Plugin) (server : ServerInfo) (signed : Bool) (o : Outside)

/-- The frames of the loop carry the pieces of its data. -/
theorem pieces_packLoop (fuel : Nat) (data : Bytes) (k used : Nat) (h : data.length < fuel) :
    Pieces data ((packLoop p.packData o fuel k used data).map p.dataPayload) := by
  induction fuel generalizing data k used with
  | zero => omega
  | succ fuel ih =>
    rw [packLoop]
    by_cases hlong : packUnitSize < data.length
    · have hunit : (data.take packUnitSize).length = packUnitSize :=
        List.length_take_of_le hlong.le
      have hdrop : (data.drop packUnitSize).length = data.length - packUnitSize :=
        List.length_drop
      have hsize : packUnitSize = 2000 := rfl
      rw [if_pos hlong]
      simp only [List.map_cons, p.dataPayload_packData, Outside.packet]
      have hrest := ih (data.drop packUnitSize) (k + 1)
        (used + (p.packData (o.packet k used (data.take packUnitSize))).length) (by omega)
      have hpieces := Pieces.unit hunit (by omega) hrest
      rwa [List.take_append_drop] at hpieces
    · rw [if_neg hlong]
      by_cases hpos : 0 < data.length
      · rw [if_pos hpos, List.map_singleton, p.dataPayload_packData]
        exact .rest hpos (not_lt.mp hlong)
      · rw [if_neg hpos, List.length_eq_zero_iff.mp (Nat.eq_zero_of_not_pos hpos)]
        exact .nil

/-- A head within the message is not empty unless its size is zero or negative. -/
theorem headSize_pos {plaindata : Bytes} (hne : plaindata ≠ []) :
    1 ≤ headSize signed plaindata ↔ 1 ≤ getHeadSize signed plaindata 30 := by
  have hlen := List.length_pos_iff.mpr hne
  unfold headSize
  simp only
  split
  · omega
  · exact Iff.rfl

/-- The size of the head is zero or negative exactly for such a domain name. -/
theorem getHeadSize_pos (plaindata : Bytes) :
    1 ≤ getHeadSize signed plaindata 30 ↔ ¬ NegativeLength signed plaindata := by
  match plaindata with
  | [] => simp [getHeadSize, NegativeLength]
  | [_] => simp [getHeadSize, NegativeLength]
  | first :: second :: _ =>
    have hbyte := second.toNat_lt
    simp only [getHeadSize, NegativeLength, plainChar]
    by_cases hname : first &&& 0x7 = 3
    · rw [if_neg (by rw [hname]; decide), if_neg (by rw [hname]; decide), if_pos hname]
      cases signed with
      | false => simp; omega
      | true =>
        simp only [Bool.true_and, decide_eq_true_eq, hname, true_and]
        split
        · omega
        · omega
    · simp only [hname, false_and, and_false, not_false_eq_true, iff_true, if_false]
      split
      · decide
      · split
        · decide
        · decide

theorem headSize_le (plaindata : Bytes) : headSize signed plaindata ≤ plaindata.length := by
  unfold headSize
  simp only
  split
  · exact Int.le_refl _
  · omega

/-- A call in terms of the plugin's own frames. -/
theorem clientPreEncrypt_eq (self : Obfs) (plaindata : Bytes) :
    p.clientPreEncrypt server signed o self plaindata =
      HeadSplit.clientPreEncrypt (p.packAuthData o server) p.packData signed o self plaindata := by
  cases p with
  | authSimple => rfl
  | authSha1 => rfl
  | authSha1V2 => rfl
  | authSha1V4 => rfl

/-- A first message whose head has this size. -/
theorem splitsHead_of_pos {plaindata : Bytes} (hne : plaindata ≠ []) (g : GlobalData)
    (hpos : 1 ≤ headSize signed plaindata) :
    ∃ self frames, p.clientPreEncrypt server signed o ⟨g, false⟩ plaindata = some (self, frames) ∧
      SplitsHead p signed plaindata frames := by
  have hlen := List.length_pos_iff.mpr hne
  set size := headSize signed plaindata with hsize
  have hfuel : (plaindata.drop size.toNat).length < plaindata.length + 1 := by
    rw [List.length_drop]
    omega
  have hrest := pieces_packLoop p o _ _ 1
    (p.packAuthData o server (g.next o) (o.packet 0 0 (plaindata.take size.toNat))).length hfuel
  rw [clientPreEncrypt_eq, HeadSplit.clientPreEncrypt]
  simp only [← hsize, hlen, and_self, if_true, show ¬ size < 0 by omega, if_false]
  refine ⟨_, _, rfl, hpos, headSize_le signed plaindata, ⟨_, hrest, ?_⟩, ?_⟩
  · rw [Plugin.payloads, p.authPayload_packAuthData]
    rfl
  · rw [Plugin.payloads, p.authPayload_packAuthData, List.flatten_cons, hrest.flatten_eq]
    exact List.take_append_drop size.toNat plaindata

/-- A message after the first one. -/
theorem pieces_of_sent (g : GlobalData) (plaindata : Bytes) :
    ∃ self frames, p.clientPreEncrypt server signed o ⟨g, true⟩ plaindata = some (self, frames) ∧
      Pieces plaindata (frames.map p.dataPayload) := by
  rw [clientPreEncrypt_eq, HeadSplit.clientPreEncrypt]
  simp only [Bool.true_eq_false, and_false, if_false]
  exact ⟨_, _, rfl, pieces_packLoop p o _ _ 0 0 (Nat.lt_succ_self _)⟩

/-- What `malloc` of `out_buffer` adds to twice the size of the message. -/
def Plugin.room : Plugin → Nat
  | authSimple => 64
  | authSha1 => 256
  | authSha1V2 | authSha1V4 => 4096

/-- What a frame adds to its data at most: that of the first message, and the others. -/
def Plugin.overhead : Plugin → Nat × Nat
  | authSimple => (34, 22)
  | authSha1 => (156, 22)
  | authSha1V2 => (1052, 1030)
  | authSha1V4 => (1052, 1032)

theorem Plugin.length_packData_le (packet : Packet) :
    (p.packData packet).length ≤ packet.data.length + p.overhead.2 := by
  have hshort (fill : Bytes → Bytes) (hfill : ∀ b, (fill b).length = b.length + 4) :
      (packShort fill packet).length ≤ packet.data.length + 22 := by
    obtain ⟨hpos, hmax⟩ := randLen16_spec packet
    simp only [packShort, hfill, bytes16, shortPadding, Packet.unset, List.length_append,
      List.length_cons, List.length_nil, List.length_map, List.length_range]
    omega
  obtain ⟨hpos, hmax, -⟩ := packet.randLen_spec
  cases p with
  | authSimple => exact hshort fillcrc32 length_fillcrc32
  | authSha1 => exact hshort filladler32 length_filladler32
  | authSha1V2 =>
    have hlen : (authSha1V2PackData packet).length = 0 + packet.randLen + packet.data.length + 6 :=
      length_packData v2 packet
    show (authSha1V2PackData packet).length ≤ packet.data.length + 1030
    omega
  | authSha1V4 =>
    have hlen : (authSha1V4PackData packet).length = 2 + packet.randLen + packet.data.length + 6 :=
      length_packData v4 packet
    show (authSha1V4PackData packet).length ≤ packet.data.length + 1032
    omega

theorem Plugin.length_packAuthData_le (g : GlobalData) (packet : Packet) :
    (p.packAuthData o server g packet).length ≤ packet.data.length + p.overhead.1 := by
  obtain ⟨hpos, hmax, -⟩ := packet.randLen_spec
  have hids := length_timeAndIds o g
  have hclient := g.localClientId.2
  cases p with
  | authSimple =>
    obtain ⟨hpos, hmax⟩ := randLen16_spec packet
    simp only [Plugin.packAuthData, authSimplePackAuthData, length_fillcrc32, bytes16, shortPadding,
      Packet.unset, List.length_append, List.length_cons, List.length_nil, List.length_map,
      List.length_range, hids, Plugin.overhead]
    omega
  | authSha1 =>
    obtain ⟨hpos, hmax⟩ := randLen128_spec packet
    simp only [Plugin.packAuthData, authSha1PackAuthData, length_sign, List.length_append,
      length_le32, bytes16, shortPadding, Packet.unset, List.length_cons, List.length_nil,
      List.length_map, List.length_range, hids, obfsHmacSha1Len, Plugin.overhead]
    omega
  | authSha1V2 =>
    simp only [Plugin.packAuthData, authSha1V2PackAuthData, length_sign, List.length_append,
      length_le32, bytes16, packet.length_padding, List.length_cons, List.length_nil, hclient,
      obfsHmacSha1Len, Plugin.overhead]
    omega
  | authSha1V4 =>
    simp only [Plugin.packAuthData, authSha1V4PackAuthData, length_sign, List.length_append,
      length_le32, bytes16, packet.length_padding, List.length_cons, List.length_nil, hids,
      obfsHmacSha1Len, Plugin.overhead]
    omega

theorem length_packLoop_le (fuel : Nat) (data : Bytes) (k used : Nat) :
    (packLoop p.packData o fuel k used data).flatten.length ≤ data.length * 2 + p.overhead.2 := by
  have hover : p.overhead.2 ≤ 2000 := by
    cases p with
    | authSimple | authSha1 | authSha1V2 | authSha1V4 => decide
  induction fuel generalizing data k used with
  | zero => simp [packLoop]
  | succ fuel ih =>
    rw [packLoop]
    split
    · next hlong =>
      have hsize : packUnitSize = 2000 := rfl
      have hunit : (data.take packUnitSize).length = packUnitSize :=
        List.length_take_of_le hlong.le
      have hframe := p.length_packData_le (o.packet k used (data.take packUnitSize))
      have hrest := ih (data.drop packUnitSize) (k + 1)
        (used + (p.packData (o.packet k used (data.take packUnitSize))).length)
      rw [List.length_drop] at hrest
      simp only [Outside.packet] at hframe hrest ⊢
      rw [List.flatten_cons, List.length_append]
      omega
    · split
      · have hframe := p.length_packData_le (o.packet k used data)
        simp only [Outside.packet] at hframe ⊢
        rw [List.flatten_singleton]
        omega
      · simp

/-- The frames have room in `out_buffer`. -/
theorem length_frames_le {self self' : Obfs} {plaindata : Bytes} {frames : List Bytes}
    (h : p.clientPreEncrypt server signed o self plaindata = some (self', frames)) :
    frames.flatten.length ≤ plaindata.length * 2 + p.room := by
  have hroom : p.overhead.1 + p.overhead.2 ≤ p.room := by
    cases p with
    | authSimple | authSha1 | authSha1V2 | authSha1V4 => decide
  rw [clientPreEncrypt_eq, HeadSplit.clientPreEncrypt] at h
  split at h
  · split at h
    · contradiction
    · next hneg =>
      cases h
      have hle := headSize_le signed plaindata
      have hhead := p.length_packAuthData_le server o (self.globalData.next o)
        (o.packet 0 0 (plaindata.take (headSize signed plaindata).toNat))
      have hrest := length_packLoop_le p o (plaindata.length + 1)
        (plaindata.drop (headSize signed plaindata).toNat) 1
        (p.packAuthData o server (self.globalData.next o)
          (o.packet 0 0 (plaindata.take (headSize signed plaindata).toNat))).length
      rw [List.length_drop] at hrest
      simp only [Outside.packet, List.length_take] at hhead hrest ⊢
      rw [List.flatten_cons, List.length_append]
      omega
  · cases h
    exact (length_packLoop_le p o _ _ 0 0).trans (by omega)

/-- A first message is split into a head of at least one byte and the pieces of the rest, all of it
carried in order, exactly when its address is not a domain name with such a length; later messages
are split into pieces. -/
theorem clientPreEncrypt_splitsHead_iff (g : GlobalData) (plaindata : Bytes)
    (hne : plaindata ≠ []) :
    ((∃ self frames,
        p.clientPreEncrypt server signed o ⟨g, false⟩ plaindata = some (self, frames) ∧
          SplitsHead p signed plaindata frames) ↔ ¬ NegativeLength signed plaindata) ∧
    ∃ self frames, p.clientPreEncrypt server signed o ⟨g, true⟩ plaindata = some (self, frames) ∧
      Pieces plaindata (frames.map p.dataPayload) := by
  have hhead : 1 ≤ headSize signed plaindata ↔ ¬ NegativeLength signed plaindata :=
    (headSize_pos signed hne).trans (getHeadSize_pos signed plaindata)
  refine ⟨⟨?_, fun h ↦ splitsHead_of_pos p server signed o hne g (hhead.mpr h)⟩,
    pieces_of_sent p server signed o g plaindata⟩
  rintro ⟨self, frames, -, hsplit⟩
  exact hhead.mp hsplit.head_pos

/-- A connection to port 80 of 1.2.3.4 that sends a byte: the head is the address. -/
theorem clientPreEncrypt_splitsHead_ipv4 :
    let server : ServerInfo := ⟨[], fun _ ↦ ⟨List.replicate 20 0, rfl⟩⟩
    let id : ClientId := ⟨List.replicate 8 0, rfl⟩
    let o : Outside := ⟨fun _ ↦ 0, fun _ ↦ 0, 0, id, 0⟩
    ∃ self frames, Plugin.authSha1V4.clientPreEncrypt server true o ⟨⟨id, 0⟩, false⟩
        [1, 1, 2, 3, 4, 0, 80, 0x47] = some (self, frames) ∧
      SplitsHead .authSha1V4 true [1, 1, 2, 3, 4, 0, 80, 0x47] frames :=
  (clientPreEncrypt_splitsHead_iff .authSha1V4 _ true _ _ [1, 1, 2, 3, 4, 0, 80, 0x47]
    (List.cons_ne_nil _ _)).1.mpr (by simp [NegativeLength])

/-- With a negative head there are no frames. -/
theorem clientPreEncrypt_of_neg (packAuthData : GlobalData → Packet → Bytes)
    (packData : Packet → Bytes) (g : GlobalData) {plaindata : Bytes} (hne : plaindata ≠ [])
    (hneg : headSize signed plaindata < 0) :
    HeadSplit.clientPreEncrypt packAuthData packData signed o ⟨g, false⟩ plaindata = none := by
  rw [HeadSplit.clientPreEncrypt]
  simp only [List.length_pos_iff.mpr hne, and_self, if_true, hneg]

end messages

/-- A connection to a domain name of 200 bytes. -/
def domainOf200 : Bytes := 3 :: 200 :: List.replicate 202 0x61

/-- The head of -52 bytes: none of the four functions gets to its first frame. -/
theorem clientPreEncrypt_undefined_at_domainOf200 :
    let server : ServerInfo := ⟨[], fun _ ↦ ⟨List.replicate 20 0, rfl⟩⟩
    let id : ClientId := ⟨List.replicate 8 0, rfl⟩
    let o : Outside := ⟨fun _ ↦ 0, fun _ ↦ 0, 0, id, 0⟩
    headSize true domainOf200 = -52 ∧
      authSimpleClientPreEncrypt server true o ⟨⟨id, 0⟩, false⟩ domainOf200 = none ∧
      authSha1ClientPreEncrypt server true o ⟨⟨id, 0⟩, false⟩ domainOf200 = none ∧
      authSha1V2ClientPreEncrypt server true o ⟨⟨id, 0⟩, false⟩ domainOf200 = none ∧
      authSha1V4ClientPreEncrypt server true o ⟨⟨id, 0⟩, false⟩ domainOf200 = none := by
  intro server id o
  have hget : getHeadSize true domainOf200 30 = -52 := by decide
  have hsize : headSize true domainOf200 = -52 := by
    rw [headSize, hget]
    exact if_neg (by omega)
  have hneg : headSize true domainOf200 < 0 := by
    rw [hsize]
    decide
  have hne : domainOf200 ≠ [] := List.cons_ne_nil _ _
  exact ⟨hsize, clientPreEncrypt_of_neg true o _ _ _ hne hneg,
    clientPreEncrypt_of_neg true o _ _ _ hne hneg, clientPreEncrypt_of_neg true o _ _ _ hne hneg,
    clientPreEncrypt_of_neg true o _ _ _ hne hneg⟩

end OpenWrtCompile.Protocol.HeadSplit
