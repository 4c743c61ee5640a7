import OpenWrtCompile.Base.Framing
import OpenWrtCompile.Protocol.Checksum

/-!
# Data frames of `auth_sha1_v2` and `auth_sha1_v4`

`shadowsocksr-libev/src/server/auth.c:331–349`, `427–504` and `585–645`: `pack_data` and
`client_post_decrypt` of the two versions. A version differs in what follows the two bytes of the
frame's size. The random draw and the contents of `outdata` before the call are parameters.
-/

namespace OpenWrtCompile.Protocol.AuthSha1
open OpenWrtCompile.Base OpenWrtCompile.Base.Framing OpenWrtCompile.Protocol

/-- What a version writes behind the size, and how it checks that; it accepts what it writes. -/
structure Version where
  sizeCheck : Bytes → Bytes
  checkLength : Nat
  accepts : Bytes → Bool
  length_sizeCheck : ∀ size, (sizeCheck size).length = checkLength
  accepts_sizeCheck : ∀ size rest, size.length = 2 →
    accepts (size ++ sizeCheck size ++ rest) = true

/-- `auth_sha1_v2`: nothing. -/
def v2 : Version where
  sizeCheck _ := []
  checkLength := 0
  accepts _ := true
  length_sizeCheck _ := rfl
  accepts_sizeCheck _ _ _ := rfl

/-- The low half of a CRC, low byte first. -/
def crcLow (size : Bytes) : Bytes := [(crc32 size).toUInt8, (crc32 size >>> 8).toUInt8]

/-- `((recv_buffer[3] << 8) | recv_buffer[2]) == (crc_val & 0xffff)`. -/
def crcLowMatches (b : Bytes) : Bool :=
  word16 (b[3]?.getD 0) (b[2]?.getD 0) = (crc32 (b.take 2) &&& 0xFFFF).toNat

/-- The low half of a CRC is read back. -/
theorem word16_crcLow (c : UInt32) :
    word16 (c >>> 8).toUInt8 c.toUInt8 = (c &&& 0xFFFF).toNat := by
  have hand : (c &&& 0xFFFF).toNat = c.toNat % 65536 := by
    rw [UInt32.toNat_and]
    exact Nat.and_two_pow_sub_one_eq_mod c.toNat 16
  have hshift : (c >>> 8).toNat = c.toNat / 256 := by
    rw [UInt32.toNat_shiftRight]
    exact Nat.shiftRight_eq_div_pow c.toNat 8
  simp only [word16, UInt32.toNat_toUInt8, hand, hshift]
  omega

/-- `auth_sha1_v4`: the low half of the CRC of the size. -/
def v4 : Version where
  sizeCheck := crcLow
  checkLength := 2
  accepts := crcLowMatches
  length_sizeCheck _ := rfl
  accepts_sizeCheck size rest h := by
    match size, h with
    | [high, low], _ => exact decide_eq_true (word16_crcLow (crc32 [high, low]))

/-- One call of `pack_data`: the data, the draw and the contents of `outdata`. -/
structure Packet where
  data : Bytes
  draw : UInt64
  mem : Nat → UInt8

/-- `rand_len`. -/
def Packet.randLen (p : Packet) : Nat :=
  (if 1300 < p.data.length then 0
    else if 400 < p.data.length then (p.draw &&& 0x7F).toNat
    else (p.draw &&& 0x3FF).toNat) + 1

/-- `outdata[off]` to `outdata[off + len - 1]`, left as they were. -/
def Packet.unset (p : Packet) (off len : Nat) : Bytes := (List.range len).map fun i ↦ p.mem (off + i)

/-- The padding at `outdata[off]`, which begins with its length: one byte below 128, else 0xFF and
two bytes. -/
def Packet.padding (p : Packet) (off : Nat) : Bytes :=
  if p.randLen < 128 then UInt8.ofNat p.randLen :: p.unset (off + 1) (p.randLen - 1)
  else 0xFF :: (bytes16 p.randLen ++ p.unset (off + 3) (p.randLen - 3))

/-- `pack_data` of a version. -/
def packData (v : Version) (p : Packet) : Bytes :=
  let size := bytes16 (v.checkLength + p.randLen + p.data.length + 6)
  filladler32 (size ++ v.sizeCheck size ++ p.padding (2 + v.checkLength) ++ p.data)

/-- `auth_sha1_v2_pack_data`. -/
def authSha1V2PackData (p : Packet) : Bytes := packData v2 p

/-- `auth_sha1_v4_pack_data`. -/
def authSha1V4PackData (p : Packet) : Bytes := packData v4 p

/-- The offset of the data behind a padding at `off`. -/
def dataOffset (b : Bytes) (off : Nat) : Nat :=
  if (b[off]?.getD 0).toNat < 255 then (b[off]?.getD 0).toNat + off
  else word16 (b[off + 1]?.getD 0) (b[off + 2]?.getD 0) + off

/-- One pass over `recv_buffer`. The offset of the data comes from the frame and may exceed it. -/
def parse (v : Version) (b : Bytes) : Parsed UInt8 :=
  if b.length ≤ 2 + v.checkLength then .more
  else if !v.accepts b then .bad
  else
    let length := word16 (b[0]?.getD 0) (b[1]?.getD 0)
    if 8192 ≤ length || length < 7 then .bad
    else if b.length < length then .more
    else if !checkadler32 (b.take length) then .bad
    else
      let pos := dataOffset b (2 + v.checkLength)
      if length < pos + 4 then .undefined
      else .frame (window b pos (length - pos - 4)) length

/-- `client_post_decrypt` of a version; of the local data it uses the contents of `recv_buffer`. -/
def clientPostDecrypt (v : Version) (recvBuffer data : Bytes) : Option (Bytes × Option Bytes) :=
  receive 16384 (parse v) recvBuffer data

/-- `auth_sha1_v2_client_post_decrypt`. -/
def authSha1V2ClientPostDecrypt (recvBuffer data : Bytes) : Option (Bytes × Option Bytes) :=
  clientPostDecrypt v2 recvBuffer data

/-- `auth_sha1_v4_client_post_decrypt`. -/
def authSha1V4ClientPostDecrypt (recvBuffer data : Bytes) : Option (Bytes × Option Bytes) :=
  clientPostDecrypt v4 recvBuffer data

/-! ## A frame as the receiver sees it -/

/-- The length of a padding. -/
theorem Packet.randLen_spec (p : Packet) :
    0 < p.randLen ∧ p.randLen ≤ 1024 ∧ (400 < p.data.length → p.randLen ≤ 128) := by
  have h7 : (p.draw &&& 0x7F).toNat ≤ 127 := by
    rw [UInt64.toNat_and]
    exact Nat.and_le_right
  have h3 : (p.draw &&& 0x3FF).toNat ≤ 1023 := by
    rw [UInt64.toNat_and]
    exact Nat.and_le_right
  unfold Packet.randLen
  split
  · omega
  · split
    · omega
    · omega

/-- A padding is as long as it says. -/
theorem Packet.length_padding (p : Packet) (off : Nat) : (p.padding off).length = p.randLen := by
  have hpos := p.randLen_spec.1
  unfold Packet.padding
  split
  · simp only [List.length_cons, Packet.unset, List.length_map, List.length_range]
    omega
  · simp only [List.length_cons, List.length_append, bytes16, List.length_nil, Packet.unset,
      List.length_map, List.length_range]
    omega

/-- The size of a frame. -/
theorem length_packData (v : Version) (p : Packet) :
    (packData v p).length = v.checkLength + p.randLen + p.data.length + 6 := by
  simp only [packData, length_filladler32, List.length_append, v.length_sizeCheck,
    p.length_padding, bytes16, List.length_cons, List.length_nil]
  omega

/-- The data are found behind the padding, in either form of its length. -/
theorem dataOffset_padding (p : Packet) (before rest : Bytes) {off : Nat}
    (hoff : before.length = off) :
    dataOffset (before ++ (p.padding off ++ rest)) off = off + p.randLen := by
  obtain ⟨hpos, hmax, -⟩ := p.randLen_spec
  have hbyte (i : Nat) : (before ++ (p.padding off ++ rest))[off + i]? = (p.padding off ++ rest)[i]? := by
    rw [← hoff, List.getElem?_append_right (Nat.le_add_right _ _), Nat.add_sub_cancel_left]
  have h0 := hbyte 0
  rw [Nat.add_zero] at h0
  rw [dataOffset, h0, hbyte 1, hbyte 2]
  unfold Packet.padding
  by_cases hshort : p.randLen < 128
  · have hone : (UInt8.ofNat p.randLen).toNat = p.randLen := by
      rw [UInt8.toNat_ofNat']
      omega
    simp only [hshort, if_true, List.cons_append, List.getElem?_cons_zero, Option.getD_some, hone]
    rw [if_pos (by omega), Nat.add_comm]
  · simp only [hshort, if_false, List.cons_append, bytes16, List.getElem?_cons_zero,
      List.getElem?_cons_succ, Option.getD_some]
    rw [if_neg (by decide), word16_bytes16 (by omega), Nat.add_comm]

/-- What the receiver sees behind a header that names the length `n`. -/
theorem parse_of_length {v : Version} {b : Bytes} {n : Nat} (hb : 2 + v.checkLength < b.length)
    (haccepts : v.accepts b = true) (hn : word16 (b[0]?.getD 0) (b[1]?.getD 0) = n) (hmin : 7 ≤ n)
    (hmax : n < 8192) :
    parse v b =
      if b.length < n then .more
      else if !checkadler32 (b.take n) then .bad
      else if n < dataOffset b (2 + v.checkLength) + 4 then .undefined
      else .frame (window b (dataOffset b (2 + v.checkLength))
        (n - dataOffset b (2 + v.checkLength) - 4)) n := by
  have hrange : ¬ (8192 ≤ n || n < 7) = true := by
    simp only [Bool.or_eq_true, decide_eq_true_eq]
    omega
  rw [parse, if_neg (by omega), haccepts, hn]
  simp only [Bool.not_true, Bool.false_eq_true, if_false]
  exact if_neg hrange

/-- The size of a frame with what the version writes behind it. -/
def frameHead (v : Version) (p : Packet) : Bytes :=
  bytes16 (packData v p).length ++ v.sizeCheck (bytes16 (packData v p).length)

/-- A frame in parts. -/
theorem packData_eq (v : Version) (p : Packet) :
    packData v p =
      frameHead v p ++ (p.padding (2 + v.checkLength) ++ (p.data ++
        le32 (adler32 (frameHead v p ++ p.padding (2 + v.checkLength) ++ p.data)))) := by
  rw [frameHead, length_packData]
  simp only [packData, filladler32, List.append_assoc]

/-- The size of the head. -/
theorem length_frameHead (v : Version) (p : Packet) :
    (frameHead v p).length = 2 + v.checkLength := by
  rw [frameHead, List.length_append, v.length_sizeCheck]
  rfl

/-- What the receiver sees when a frame's head and at least one more byte have arrived. -/
theorem parse_of_head {v : Version} {p : Packet} {b : Bytes} (hle : p.data.length ≤ 2000)
    (hcheck : v.checkLength ≤ 2) (hb : 2 + v.checkLength < b.length) (hhead : frameHead v p <+: b) :
    parse v b =
      if b.length < (packData v p).length then .more
      else if !checkadler32 (b.take (packData v p).length) then .bad
      else if (packData v p).length < dataOffset b (2 + v.checkLength) + 4 then .undefined
      else .frame (window b (dataOffset b (2 + v.checkLength))
        ((packData v p).length - dataOffset b (2 + v.checkLength) - 4)) (packData v p).length := by
  have hlen := length_packData v p
  obtain ⟨hpos, hmax, hbig⟩ := p.randLen_spec
  have hhlen := length_frameHead v p
  have haccepts : v.accepts b = true := by
    obtain ⟨rest, rfl⟩ := hhead
    exact v.accepts_sizeCheck _ rest rfl
  have hword : word16 (b[0]?.getD 0) (b[1]?.getD 0) = (packData v p).length := by
    rw [← getD_eq_of_start hhead (by omega), ← getD_eq_of_start hhead (by omega)]
    show word16 (UInt8.ofNat ((packData v p).length / 256)) (UInt8.ofNat (packData v p).length) =
      (packData v p).length
    apply word16_bytes16
    omega
  exact parse_of_length hb haccepts hword (by omega) (by omega)

/-- The receiver takes each frame of at most 2000 bytes for what it is. -/
theorem isFrame_packData {v : Version} {p : Packet} (hle : p.data.length ≤ 2000)
    (hcheck : v.checkLength ≤ 2) : IsFrame (parse v) (packData v p, p.data) := by
  have hlen := length_packData v p
  have hhlen := length_frameHead v p
  have hhead : frameHead v p <+: packData v p := by
    rw [packData_eq]
    exact List.prefix_append _ _
  apply @isFrame_of_header _ _ (parse v) _ _ (2 + v.checkLength)
  · omega
  · intro q hq
    exact if_pos hq
  · intro q hq hlong hshort
    have hqhead : frameHead v p <+: q := List.prefix_of_prefix_length_le hhead hq (by omega)
    rw [parse_of_head hle hcheck hlong hqhead, if_pos hshort]
  · intro rest
    have hoff : dataOffset (packData v p ++ rest) (2 + v.checkLength) =
        2 + v.checkLength + p.randLen := by
      rw [packData_eq, List.append_assoc, List.append_assoc]
      exact dataOffset_padding p _ _ hhlen
    have hdata : window (packData v p ++ rest) (2 + v.checkLength + p.randLen) p.data.length =
        p.data := by
      have hbefore : (frameHead v p ++ p.padding (2 + v.checkLength)).length =
          2 + v.checkLength + p.randLen := by
        rw [List.length_append, hhlen, p.length_padding]
      rw [packData_eq]
      simp only [List.append_assoc]
      rw [← List.append_assoc, window, ← hbefore, List.drop_left, List.take_left]
    have hadler : checkadler32 (packData v p) = true := checkadler32_filladler32 _
    have hfits : ¬ (packData v p).length < 2 + v.checkLength + p.randLen + 4 := by omega
    have hsize : (packData v p).length - (2 + v.checkLength + p.randLen) - 4 = p.data.length := by
      omega
    have hrest : ¬ (packData v p ++ rest).length < (packData v p).length := by
      rw [List.length_append]
      omega
    rw [parse_of_head hle hcheck (by rw [List.length_append]; omega)
      (hhead.trans (List.prefix_append _ _)), if_neg hrest, List.take_left, hadler, hoff,
      if_neg hfits, hsize, hdata]
    rfl

/-- The stream of packets of a version. -/
theorem stream_packets (v : Version) (packets : List Packet) :
    stream (packets.map fun p ↦ (packData v p, p.data)) = (packets.map (packData v)).flatten := by
  rw [stream, List.map_map]
  rfl

/-- However the frames of a version are cut into segments, its receiver gives the payloads of those
that have arrived. -/
theorem outputs_clientPostDecrypt {v : Version} (hcheck : v.checkLength ≤ 2) {packets : List Packet}
    (hle : ∀ p ∈ packets, p.data.length ≤ 2000) {segments : List Bytes}
    (hsegments : segments.flatten <+: (packets.map (packData v)).flatten)
    (hfits : Fits 16384 (parse v) [] segments) :
    Stream.outputs (fun l s ↦ accept (clientPostDecrypt v l s)) [] segments =
      some (arrived (packets.map fun p ↦ (packData v p, p.data)) segments.flatten.length) := by
  have hframes : ∀ f ∈ packets.map fun p ↦ (packData v p, p.data), IsFrame (parse v) f := by
    intro f hf
    obtain ⟨p, hp, rfl⟩ := List.mem_map.mp hf
    exact isFrame_packData (hle p hp) hcheck
  have hnil : parse v [] = .more := if_pos (Nat.zero_le _)
  rw [← stream_packets] at hsegments
  exact outputs_receive hnil hframes hsegments hfits

/-- When all frames have arrived, so have all payloads. -/
theorem arrived_packets (v : Version) (packets : List Packet) :
    arrived (packets.map fun p ↦ (packData v p, p.data)) (packets.map (packData v)).flatten.length =
      (packets.map Packet.data).flatten := by
  rw [← stream_packets, arrived_all, payload, List.map_map]
  rfl

/-- However the frames are cut into segments, the receiver of their version gives the payloads of
those that have arrived, and in the end all payloads. -/
theorem auth_sha1_round_trip {packets : List Packet} (hle : ∀ p ∈ packets, p.data.length ≤ 2000) :
    (∀ segments : List Bytes, segments.flatten <+: (packets.map authSha1V2PackData).flatten →
      Fits 16384 (parse v2) [] segments →
      Stream.outputs (fun l s ↦ accept (authSha1V2ClientPostDecrypt l s)) [] segments =
        some (arrived (packets.map fun p ↦ (authSha1V2PackData p, p.data))
          segments.flatten.length) ∧
      (segments.flatten = (packets.map authSha1V2PackData).flatten →
        Stream.outputs (fun l s ↦ accept (authSha1V2ClientPostDecrypt l s)) [] segments =
          some (packets.map Packet.data).flatten)) ∧
    (∀ segments : List Bytes, segments.flatten <+: (packets.map authSha1V4PackData).flatten →
      Fits 16384 (parse v4) [] segments →
      Stream.outputs (fun l s ↦ accept (authSha1V4ClientPostDecrypt l s)) [] segments =
        some (arrived (packets.map fun p ↦ (authSha1V4PackData p, p.data))
          segments.flatten.length) ∧
      (segments.flatten = (packets.map authSha1V4PackData).flatten →
        Stream.outputs (fun l s ↦ accept (authSha1V4ClientPostDecrypt l s)) [] segments =
          some (packets.map Packet.data).flatten)) := by
  constructor
  · intro segments hsegments hfits
    have houtputs := outputs_clientPostDecrypt (show v2.checkLength ≤ 2 by decide) hle hsegments hfits
    refine ⟨houtputs, fun hall ↦ ?_⟩
    rw [hall] at houtputs
    exact houtputs.trans (congrArg some (arrived_packets v2 packets))
  · intro segments hsegments hfits
    have houtputs := outputs_clientPostDecrypt (show v4.checkLength ≤ 2 by decide) hle hsegments hfits
    refine ⟨houtputs, fun hall ↦ ?_⟩
    rw [hall] at houtputs
    exact houtputs.trans (congrArg some (arrived_packets v4 packets))

/-- Two bytes behind a padding of 129 bytes. -/
def escapedPacket : Packet := ⟨[7, 8], 128, fun _ ↦ 0⟩

/-- The escaped form of the padding's length. -/
theorem escaped_round_trip :
    Stream.outputs (fun l s ↦ accept (authSha1V4ClientPostDecrypt l s)) []
      [authSha1V4PackData escapedPacket] = some [7, 8] := by
  have hle : ∀ p ∈ [escapedPacket], p.data.length ≤ 2000 := by decide
  have hfits : Fits 16384 (parse v4) [] [authSha1V4PackData escapedPacket] := by
    refine ⟨?_, fun _ _ _ ↦ trivial⟩
    rw [authSha1V4PackData, length_packData]
    decide
  exact ((auth_sha1_round_trip hle).2 [authSha1V4PackData escapedPacket] (List.prefix_refl _)
    hfits).2 rfl

end OpenWrtCompile.Protocol.AuthSha1
