import OpenWrtCompile.Base.Numbered
import OpenWrtCompile.Protocol.Checksum

/-!
# Data frames of `auth_aes128_sha1`

`shadowsocksr-libev/src/server/auth.c:648–691` and `841–921`: `pack_data` and `client_post_decrypt`.
The key of both HMACs of a frame ends with the frame's number, which either side counts from 1. The
HMAC is a parameter, and so are the random draw and the random bytes of a frame.
-/

namespace OpenWrtCompile.Protocol.AuthAes128
open OpenWrtCompile.Base OpenWrtCompile.Base.Numbered OpenWrtCompile.Protocol
open OpenWrtCompile.Base.Framing (Parsed stream payload)

/-- `local->hmac`, which fills the 20 bytes of `hash`. -/
structure Hmac where
  hash : Bytes → Bytes → Bytes
  length_hash : ∀ key data, (hash key data).length = 20

/-- One call of `pack_data`: the data, the draw and the bytes of `rnd_data`. -/
structure Packet where
  data : Bytes
  draw : UInt64
  rnd : Nat → UInt8

/-- `rand_len`. -/
def Packet.randLen (p : Packet) (packId : UInt32) : Nat :=
  (if 1200 < p.data.length then 0
    else if 4 < packId then (p.draw &&& 0x20).toNat
    else if 900 < p.data.length then (p.draw &&& 0x80).toNat
    else (p.draw &&& 0x200).toNat) + 1

/-- `out_size`. -/
def Packet.outSize (p : Packet) (packId : UInt32) : Nat := p.randLen packId + p.data.length + 8

/-- `rnd_data[off]` and what follows it. -/
def Packet.rndFrom (p : Packet) (off len : Nat) : Bytes := (List.range len).map fun i ↦ p.rnd (off + i)

/-- The padding, which begins with its length: one byte below 128, else 0xFF and two bytes. -/
def Packet.padding (p : Packet) (packId : UInt32) : Bytes :=
  let randLen := p.randLen packId
  if randLen < 128 then UInt8.ofNat randLen :: p.rndFrom 1 (randLen - 1)
  else [0xFF, UInt8.ofNat randLen, UInt8.ofNat (randLen / 256)] ++ p.rndFrom 3 (randLen - 3)

/-- `user_key` and a frame's number. -/
def frameKey (userKey : Bytes) (id : UInt32) : Bytes := userKey ++ le32 id

/-- The two bytes of the size, low byte first. -/
def sizeBytes (n : Nat) : Bytes := [UInt8.ofNat n, UInt8.ofNat (n / 256)]

/-- A frame without its last four bytes. -/
def frameBody (hmac : Hmac) (userKey : Bytes) (packId : UInt32) (p : Packet) : Bytes :=
  let size := sizeBytes (p.outSize packId)
  size ++ (hmac.hash (frameKey userKey packId) size).take 2 ++ p.padding packId ++ p.data

/-- `auth_aes128_sha1_pack_data`, with the next `pack_id`. -/
def authAes128Sha1PackData (hmac : Hmac) (userKey : Bytes) (packId : UInt32) (p : Packet) :
    UInt32 × Bytes :=
  let body := frameBody hmac userKey packId p
  (packId + 1, body ++ (hmac.hash (frameKey userKey packId) body).take 4)

/-- The offset of the data in a frame. -/
def dataOffset (b : Bytes) : Nat :=
  let pos := (b[4]?.getD 0).toNat
  if pos < 255 then pos + 4 else word16 (b[6]?.getD 0) (b[5]?.getD 0) + 4

/-- The size that a frame names. -/
def frameLength (b : Bytes) : Nat := word16 (b[1]?.getD 0) (b[0]?.getD 0)

/-- One pass over `recv_buffer` with `recv_id`. The offset of the data comes from the frame and may
exceed it. -/
def parse (hmac : Hmac) (userKey : Bytes) (recvId : UInt32) (b : Bytes) : Parsed UInt8 :=
  if b.length ≤ 4 then .more
  else if (hmac.hash (frameKey userKey recvId) (b.take 2)).take 2 ≠ window b 2 2 then .bad
  else
    let length := frameLength b
    if 8192 ≤ length || length < 8 then .bad
    else if b.length < length then .more
    else if (hmac.hash (frameKey userKey recvId) (b.take (length - 4))).take 4 ≠
        window b (length - 4) 4 then .bad
    else
      let pos := dataOffset b
      if length < pos + 4 then .undefined
      else .frame (window b pos (length - pos - 4)) length

/-- `auth_aes128_sha1_client_post_decrypt`; of the local data it uses `recv_id` and the contents of
`recv_buffer`. -/
def authAes128Sha1ClientPostDecrypt (hmac : Hmac) (userKey : Bytes) (r : Receiver UInt32 UInt8)
    (data : Bytes) : Option (Receiver UInt32 UInt8 × Option Bytes) :=
  receive 16384 (· + 1) (parse hmac userKey) r data

/-- The local data at the start. -/
def start : Receiver UInt32 UInt8 := ⟨1, []⟩

/-- The frames of packets, each with its data, from a `pack_id` on. -/
def frames (hmac : Hmac) (userKey : Bytes) : UInt32 → List Packet → List (Bytes × Bytes)
  | _, [] => []
  | packId, p :: ps =>
    let r := authAes128Sha1PackData hmac userKey packId p
    (r.2, p.data) :: frames hmac userKey r.1 ps

/-! ## The receiver never takes back what it has seen -/

/-- A byte that is there stays when more come. -/
theorem getD_append {b : Bytes} {i : Nat} (h : i < b.length) (s : Bytes) :
    (b ++ s)[i]?.getD 0 = b[i]?.getD 0 :=
  (getD_eq_of_start (List.prefix_append b s) h).symm

/-- The size stays. -/
theorem frameLength_append {b : Bytes} (h : 4 < b.length) (s : Bytes) :
    frameLength (b ++ s) = frameLength b := by
  unfold frameLength
  rw [getD_append (by omega), getD_append (by omega)]

/-- The offset stays. -/
theorem dataOffset_append {b : Bytes} (h : 7 < b.length) (s : Bytes) :
    dataOffset (b ++ s) = dataOffset b := by
  unfold dataOffset
  rw [getD_append (by omega), getD_append (by omega), getD_append (by omega)]

/-- What is seen of a header stays. -/
theorem header_append {b : Bytes} (h : 4 < b.length) (s : Bytes) :
    (b ++ s).take 2 = b.take 2 ∧ window (b ++ s) 2 2 = window b 2 2 := by
  constructor
  · exact List.take_append_of_le_length (by omega)
  · exact window_append b s (by omega)

variable {hmac : Hmac} {userKey : Bytes}

/-- More bytes change nothing where the receiver has what it needs. -/
theorem parse_append {id : UInt32} {b : Bytes} (h : parse hmac userKey id b ≠ .more) (s : Bytes) :
    parse hmac userKey id (b ++ s) = parse hmac userKey id b := by
  have hlen : 4 < b.length := by
    by_contra hshort
    exact h (if_pos (by omega))
  obtain ⟨htake, hwindow⟩ := header_append hlen s
  have hlong : ¬ (b ++ s).length ≤ 4 := by
    rw [List.length_append]
    omega
  have hlen' : ¬ b.length ≤ 4 := by omega
  unfold parse at h ⊢
  rw [if_neg hlen'] at h
  rw [if_neg hlong, if_neg hlen', htake, hwindow, frameLength_append hlen]
  by_cases hheader : (hmac.hash (frameKey userKey id) (b.take 2)).take 2 ≠ window b 2 2
  · rw [if_pos hheader, if_pos hheader]
  · rw [if_neg hheader] at h ⊢
    rw [if_neg hheader]
    by_cases hrange : (8192 ≤ frameLength b || frameLength b < 8) = true
    · simp only [if_pos hrange]
    · simp only [if_neg hrange] at h ⊢
      have hwhole : ¬ b.length < frameLength b := fun hshort ↦ h (if_pos hshort)
      have hmin : 8 ≤ frameLength b := by
        simp only [Bool.or_eq_true, decide_eq_true_eq, not_or] at hrange
        omega
      have hwhole' : ¬ (b ++ s).length < frameLength b := by
        rw [List.length_append]
        omega
      rw [if_neg hwhole', if_neg hwhole, dataOffset_append (by omega),
        List.take_append_of_le_length (by omega), window_append b s (by omega)]
      by_cases hpos : frameLength b < dataOffset b + 4
      · simp only [if_pos hpos]
      · have hdata := @window_append b s (dataOffset b) (frameLength b - dataOffset b - 4) (by omega)
        simp only [if_neg hpos, hdata]

/-- What the receiver sees behind a header that it accepts, with the size `n`. -/
theorem parse_of_header {id : UInt32} {b : Bytes} {n : Nat} (hlen : 4 < b.length)
    (hheader : (hmac.hash (frameKey userKey id) (b.take 2)).take 2 = window b 2 2)
    (hn : frameLength b = n) (hmin : 8 ≤ n) (hmax : n < 8192) :
    parse hmac userKey id b =
      if b.length < n then .more
      else if (hmac.hash (frameKey userKey id) (b.take (n - 4))).take 4 ≠ window b (n - 4) 4 then .bad
      else if n < dataOffset b + 4 then .undefined
      else .frame (window b (dataOffset b) (n - dataOffset b - 4)) n := by
  have hrange : ¬ (8192 ≤ n || n < 8) = true := by
    simp only [Bool.or_eq_true, decide_eq_true_eq]
    omega
  unfold parse
  rw [if_neg (by omega), if_neg (not_not_intro hheader), hn]
  exact if_neg hrange

/-- A frame has one byte at least, and all its bytes are there. -/
theorem frame_bounds {id : UInt32} {b payload : Bytes} {length : Nat}
    (h : parse hmac userKey id b = .frame payload length) : 0 < length ∧ length ≤ b.length := by
  unfold parse at h
  by_cases hshort : b.length ≤ 4
  · rw [if_pos hshort] at h
    cases h
  · rw [if_neg hshort] at h
    by_cases hheader : (hmac.hash (frameKey userKey id) (b.take 2)).take 2 ≠ window b 2 2
    · rw [if_pos hheader] at h
      cases h
    · rw [if_neg hheader] at h
      by_cases hrange : (8192 ≤ frameLength b || frameLength b < 8) = true
      · simp only [if_pos hrange] at h
        cases h
      · simp only [if_neg hrange] at h
        simp only [Bool.or_eq_true, decide_eq_true_eq, not_or] at hrange
        split at h
        · cases h
        · split at h
          · cases h
          · split at h
            · cases h
            · cases h
              omega

/-- What the receiver has seen stays as it is. -/
theorem monotone_parse : Monotone (parse hmac userKey) := by
  have hstays : ∀ {id b seen}, parse hmac userKey id b = seen → seen ≠ .more → ∀ s,
      parse hmac userKey id (b ++ s) = seen := by
    intro id b seen h hmore s
    rw [← h] at hmore
    rw [parse_append hmore, h]
  constructor
  · intro id b payload length h
    obtain ⟨hpos, hle⟩ := frame_bounds h
    exact ⟨hpos, hle, hstays h fun h ↦ nomatch h⟩
  · intro id b h
    exact hstays h fun h ↦ nomatch h
  · intro id b h
    exact hstays h fun h ↦ nomatch h

/-! ## A frame as the receiver sees it -/

/-- The length of a padding. -/
theorem Packet.randLen_spec (p : Packet) (packId : UInt32) :
    0 < p.randLen packId ∧ p.randLen packId ≤ 513 := by
  have h5 : (p.draw &&& 0x20).toNat ≤ 32 := by
    rw [UInt64.toNat_and]
    exact Nat.and_le_right
  have h7 : (p.draw &&& 0x80).toNat ≤ 128 := by
    rw [UInt64.toNat_and]
    exact Nat.and_le_right
  have h9 : (p.draw &&& 0x200).toNat ≤ 512 := by
    rw [UInt64.toNat_and]
    exact Nat.and_le_right
  unfold Packet.randLen
  split
  · omega
  · split
    · omega
    · split <;> omega

/-- A padding is as long as it says. -/
theorem Packet.length_padding (p : Packet) (packId : UInt32) :
    (p.padding packId).length = p.randLen packId := by
  have hpos := (p.randLen_spec packId).1
  unfold Packet.padding Packet.rndFrom
  by_cases hshort : p.randLen packId < 128
  · simp only [if_pos hshort, List.length_cons, List.length_map, List.length_range]
    omega
  · simp only [if_neg hshort, List.length_append, List.length_cons, List.length_nil,
      List.length_map, List.length_range]
    omega

/-- As many bytes of a hash as are sent. -/
theorem Hmac.length_take (hmac : Hmac) (key data : Bytes) {n : Nat} (h : n ≤ 20) :
    ((hmac.hash key data).take n).length = n := by
  rw [List.length_take, hmac.length_hash]
  omega

/-- A frame. -/
def frame (hmac : Hmac) (userKey : Bytes) (packId : UInt32) (p : Packet) : Bytes :=
  (authAes128Sha1PackData hmac userKey packId p).2

variable {packId : UInt32} {p : Packet}

/-- The four bytes at the start of a frame. -/
def frameHead (hmac : Hmac) (userKey : Bytes) (packId : UInt32) (p : Packet) : Bytes :=
  sizeBytes (p.outSize packId) ++
    (hmac.hash (frameKey userKey packId) (sizeBytes (p.outSize packId))).take 2

/-- The size of a frame's head. -/
theorem length_frameHead : (frameHead hmac userKey packId p).length = 4 := by
  unfold frameHead
  rw [List.length_append, hmac.length_take _ _ (by omega)]
  rfl

/-- A frame without its last four bytes, in parts. -/
theorem frameBody_eq : frameBody hmac userKey packId p =
    frameHead hmac userKey packId p ++ (p.padding packId ++ p.data) := by
  unfold frameBody frameHead
  simp only [List.append_assoc]

/-- The size of a frame without its last four bytes. -/
theorem length_frameBody : (frameBody hmac userKey packId p).length + 4 = p.outSize packId := by
  unfold Packet.outSize
  rw [frameBody_eq, List.length_append, List.length_append, length_frameHead, p.length_padding]
  omega

/-- A frame in parts. -/
theorem frame_eq : frame hmac userKey packId p = frameBody hmac userKey packId p ++
    (hmac.hash (frameKey userKey packId) (frameBody hmac userKey packId p)).take 4 := rfl

/-- The size of a frame. -/
theorem length_frame : (frame hmac userKey packId p).length = p.outSize packId := by
  rw [frame_eq, List.length_append, hmac.length_take _ _ (by omega), length_frameBody]

/-- A frame's head is at its start. -/
theorem frameHead_start : frameHead hmac userKey packId p <+: frame hmac userKey packId p := by
  rw [frame_eq, frameBody_eq, List.append_assoc]
  exact List.prefix_append _ _

/-- What the receiver reads of a frame's head. -/
theorem read_of_head {b : Bytes} (h : frameHead hmac userKey packId p <+: b)
    (hmax : p.outSize packId < 65536) :
    b.take 2 = sizeBytes (p.outSize packId) ∧
      window b 2 2 =
        (hmac.hash (frameKey userKey packId) (sizeBytes (p.outSize packId))).take 2 ∧
      frameLength b = p.outSize packId := by
  obtain ⟨rest, rfl⟩ := h
  unfold frameHead
  have htag := @Hmac.length_take hmac (frameKey userKey packId) (sizeBytes (p.outSize packId)) 2
    (by omega)
  refine ⟨?_, ?_, ?_⟩
  · rw [List.append_assoc]
    exact List.take_left' rfl
  · rw [List.append_assoc]
    exact window_middle rfl htag
  · exact word16_bytes16 hmax

/-- The data are found behind the padding, in either form of its length. -/
theorem dataOffset_frame (rest : Bytes) :
    dataOffset (frame hmac userKey packId p ++ rest) = p.randLen packId + 4 := by
  obtain ⟨hpos, hmax⟩ := p.randLen_spec packId
  have hbyte (i : Nat) : (frame hmac userKey packId p ++ rest)[4 + i]? =
      (p.padding packId ++ (p.data ++ ((hmac.hash (frameKey userKey packId)
        (frameBody hmac userKey packId p)).take 4 ++ rest)))[i]? := by
    have hhead := @length_frameHead hmac userKey packId p
    rw [frame_eq, frameBody_eq, List.append_assoc, List.append_assoc, List.append_assoc,
      List.getElem?_append_right (by omega), hhead, Nat.add_sub_cancel_left]
  have h0 := hbyte 0
  rw [Nat.add_zero] at h0
  unfold dataOffset
  rw [h0, show 5 = 4 + 1 from rfl, show 6 = 4 + 2 from rfl, hbyte 1, hbyte 2]
  unfold Packet.padding
  by_cases hshort : p.randLen packId < 128
  · have hone : (UInt8.ofNat (p.randLen packId)).toNat = p.randLen packId := by
      rw [UInt8.toNat_ofNat']
      omega
    simp only [if_pos hshort, List.cons_append, List.getElem?_cons_zero, Option.getD_some, hone]
    rw [if_pos (by omega)]
  · simp only [if_neg hshort, List.cons_append, List.nil_append, List.getElem?_cons_zero,
      List.getElem?_cons_succ, Option.getD_some]
    rw [if_neg (by decide), word16_bytes16 (by omega)]

/-- The data of a frame. -/
theorem window_frame (rest : Bytes) :
    window (frame hmac userKey packId p ++ rest) (p.randLen packId + 4) p.data.length = p.data := by
  have hbefore : (frameHead hmac userKey packId p ++ p.padding packId).length =
      p.randLen packId + 4 := by
    rw [List.length_append, length_frameHead, p.length_padding, Nat.add_comm]
  rw [frame_eq, frameBody_eq, ← List.append_assoc, List.append_assoc, List.append_assoc]
  exact window_middle hbefore rfl

/-- The receiver takes each frame of less than 8192 bytes for what it is. -/
theorem isFrame_frame (hsize : p.outSize packId < 8192) :
    IsFrame (parse hmac userKey packId) (frame hmac userKey packId p, p.data) := by
  have hlen := @length_frame hmac userKey packId p
  have hbody := @length_frameBody hmac userKey packId p
  have hout : p.outSize packId = p.randLen packId + p.data.length + 8 := rfl
  constructor
  · intro rest
    show parse hmac userKey packId (frame hmac userKey packId p ++ rest) = _
    have hhead := (@frameHead_start hmac userKey packId p).trans
      (List.prefix_append (frame hmac userKey packId p) rest)
    obtain ⟨htake, hwindow, hlength⟩ := read_of_head hhead (by omega)
    have hlong : 4 < (frame hmac userKey packId p ++ rest).length := by
      rw [List.length_append]
      omega
    have hwhole : ¬ (frame hmac userKey packId p ++ rest).length < p.outSize packId := by
      rw [List.length_append]
      omega
    have hbodyLen : (frameBody hmac userKey packId p).length = p.outSize packId - 4 := by omega
    have htrailer : (hmac.hash (frameKey userKey packId)
          ((frame hmac userKey packId p ++ rest).take (p.outSize packId - 4))).take 4 =
        window (frame hmac userKey packId p ++ rest) (p.outSize packId - 4) 4 := by
      rw [frame_eq, List.append_assoc, ← hbodyLen, List.take_left]
      exact (window_middle rfl (hmac.length_take _ _ (by omega))).symm
    have hdata : p.outSize packId - (p.randLen packId + 4) - 4 = p.data.length := by omega
    rw [parse_of_header hlong (by rw [htake, hwindow]) hlength (by omega) hsize, if_neg hwhole,
      if_neg (not_not_intro htrailer), dataOffset_frame, if_neg (by omega), hdata, window_frame,
      ← hlen]
  · intro q hq hne
    by_cases hshort : q.length ≤ 4
    · exact if_pos hshort
    · have hhead : frameHead hmac userKey packId p <+: q := by
        apply List.prefix_of_prefix_length_le frameHead_start hq
        rw [length_frameHead]
        omega
      obtain ⟨htake, hwindow, hlength⟩ := read_of_head hhead (by omega)
      have hlt : q.length < p.outSize packId := by
        rw [← hlen]
        apply Nat.lt_of_le_of_ne hq.length_le
        intro heq
        exact hne (hq.eq_of_length heq)
      rw [parse_of_header (by omega) (by rw [htake, hwindow]) hlength (by omega) hsize, if_pos hlt]

end OpenWrtCompile.Protocol.AuthAes128
