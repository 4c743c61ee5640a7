import OpenWrtCompile.Base.Framing
import OpenWrtCompile.Protocol.Checksum

/-!
# The plugin `verify_simple`

`shadowsocksr-libev/src/server/verify.c`. Client and server run the same code. The random draws and
the contents of the block that `malloc` returns are parameters; a frame has the contents of that
block between its third byte and its data.
-/

namespace OpenWrtCompile.Protocol.VerifySimple
open OpenWrtCompile.Base OpenWrtCompile.Base.Framing OpenWrtCompile.Protocol

/-- `verify_simple_pack_unit_size`. -/
def packUnitSize : Nat := 2000

/-- `(xorshift128plus() & 0xF) + 1`. -/
def randLen (draw : UInt64) : Nat := (draw &&& 0xF).toNat + 1

/-- `verify_simple_pack_data`; `mem i` is what `outdata[i]` held before. -/
def packData (draw : UInt64) (mem : Nat → UInt8) (data : Bytes) : Bytes :=
  let outSize := randLen draw + data.length + 6
  fillcrc32 (bytes16 outSize ++ [UInt8.ofNat (randLen draw)] ++
    (List.range (randLen draw - 1)).map (fun i ↦ mem (3 + i)) ++ data)

/-- One message for the encoder: its bytes, the draws and the contents of `out_buffer`. -/
structure Message where
  data : Bytes
  draw : Nat → UInt64
  mem : Nat → UInt8

/-- A frame behind the bytes in `out_buffer`; `none` where it does not fit. -/
def putFrame (size : Nat) (out frame : Bytes) : Option Bytes :=
  if out.length + frame.length ≤ size then some (out ++ frame) else none

/-- The loop over the units of a message, `k` being the number of draws so far. Each pass takes some
bytes, so `fuel` above their number is enough. -/
def packLoop (m : Message) (size : Nat) : Nat → Nat → Bytes → Bytes → Option Bytes
  | 0, _, out, _ => some out
  | fuel + 1, k, out, data =>
    if packUnitSize < data.length then do
      let out' ← putFrame size out
        (packData (m.draw k) (fun i ↦ m.mem (out.length + i)) (data.take packUnitSize))
      packLoop m size fuel (k + 1) out' (data.drop packUnitSize)
    else if 0 < data.length then
      putFrame size out (packData (m.draw k) (fun i ↦ m.mem (out.length + i)) data)
    else some out

/-- `verify_simple_client_pre_encrypt`; `none` where it writes behind `out_buffer`. -/
def clientPreEncrypt (m : Message) : Option Bytes :=
  packLoop m (m.data.length * 2 + 32) (m.data.length + 1) 0 [] m.data

/-- `verify_simple_server_pre_encrypt`. -/
def serverPreEncrypt (m : Message) : Option Bytes := clientPreEncrypt m

/-- One pass over `recv_buffer`. The size of the copied data is computed from a byte of the frame
that may exceed it. -/
def parse (b : Bytes) : Parsed UInt8 :=
  if b.length ≤ 2 then .more
  else
    let length := word16 (b[0]?.getD 0) (b[1]?.getD 0)
    if 8192 ≤ length || length < 7 then .bad
    else if b.length < length then .more
    else if crc32 (b.take length) ≠ 0xFFFFFFFF then .bad
    else if length < (b[2]?.getD 0).toNat + 6 then .undefined
    else .frame (window b (2 + (b[2]?.getD 0).toNat) (length - (b[2]?.getD 0).toNat - 6)) length

/-- `verify_simple_client_post_decrypt`; the local data are the contents of `recv_buffer`. -/
def clientPostDecrypt (recvBuffer data : Bytes) : Option (Bytes × Option Bytes) :=
  receive 16384 parse recvBuffer data

/-- `verify_simple_server_post_decrypt`. -/
def serverPostDecrypt (recvBuffer data : Bytes) : Option (Bytes × Option Bytes) :=
  receive 16384 parse recvBuffer data

/-! ## The frames of a message -/

/-- The units of a message, each with its frame. -/
def frameLoop (m : Message) : Nat → Nat → Nat → Bytes → List (Bytes × Bytes)
  | 0, _, _, _ => []
  | fuel + 1, k, used, data =>
    if packUnitSize < data.length then
      (packData (m.draw k) (fun i ↦ m.mem (used + i)) (data.take packUnitSize),
          data.take packUnitSize) ::
        frameLoop m fuel (k + 1)
          (used + (packData (m.draw k) (fun i ↦ m.mem (used + i))
            (data.take packUnitSize)).length) (data.drop packUnitSize)
    else if 0 < data.length then [(packData (m.draw k) (fun i ↦ m.mem (used + i)) data, data)]
    else []

/-- The units of a message, each with its frame. -/
def frames (m : Message) : List (Bytes × Bytes) := frameLoop m (m.data.length + 1) 0 0 m.data

/-- A padding is 1 to 16 bytes long, its length byte included. -/
theorem randLen_le (draw : UInt64) : randLen draw ≤ 16 := by
  have h : (draw &&& 0xF).toNat ≤ 15 := by
    rw [UInt64.toNat_and]
    exact Nat.and_le_right
  unfold randLen
  omega

/-- The size of a frame. -/
theorem length_packData (draw : UInt64) (mem : Nat → UInt8) (data : Bytes) :
    (packData draw mem data).length = randLen draw + data.length + 6 := by
  have hpos : 0 < randLen draw := Nat.succ_pos _
  simp only [packData, bytes16, length_fillcrc32, List.length_append, List.length_cons,
    List.length_nil, List.length_map, List.length_range]
  omega

/-- The header of a frame. -/
theorem packData_eq_cons (draw : UInt64) (mem : Nat → UInt8) (data : Bytes) :
    ∃ tail, packData draw mem data =
      UInt8.ofNat ((randLen draw + data.length + 6) / 256) ::
        UInt8.ofNat (randLen draw + data.length + 6) :: UInt8.ofNat (randLen draw) :: tail :=
  ⟨_, rfl⟩

/-- The data of a frame. -/
theorem window_packData (draw : UInt64) (mem : Nat → UInt8) (data rest : Bytes) :
    window (packData draw mem data ++ rest) (2 + randLen draw) data.length = data := by
  have hpos : 0 < randLen draw := Nat.succ_pos _
  have hsplit : packData draw mem data ++ rest =
      (bytes16 (randLen draw + data.length + 6) ++ [UInt8.ofNat (randLen draw)] ++
        (List.range (randLen draw - 1)).map (fun i ↦ mem (3 + i))) ++ (data ++
          (le32 (crcRegister (bytes16 (randLen draw + data.length + 6) ++
            [UInt8.ofNat (randLen draw)] ++
              (List.range (randLen draw - 1)).map (fun i ↦ mem (3 + i)) ++ data)) ++ rest)) := by
    simp only [packData, fillcrc32, List.append_assoc]
  have hlen : (bytes16 (randLen draw + data.length + 6) ++ [UInt8.ofNat (randLen draw)] ++
      (List.range (randLen draw - 1)).map (fun i ↦ mem (3 + i))).length = 2 + randLen draw := by
    simp only [bytes16, List.length_append, List.length_cons, List.length_nil, List.length_map,
      List.length_range]
    omega
  rw [window, hsplit, ← hlen, List.drop_left, List.take_left]

/-- What the receiver sees behind a header that names the length `n`. -/
theorem parse_of_length {b : Bytes} {n : Nat} (hb : 2 < b.length)
    (hn : word16 (b[0]?.getD 0) (b[1]?.getD 0) = n) (hmin : 7 ≤ n) (hmax : n < 8192) :
    parse b =
      if b.length < n then .more
      else if crc32 (b.take n) ≠ 0xFFFFFFFF then .bad
      else if n < (b[2]?.getD 0).toNat + 6 then .undefined
      else .frame (window b (2 + (b[2]?.getD 0).toNat) (n - (b[2]?.getD 0).toNat - 6)) n := by
  have hrange : ¬ (8192 ≤ n || n < 7) = true := by
    simp only [Bool.or_eq_true, decide_eq_true_eq]
    omega
  rw [parse, if_neg (by omega), hn]
  exact if_neg hrange

/-- The receiver takes each frame of a unit for what it is. -/
theorem isFrame_packData (draw : UInt64) (mem : Nat → UInt8) {data : Bytes} (hne : 0 < data.length)
    (hle : data.length ≤ packUnitSize) : IsFrame parse (packData draw mem data, data) := by
  have hrand := randLen_le draw
  have hpos : 0 < randLen draw := Nat.succ_pos _
  have hunit : data.length ≤ 2000 := hle
  have hlen := length_packData draw mem data
  obtain ⟨tail, htail⟩ := packData_eq_cons draw mem data
  have hsee (b : Bytes) (hb : 2 < b.length)
      (hbyte : ∀ i < 3, b[i]?.getD 0 = (packData draw mem data)[i]?.getD 0) :
      parse b =
        if b.length < (packData draw mem data).length then .more
        else if crc32 (b.take (packData draw mem data).length) ≠ 0xFFFFFFFF then .bad
        else .frame (window b (2 + randLen draw) data.length) (packData draw mem data).length := by
    have h2 : (b[2]?.getD 0).toNat = randLen draw := by
      rw [hbyte 2 (by omega), htail]
      show (UInt8.ofNat (randLen draw)).toNat = randLen draw
      rw [UInt8.toNat_ofNat']
      omega
    have hword : word16 (b[0]?.getD 0) (b[1]?.getD 0) = (packData draw mem data).length := by
      rw [hbyte 0 (by omega), hbyte 1 (by omega), htail, ← htail, hlen]
      apply word16_bytes16
      omega
    have hfit : ¬ (packData draw mem data).length < randLen draw + 6 := by omega
    have hsize : (packData draw mem data).length - randLen draw - 6 = data.length := by omega
    rw [parse_of_length hb hword (by omega) (by omega), h2, if_neg hfit, hsize]
  apply @isFrame_of_header _ _ parse _ _ 2
  · omega
  · intro q hq
    exact if_pos hq
  · intro q hq hlong hshort
    rw [hsee q hlong fun i hi ↦ getD_eq_of_start hq (by omega), if_pos hshort]
  · intro rest
    have hrest : (packData draw mem data).length ≤ (packData draw mem data ++ rest).length := by
      rw [List.length_append]
      omega
    rw [hsee _ (by omega) fun i hi ↦
      (getD_eq_of_start (List.prefix_append _ rest) (by omega)).symm, if_neg (by omega), List.take_left,
      window_packData]
    simp [packData, crc32_fillcrc32]

/-- The encoder gives the frames of a message, and they fit. -/
theorem packLoop_eq (m : Message) (size : Nat) {fuel k : Nat} {out data : Bytes}
    (hfuel : data.length < fuel)
    (hsize : out.length + data.length + 22 * ((data.length + 1999) / 2000) ≤ size) :
    packLoop m size fuel k out data = some (out ++ stream (frameLoop m fuel k out.length data)) := by
  induction fuel generalizing k out data with
  | zero => omega
  | succ fuel ih =>
    have hput (unit : Bytes) (hunit : out.length + unit.length + 22 ≤ size) :
        putFrame size out (packData (m.draw k) (fun i ↦ m.mem (out.length + i)) unit) =
          some (out ++ packData (m.draw k) (fun i ↦ m.mem (out.length + i)) unit) := by
      have hrand := randLen_le (m.draw k)
      have hlen := length_packData (m.draw k) (fun i ↦ m.mem (out.length + i)) unit
      exact if_pos (by omega)
    have hunits : packUnitSize = 2000 := rfl
    by_cases hlong : packUnitSize < data.length
    · have htake : (data.take packUnitSize).length = 2000 := by
        rw [List.length_take]
        omega
      have hlen := length_packData (m.draw k) (fun i ↦ m.mem (out.length + i))
        (data.take packUnitSize)
      have hrand := randLen_le (m.draw k)
      have hrest := @ih (k + 1) (out ++ packData (m.draw k) (fun i ↦ m.mem (out.length + i))
        (data.take packUnitSize)) (data.drop packUnitSize)
        (by rw [List.length_drop]; omega) (by rw [List.length_append, List.length_drop]; omega)
      rw [packLoop, if_pos hlong, frameLoop, if_pos hlong, hput _ (by omega)]
      rw [List.length_append] at hrest
      simp only [stream_cons, ← List.append_assoc]
      exact hrest
    · rw [packLoop, if_neg hlong, frameLoop, if_neg hlong]
      by_cases hpos : 0 < data.length
      · rw [if_pos hpos, if_pos hpos, hput _ (by omega), stream_cons, stream_nil, List.append_nil]
      · rw [if_neg hpos, if_neg hpos, stream_nil, List.append_nil]

/-- The frames of a message are frames, and carry the message. -/
theorem frameLoop_spec (m : Message) {fuel k used : Nat} {data : Bytes}
    (hfuel : data.length < fuel) :
    (∀ f ∈ frameLoop m fuel k used data, IsFrame parse f) ∧
      payload (frameLoop m fuel k used data) = data := by
  induction fuel generalizing k used data with
  | zero => omega
  | succ fuel ih =>
    rw [frameLoop]
    by_cases hlong : packUnitSize < data.length
    · have hunits : packUnitSize = 2000 := rfl
      have htake : (data.take packUnitSize).length = 2000 := by
        rw [List.length_take]
        omega
      obtain ⟨hframes, hpayload⟩ := @ih (k + 1) (used + (packData (m.draw k) (fun i ↦ m.mem (used + i))
        (data.take packUnitSize)).length) (data.drop packUnitSize)
        (by rw [List.length_drop]; omega)
      rw [if_pos hlong]
      constructor
      · have hfirst := isFrame_packData (m.draw k) (fun i ↦ m.mem (used + i))
          (show 0 < (data.take packUnitSize).length by omega) (by omega)
        exact List.forall_mem_cons.mpr ⟨hfirst, hframes⟩
      · rw [payload_cons, hpayload]
        exact List.take_append_drop _ _
    · rw [if_neg hlong]
      by_cases hpos : 0 < data.length
      · rw [if_pos hpos]
        constructor
        · intro f hf
          rw [List.mem_singleton.mp hf]
          exact isFrame_packData _ _ hpos (Nat.le_of_not_lt hlong)
        · rw [payload_cons, payload_nil, List.append_nil]
      · rw [if_neg hpos]
        constructor
        · intro f hf
          cases hf
        · have hnil : data = [] := List.length_eq_zero_iff.mp (by omega)
          rw [hnil]
          rfl

/-- A message as the encoder writes it. -/
theorem clientPreEncrypt_eq (m : Message) : clientPreEncrypt m = some (stream (frames m)) := by
  have h := @packLoop_eq m (m.data.length * 2 + 32) (m.data.length + 1) 0 [] m.data
    (Nat.lt_succ_self _) (by rw [List.length_nil]; omega)
  exact h

/-- However the frames of the messages are cut into segments, each side gives the units whose frames
have arrived, and in the end the messages. -/
theorem verify_simple_round_trip (messages : List Message) :
    ∃ wire, messages.mapM clientPreEncrypt = some wire ∧ messages.mapM serverPreEncrypt = some wire ∧
      wire.flatten = stream (messages.flatMap frames) ∧
      ∀ segments : List Bytes, segments.flatten <+: wire.flatten →
        Fits 16384 parse [] segments →
        (∀ postDecrypt ∈ [serverPostDecrypt, clientPostDecrypt],
          Stream.outputs (fun l s ↦ accept (postDecrypt l s)) [] segments =
            some (arrived (messages.flatMap frames) segments.flatten.length)) ∧
        (segments.flatten = wire.flatten →
          ∀ postDecrypt ∈ [serverPostDecrypt, clientPostDecrypt],
            Stream.outputs (fun l s ↦ accept (postDecrypt l s)) [] segments =
              some (messages.map Message.data).flatten) := by
  have hencode : messages.mapM clientPreEncrypt =
      some (messages.map fun m ↦ stream (frames m)) := by
    rw [funext clientPreEncrypt_eq]
    exact List.mapM_pure
  have hspec (m : Message) := @frameLoop_spec m (m.data.length + 1) 0 0 m.data (Nat.lt_succ_self _)
  have hframes : ∀ f ∈ messages.flatMap frames, IsFrame parse f := by
    intro f hf
    obtain ⟨m, -, hm⟩ := List.mem_flatMap.mp hf
    exact (hspec m).1 f hm
  have hpayload : payload (messages.flatMap frames) = (messages.map Message.data).flatten := by
    rw [payload_flatMap]
    exact congrArg List.flatten (List.map_congr_left fun m _ ↦ (hspec m).2)
  refine ⟨_, hencode, hencode, stream_flatMap messages frames, ?_⟩
  intro segments hsegments hfits
  rw [stream_flatMap] at hsegments ⊢
  have houtputs : ∀ postDecrypt ∈ [serverPostDecrypt, clientPostDecrypt],
      Stream.outputs (fun l s ↦ accept (postDecrypt l s)) [] segments =
        some (arrived (messages.flatMap frames) segments.flatten.length) := by
    intro postDecrypt hmem
    have hrun := outputs_receive rfl hframes hsegments hfits
    rcases List.mem_cons.mp hmem with rfl | hmem
    · exact hrun
    · rw [List.mem_singleton.mp hmem]
      exact hrun
  refine ⟨houtputs, ?_⟩
  intro hall postDecrypt hmem
  rw [houtputs postDecrypt hmem, hall, arrived_all, hpayload]

/-- Three bytes. -/
def shortMessage : Message := ⟨[7, 8, 9], fun _ ↦ 2, fun _ ↦ 0⟩

/-- The frame of three bytes in two segments. -/
theorem short_round_trip :
    ∃ wire, [shortMessage].mapM clientPreEncrypt = some wire ∧
      Stream.outputs (fun l s ↦ accept (serverPostDecrypt l s)) []
        [wire.flatten.take 4, wire.flatten.drop 4] = some [7, 8, 9] := by
  obtain ⟨wire, hwire, -, -, h⟩ := verify_simple_round_trip [shortMessage]
  have hall : [wire.flatten.take 4, wire.flatten.drop 4].flatten = wire.flatten := by
    simp
  refine ⟨wire, hwire, (h _ (by rw [hall]) ?_).2 hall _ List.mem_cons_self⟩
  have hfits : wire = [stream (frames shortMessage)] := (Option.some.inj hwire).symm
  subst hfits
  refine ⟨by decide, ?_⟩
  intro left out hfeed
  have hleft : some (List.take 4 [stream (frames shortMessage)].flatten, []) = some (left, out) :=
    hfeed
  cases hleft
  exact ⟨by decide, fun _ _ _ ↦ trivial⟩

end OpenWrtCompile.Protocol.VerifySimple
