import OpenWrtCompile.Base.Framing
import OpenWrtCompile.Obfs.Tls12Client

/-!
# The data phase of `tls1.2_ticket_auth`

With `handshake_status == 8` both sides put messages into records and take them out again
(`shadowsocksr-libev/src/server/tls1.2_ticket.c:75–129`, `271–310`, `377–398`, `425–453`). An encoder
collects the records of a long message in a block of 2048 bytes more than the message has.
-/

namespace OpenWrtCompile.Obfs
open OpenWrtCompile.Base OpenWrtCompile.Base.Framing

/-! ## Records as frames -/

/-- The records of a message that is cut by draws, each with its data. -/
def cutLoop (draw : Nat → UInt64) : Nat → Nat → Bytes → List (Bytes × Bytes)
  | 0, _, _ => []
  | fuel + 1, k, data =>
    if 2048 < data.length then
      (packData (data.take (recordLength (draw k) data.length)),
          data.take (recordLength (draw k) data.length)) ::
        cutLoop draw fuel (k + 1) (data.drop (recordLength (draw k) data.length))
    else if 0 < data.length then [(packData data, data)]
    else []

/-- The records of a message. -/
def records (c : Call) : List (Bytes × Bytes) :=
  if c.data.length < 1024 then [(packData c.data, c.data)]
  else cutLoop c.draw (c.data.length + 1) 0 c.data

/-- The headers of the records fit into the 2048 bytes: one record, or 409 at most. -/
def HeadersFit (c : Call) : Prop := c.data.length < 1024 ∨ 5 * (records c).length ≤ 2048

/-- A pass over `recv_buffer`; `good` says what the header of a record may be. -/
def parseRecord (good : Bytes → Bool) (b : Bytes) : Parsed UInt8 :=
  if 5 < b.length then
    if !good b then .bad
    else if b.length < be16 b 3 + 5 then .more
    else .frame (window b 5 (be16 b 3)) (5 + be16 b 3)
  else .more

/-- The header the server takes. -/
def serverHeader (b : Bytes) : Bool := byteAt b 0 = 0x17 && byteAt b 1 = 0x03 && byteAt b 2 = 0x03

/-- The loop of the server. -/
theorem decodeRecords_eq_loop (fuel : Nat) (recv out : Bytes) (capacity : Nat) :
    decodeRecords fuel recv out capacity =
      recordsLoop serverHeader (fun capacity pending _ size ↦
        if capacity < pending + size then (pending + size) * 2 else capacity)
        fuel recv out capacity := by
  induction fuel generalizing recv out capacity with
  | zero => rfl
  | succ fuel ih =>
    have hheader : (!serverHeader recv) =
        (byteAt recv 0 ≠ 0x17 || byteAt recv 1 ≠ 0x03 || byteAt recv 2 ≠ 0x03 : Bool) := by
      simp only [serverHeader, Bool.not_and, decide_not]
    simp only [decodeRecords, recordsLoop, hheader, ih]

/-- The loop does what the receiver of frames does. -/
theorem recordsLoop_eq {good : Bytes → Bool} {grow : Nat → Nat → Nat → Nat → Nat} {fuel : Nat}
    {recv out left out' : Bytes} (capacity : Nat)
    (h : decode (parseRecord good) fuel recv out = .kept left out') :
    (recordsLoop good grow fuel recv out capacity).1 = left ∧
      (recordsLoop good grow fuel recv out capacity).2.1 = some out' := by
  induction fuel generalizing recv out capacity with
  | zero =>
    cases h
    exact ⟨rfl, rfl⟩
  | succ fuel ih =>
    rw [decode, parseRecord] at h
    rw [recordsLoop]
    by_cases hlen : 5 < recv.length
    · rw [if_pos hlen] at h ⊢
      cases hgood : good recv with
      | false =>
        simp only [hgood, Bool.not_false, if_true] at h
        cases h
      | true =>
        simp only [hgood, Bool.not_true, Bool.false_eq_true, if_false] at h ⊢
        by_cases hshort : recv.length < be16 recv 3 + 5
        · rw [if_pos hshort] at h ⊢
          cases h
          exact ⟨rfl, rfl⟩
        · rw [if_neg hshort] at h ⊢
          exact ih _ h
    · rw [if_neg hlen] at h ⊢
      cases h
      exact ⟨rfl, rfl⟩

/-- Where the loop puts something out, the receiver of frames puts out the same. -/
theorem decode_of_recordsLoop {good : Bytes → Bool} {grow : Nat → Nat → Nat → Nat → Nat} {fuel : Nat}
    {recv out out' : Bytes} {capacity : Nat}
    (h : (recordsLoop good grow fuel recv out capacity).2.1 = some out') :
    ∃ left, decode (parseRecord good) fuel recv out = .kept left out' := by
  induction fuel generalizing recv out capacity with
  | zero =>
    cases h
    exact ⟨recv, rfl⟩
  | succ fuel ih =>
    rw [recordsLoop] at h
    rw [decode, parseRecord]
    by_cases hlen : 5 < recv.length
    · rw [if_pos hlen] at h ⊢
      cases hgood : good recv with
      | false =>
        simp only [hgood, Bool.not_false, if_true] at h
        cases h
      | true =>
        simp only [hgood, Bool.not_true, Bool.false_eq_true, if_false] at h ⊢
        by_cases hshort : recv.length < be16 recv 3 + 5
        · rw [if_pos hshort] at h ⊢
          cases h
          exact ⟨recv, rfl⟩
        · rw [if_neg hshort] at h ⊢
          exact ih h
    · rw [if_neg hlen] at h ⊢
      cases h
      exact ⟨recv, rfl⟩

/-- Its length. -/
theorem length_packData (data : Bytes) : (packData data).length = data.length + 5 := by
  simp only [packData, bytes16, List.length_append, List.length_cons, List.length_nil]
  omega

/-- A record is a frame for a decoder that takes its header. -/
theorem isFrame_packData {good : Bytes → Bool} {data : Bytes} (hlen : data.length < 65536)
    (hgood : ∀ rest, good (0x17 :: 0x03 :: 0x03 :: rest) = true) :
    IsFrame (parseRecord good) (packData data, data) := by
  have hsize (rest : Bytes) : be16 (packData data ++ rest) 3 = data.length :=
    word16_bytes16 hlen
  have hwindow (rest : Bytes) : window (packData data ++ rest) 5 data.length = data := by
    show (data ++ rest).take data.length = data
    exact List.take_left
  have hplen := length_packData data
  have hframe (rest : Bytes) (hlong : 5 < (packData data ++ rest).length) :
      parseRecord good (packData data ++ rest) = .frame data (packData data).length := by
    have hwhole : ¬ (packData data ++ rest).length < data.length + 5 := by
      rw [List.length_append]
      omega
    have hheader : good (packData data ++ rest) = true := hgood _
    rw [parseRecord, if_pos hlong, hheader, hsize, if_neg hwhole, hwindow, hplen, Nat.add_comm 5]
    rfl
  constructor
  · exact List.cons_ne_nil _ _
  · intro rest hrest
    apply hframe
    have hpos := List.length_pos_iff.mpr hrest
    rw [List.length_append]
    omega
  · by_cases hdata : data = []
    · right
      subst hdata
      exact ⟨rfl, rfl⟩
    · left
      have hpos := List.length_pos_iff.mpr hdata
      have h := hframe [] (by rw [List.append_nil]; omega)
      rwa [List.append_nil] at h
  · intro q hq hne
    have hlt : q.length < data.length + 5 := by
      have hle := hq.length_le
      apply Nat.lt_of_le_of_ne (hplen ▸ hle)
      intro heq
      exact hne (hq.eq_of_length (heq.trans hplen.symm))
    by_cases hlong : 5 < q.length
    · have hqsize : be16 q 3 = data.length := by
        rw [← hsize [], List.append_nil]
        simp only [be16, byteAt, getD_eq_of_start hq (show 3 < q.length by omega),
          getD_eq_of_start hq (show 3 + 1 < q.length by omega)]
      have hqgood : good q = true := by
        obtain ⟨n, hn⟩ : ∃ n, q.length = n + 3 := ⟨q.length - 3, by omega⟩
        rw [List.prefix_iff_eq_take.mp hq, hn]
        exact hgood _
      rw [parseRecord, if_pos hlong, hqgood, hqsize, if_pos hlt]
      rfl
    · exact if_neg hlong

/-! ## The encoders -/

instance (c : Call) : Decidable (HeadersFit c) := inferInstanceAs (Decidable (_ ∨ _))

/-- The loop puts out the records where the block holds them all. -/
theorem recordLoop_eq (draw : Nat → UInt64) (size : Nat) {fuel k : Nat} {out data : Bytes}
    (hfuel : data.length < fuel) (hout : out.length ≤ size) :
    recordLoop draw size fuel k out data =
      if out.length + data.length + 5 * (cutLoop draw fuel k data).length ≤ size then
        some (out ++ stream (cutLoop draw fuel k data)) else none := by
  induction fuel generalizing k out data with
  | zero => omega
  | succ fuel ih =>
    rw [recordLoop, cutLoop]
    by_cases hlong : 2048 < data.length
    · rw [if_pos hlong, if_pos hlong]
      have hlen : 0 < recordLength (draw k) data.length ∧
          recordLength (draw k) data.length ≤ data.length := by
        unfold recordLength
        omega
      generalize recordLength (draw k) data.length = len at hlen
      have htake : (data.take len).length = len := by
        rw [List.length_take]
        omega
      have hrecord := length_packData (data.take len)
      have hdrop : (data.drop len).length = data.length - len := List.length_drop
      by_cases hput : out.length + (packData (data.take len)).length ≤ size
      · have hrest := @ih (k + 1) (out ++ packData (data.take len)) (data.drop len) (by omega)
          (by rw [List.length_append]; omega)
        simp only [putRecord, if_pos hput, Option.bind_eq_bind, Option.bind_some, hrest, stream_cons,
          List.append_assoc, List.length_append, List.length_cons]
        apply if_congr _ rfl rfl
        omega
      · simp only [putRecord, if_neg hput, Option.bind_eq_bind, Option.bind_none, List.length_cons]
        rw [if_neg (by omega)]
    · rw [if_neg hlong, if_neg hlong]
      by_cases hpos : 0 < data.length
      · rw [if_pos hpos, if_pos hpos, putRecord, length_packData, stream_cons, stream_nil,
          List.append_nil]
        apply if_congr _ rfl rfl
        simp only [List.length_cons, List.length_nil]
        omega
      · rw [if_neg hpos, if_neg hpos, stream_nil, List.append_nil]
        exact (if_pos (by simp only [List.length_nil]; omega)).symm

/-- The records of a cut are frames, and carry the message. -/
theorem cutLoop_spec {good : Bytes → Bool} (hgood : ∀ rest, good (0x17 :: 0x03 :: 0x03 :: rest) = true)
    (draw : Nat → UInt64) {fuel k : Nat} {data : Bytes} (hfuel : data.length < fuel) :
    (∀ f ∈ cutLoop draw fuel k data, IsFrame (parseRecord good) f) ∧
      payload (cutLoop draw fuel k data) = data := by
  induction fuel generalizing k data with
  | zero => omega
  | succ fuel ih =>
    rw [cutLoop]
    by_cases hlong : 2048 < data.length
    · rw [if_pos hlong]
      have hlen : 0 < recordLength (draw k) data.length ∧
          recordLength (draw k) data.length < 65536 := by
        have hdraw : (draw k % 4096).toNat < 4096 := by
          rw [UInt64.toNat_mod]
          exact Nat.mod_lt _ (by decide)
        unfold recordLength
        omega
      obtain ⟨hframes, hpayload⟩ := @ih (k + 1)
        (data.drop (recordLength (draw k) data.length)) (by rw [List.length_drop]; omega)
      constructor
      · have htake : (data.take (recordLength (draw k) data.length)).length < 65536 := by
          rw [List.length_take]
          omega
        exact List.forall_mem_cons.mpr ⟨isFrame_packData htake hgood, hframes⟩
      · rw [payload_cons, hpayload]
        exact List.take_append_drop _ _
    · rw [if_neg hlong]
      by_cases hpos : 0 < data.length
      · rw [if_pos hpos]
        constructor
        · intro f hf
          rw [List.mem_singleton.mp hf]
          exact isFrame_packData (by omega) hgood
        · rw [payload_cons, payload_nil, List.append_nil]
      · rw [if_neg hpos]
        constructor
        · intro f hf
          cases hf
        · have hnil : data = [] := List.length_eq_zero_iff.mp (by omega)
          rw [hnil]
          rfl

/-- The records of a message are frames, and carry the message. -/
theorem records_spec {good : Bytes → Bool} (hgood : ∀ rest, good (0x17 :: 0x03 :: 0x03 :: rest) = true)
    (c : Call) : (∀ f ∈ records c, IsFrame (parseRecord good) f) ∧ payload (records c) = c.data := by
  unfold records
  split
  · next hshort =>
    constructor
    · intro f hf
      rw [List.mem_singleton.mp hf]
      exact isFrame_packData (by omega) hgood
    · rw [payload_cons, payload_nil, List.append_nil]
  · exact cutLoop_spec hgood c.draw (Nat.lt_succ_self _)

/-- An encoder puts out the records of a message where their headers fit. -/
theorem dataEncode_eq (c : Call) :
    dataEncode c = if HeadersFit c then some (stream (records c)) else none := by
  unfold dataEncode HeadersFit records
  by_cases hshort : c.data.length < 1024
  · simp only [hshort, if_true, true_or, stream_cons, stream_nil, List.append_nil]
  · simp only [hshort, if_false, false_or]
    have hfuel : c.data.length < c.data.length + 1 := Nat.lt_succ_self _
    rw [recordLoop_eq c.draw _ hfuel (Nat.zero_le _), List.nil_append]
    apply if_congr _ rfl rfl
    rw [List.length_nil]
    omega

/-! ## The decoders -/

/-- `n` bytes received into the block `mem`. -/
structure Block where
  mem : Bytes
  n : Nat

/-- The bytes received. -/
def Block.bytes (b : Block) : Bytes := b.mem.take b.n

/-- A call of `server_decode` that succeeds. -/
def serverReceive (hmac : Bytes → Bytes → Bytes) (info : ServerInfo) (now : Int) (g : GlobalData)
    (l : LocalData) (b : Block) : Option (LocalData × Bytes) :=
  (serverDecode hmac info now l g b.mem b.n).bind fun d ↦ d.output.map (Prod.mk d.localData)

/-- A call of `client_decode` that succeeds. -/
def clientReceive (hmac : Bytes → Bytes → Bytes) (info : ServerInfo) (g : GlobalData)
    (l : LocalData) (b : Block) : Option (LocalData × Bytes) :=
  (clientDecode hmac info l g b.mem b.n).output.map
    (Prod.mk (clientDecode hmac info l g b.mem b.n).localData)

/-- Both headers are those of a record. -/
theorem serverHeader_record (rest : Bytes) : serverHeader (0x17 :: 0x03 :: 0x03 :: rest) = true := rfl

/-- Both headers are those of a record. -/
theorem clientHeader_record (rest : Bytes) : clientHeader (0x17 :: 0x03 :: 0x03 :: rest) = true := rfl

/-- The loop over records follows the receiver of frames. -/
theorem recordsLoop_of_feed {good : Bytes → Bool} (grow : Nat → Nat → Nat → Nat → Nat)
    {pending segment left out : Bytes} (capacity : Nat)
    (h : feed (parseRecord good) pending segment = some (left, out)) :
    (recordsLoop good grow ((pending ++ segment).length + 1) (pending ++ segment) [] capacity).1 =
        left ∧
      (recordsLoop good grow ((pending ++ segment).length + 1) (pending ++ segment) []
        capacity).2.1 = some out := by
  unfold feed at h
  split at h
  · next hkept =>
    cases h
    exact recordsLoop_eq capacity hkept
  · cases h

/-- `server_decode` in the data phase. -/
theorem serverReceive_done {hmac : Bytes → Bytes → Bytes} {info : ServerInfo} {now : Int}
    {g : GlobalData} (sendBuffer : Bytes) {pending left out : Bytes} (b : Block)
    (h : feed (parseRecord serverHeader) pending b.bytes = some (left, out)) :
    serverReceive hmac info now g ⟨.done, sendBuffer, pending⟩ b =
      some (⟨.done, sendBuffer, left⟩, out) := by
  obtain ⟨hleft, hout⟩ := recordsLoop_of_feed (fun capacity pending _ size ↦
    if capacity < pending + size then (pending + size) * 2 else capacity) b.mem.length h
  rw [← decodeRecords_eq_loop] at hleft hout
  simp only [serverReceive, serverDecode, decodeData, Option.bind_some]
  rw [← Block.bytes, hleft, hout]
  rfl

/-- `client_decode` in the data phase. -/
theorem clientReceive_done {hmac : Bytes → Bytes → Bytes} {info : ServerInfo} {g : GlobalData}
    (sendBuffer : Bytes) {pending left out : Bytes} (b : Block)
    (h : feed (parseRecord clientHeader) pending b.bytes = some (left, out)) :
    clientReceive hmac info g ⟨.done, sendBuffer, pending⟩ b =
      some (⟨.done, sendBuffer, left⟩, out) := by
  obtain ⟨hleft, hout⟩ := recordsLoop_of_feed (fun capacity _ put size ↦
    if capacity < put + size then (put + size) * 2 else capacity) b.mem.length h
  simp only [clientReceive, clientDecode, clientDecodeData, clientDecodeRecords]
  rw [← Block.bytes, hleft, hout]
  rfl

/-! ## Messages over the wire -/

/-- An encoder of the data phase puts out the records of its messages, where their headers fit. -/
theorem outputs_encode {encode : LocalData → Call → Option (LocalData × Bytes)} {l : LocalData}
    (hencode : ∀ c, encode l c = (dataEncode c).map (Prod.mk l)) (calls : List Call) :
    Stream.outputs encode l calls =
      if ∀ c ∈ calls, HeadersFit c then some (stream (calls.flatMap records)) else none := by
  induction calls with
  | nil => exact (if_pos (by simp)).symm
  | cons c calls ih =>
    rw [Stream.outputs, hencode, dataEncode_eq]
    by_cases hc : HeadersFit c
    · rw [if_pos hc]
      simp only [Option.map_some, ih, List.forall_mem_cons, hc, true_and]
      split
      · rw [Option.map_some, List.flatMap_cons, stream_append]
      · rfl
    · rw [if_neg hc]
      simp [hc]

/-- What is pending when the handshake is over: nothing, or the empty record that the last call of
the client's handshake queues behind its data. -/
def startPending (leftover : Bool) : Bytes := if leftover then packData [] else []

/-- The record that is pending at the start. -/
def startRecords (leftover : Bool) : List (Bytes × Bytes) :=
  if leftover then [(packData [], [])] else []

/-- However the records of messages are cut into segments, a decoder gives the data of those that
have arrived. -/
theorem outputs_receive_records {good : Bytes → Bool}
    (hgood : ∀ rest, good (0x17 :: 0x03 :: 0x03 :: rest) = true)
    {step : LocalData → Block → Option (LocalData × Bytes)} {sendBuffer : Bytes}
    (hstep : ∀ pending b left out, feed (parseRecord good) pending b.bytes = some (left, out) →
      step ⟨.done, sendBuffer, pending⟩ b = some (⟨.done, sendBuffer, left⟩, out))
    (leftover : Bool) (calls : List Call) {blocks : List Block}
    (hblocks : (blocks.map Block.bytes).flatten <+: stream (calls.flatMap records)) :
    Stream.outputs step ⟨.done, sendBuffer, startPending leftover⟩ blocks =
      some (arrived (calls.flatMap records) (blocks.map Block.bytes).flatten.length) := by
  have hframes : ∀ f ∈ startRecords leftover ++ calls.flatMap records,
      IsFrame (parseRecord good) f := by
    intro f hf
    rcases List.mem_append.mp hf with hf | hf
    · cases leftover with
      | false => cases hf
      | true =>
        rw [List.mem_singleton.mp hf]
        exact isFrame_packData (by decide) hgood
    · obtain ⟨c, -, hc⟩ := List.mem_flatMap.mp hf
      exact (records_spec hgood c).1 f hc
  have hstream : stream (startRecords leftover) = startPending leftover := by
    cases leftover <;> rfl
  have hpayload : payload (startRecords leftover) = [] := by
    cases leftover <;> rfl
  have hopen : Open (parseRecord good) (startRecords leftover ++ calls.flatMap records)
      (startPending leftover) := by
    constructor
    · rw [stream_append, hstream]
      exact List.prefix_append _ _
    · have h := arrived_append (startRecords leftover) (calls.flatMap records) 0
      rw [Nat.add_zero, hstream, hpayload] at h
      rw [h, arrived_zero fun f hf ↦ (hframes f (List.mem_append_right _ hf)).ne_nil,
        List.append_nil]
  have hsegments : startPending leftover ++ (blocks.map Block.bytes).flatten <+:
      stream (startRecords leftover ++ calls.flatMap records) := by
    rw [stream_append, hstream]
    exact (List.prefix_append_right_inj _).mpr hblocks
  have hrun := outputs_feed rfl hframes hopen hsegments
  rw [List.length_append, ← hstream, arrived_append, hpayload, List.nil_append, hstream] at hrun
  exact Stream.outputs_of_follows (fun pending b left out ↦ hstep pending b left out) hrun

/-- In the data phase, messages cut into records, and the records cut into segments, come out as they
went in, on both sides and at every time up to the last whole record, exactly when the headers of
each message's records fit. -/
theorem data_phase_iff (hmac : Bytes → Bytes → Bytes) (info info' : ServerInfo) (host : Bytes)
    (now : Int) (g g' : GlobalData) (sendBuffer recvBuffer : Bytes) (leftover : Bool)
    (calls : List Call) :
    (∃ wire,
      Stream.outputs (clientEncode hmac info host g) ⟨.done, sendBuffer, recvBuffer⟩ calls =
          some wire ∧
        Stream.outputs (serverEncode hmac info' g') ⟨.done, sendBuffer, recvBuffer⟩ calls =
          some wire ∧
        ∀ blocks : List Block, (blocks.map Block.bytes).flatten <+: wire →
          Stream.outputs (serverReceive hmac info' now g')
              ⟨.done, sendBuffer, startPending leftover⟩ blocks =
            some (arrived (calls.flatMap records) (blocks.map Block.bytes).flatten.length) ∧
          Stream.outputs (clientReceive hmac info g)
              ⟨.done, sendBuffer, startPending leftover⟩ blocks =
            some (arrived (calls.flatMap records) (blocks.map Block.bytes).flatten.length) ∧
          ((blocks.map Block.bytes).flatten = wire →
            Stream.outputs (serverReceive hmac info' now g')
                ⟨.done, sendBuffer, startPending leftover⟩ blocks =
              some (calls.map Call.data).flatten ∧
            Stream.outputs (clientReceive hmac info g)
                ⟨.done, sendBuffer, startPending leftover⟩ blocks =
              some (calls.map Call.data).flatten)) ↔
      ∀ c ∈ calls, HeadersFit c := by
  have hclient := @outputs_encode (clientEncode hmac info host g) ⟨.done, sendBuffer, recvBuffer⟩
    (fun c ↦ if_pos rfl) calls
  have hserver := @outputs_encode (serverEncode hmac info' g') ⟨.done, sendBuffer, recvBuffer⟩
    (fun c ↦ if_pos rfl) calls
  constructor
  · rintro ⟨wire, hwire, -, -⟩
    by_contra hfit
    rw [hclient, if_neg hfit] at hwire
    cases hwire
  · intro hfit
    rw [if_pos hfit] at hclient hserver
    refine ⟨_, hclient, hserver, ?_⟩
    intro blocks hblocks
    have hs := outputs_receive_records serverHeader_record
      (fun pending b left out ↦ @serverReceive_done hmac info' now g' sendBuffer pending left out b)
      leftover calls hblocks
    have hc := outputs_receive_records clientHeader_record
      (fun pending b left out ↦ @clientReceive_done hmac info g sendBuffer pending left out b)
      leftover calls hblocks
    have hpayload : payload (calls.flatMap records) = (calls.map Call.data).flatten := by
      rw [payload_flatMap]
      exact congrArg List.flatten
        (List.map_congr_left fun c _ ↦ (records_spec serverHeader_record c).2)
    refine ⟨hs, hc, fun hall ↦ ?_⟩
    rw [hs, hc, hall, arrived_all, hpayload]
    exact ⟨rfl, rfl⟩

/-- Records of 100 bytes each. -/
theorem length_cutLoop_zero {fuel k : Nat} {data : Bytes} (hfuel : data.length < fuel) :
    data.length ≤ 100 * (cutLoop (fun _ ↦ 0) fuel k data).length + 2048 := by
  induction fuel generalizing k data with
  | zero => omega
  | succ fuel ih =>
    rw [cutLoop]
    by_cases hlong : 2048 < data.length
    · have hlen : recordLength 0 data.length = 100 := by
        show min 100 data.length = 100
        omega
      have hrest := @ih (k + 1) (data.drop 100) (by rw [List.length_drop]; omega)
      rw [if_pos hlong, List.length_cons, hlen]
      rw [List.length_drop] at hrest
      omega
    · omega

/-- The headers of a message of 43048 bytes do not fit when the draws are all zero. -/
theorem not_headersFit_zero {data : Bytes} (rand : Nat → UInt8) (now : Nat)
    (hlen : 43048 ≤ data.length) : ¬ HeadersFit ⟨data, fun _ ↦ 0, rand, now⟩ := by
  have hshort : ¬ data.length < 1024 := by omega
  have hcut := @length_cutLoop_zero (data.length + 1) 0 data (Nat.lt_succ_self _)
  rintro (h | h)
  · exact hshort h
  · rw [records, if_neg hshort] at h
    have hmany : 5 * (cutLoop (fun _ ↦ 0) (data.length + 1) 0 data).length ≤ 2048 := h
    omega

/-- Of such a message `client_encode` overruns `out_buffer`. -/
theorem long_message_overruns :
    ¬ ∃ wire, Stream.outputs (clientEncode (fun _ _ ↦ []) ⟨[], none⟩ [] ⟨[], [], 0⟩) ⟨.done, [], []⟩
      [⟨List.replicate 45000 0, fun _ ↦ 0, fun _ ↦ 0, 0⟩] = some wire := by
  have hfit := @not_headersFit_zero (List.replicate 45000 0) (fun _ ↦ 0) 0
    (by rw [List.length_replicate]; omega)
  generalize List.replicate 45000 (0 : UInt8) = data at hfit
  rintro ⟨wire, hwire⟩
  rw [@outputs_encode (clientEncode (fun _ _ ↦ []) ⟨[], none⟩ [] ⟨[], [], 0⟩) ⟨.done, [], []⟩
    (fun c ↦ if_pos rfl) _, if_neg (by simpa using hfit)] at hwire
  cases hwire

end OpenWrtCompile.Obfs
