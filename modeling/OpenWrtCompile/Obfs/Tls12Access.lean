import OpenWrtCompile.Base.Logged
import OpenWrtCompile.Obfs.Tls12Ticket

/-!
# The memory accesses of `tls12_ticket_auth_server_decode`

`shadowsocksr-libev/src/server/tls1.2_ticket.c:416–612`. In the data phase every copy into the output
buffer is recorded with the capacity behind the check that precedes it; while the handshake lasts,
every read of the received bytes and the copy of the session id are.
-/

namespace OpenWrtCompile.Obfs
open OpenWrtCompile.Base

/-! ## The data phase -/

/-- `memcpy(encryptdata + datalength, recv_buffer + 5, size)` into a block of `capacity` bytes. -/
structure Write where
  off : Nat
  len : Nat
  capacity : Nat
  deriving DecidableEq, Repr

/-- The bytes written lie below the capacity. -/
def Write.Inside (w : Write) : Prop := w.off + w.len ≤ w.capacity

/-- The loop over TLS records with its copies; the error is the return value -1, with what is left of
`recv_buffer` and the capacity. -/
def copyRecords : Nat → Bytes → Bytes → Nat → Logged Write (Bytes × Nat) (Bytes × Bytes × Nat)
  | 0, recv, out, capacity => pure (recv, out, capacity)
  | fuel + 1, recv, out, capacity =>
    if 5 < recv.length then
      if byteAt recv 0 ≠ 0x17 || byteAt recv 1 ≠ 0x03 || byteAt recv 2 ≠ 0x03 then
        .fail (recv, capacity)
      else
        let size := be16 recv 3
        if recv.length < size + 5 then pure (recv, out, capacity)
        else do
          let capacity :=
            if capacity < recv.length + size then (recv.length + size) * 2 else capacity
          Logged.access (Write.mk out.length size capacity) ()
          copyRecords fuel (recv.drop (5 + size)) (out ++ window recv 5 size) capacity
    else pure (recv, out, capacity)

/-- `server_decode` with `handshake_status == 8`. -/
def copyData (recvBuffer data : Bytes) (capacity : Nat) :
    Logged Write (Bytes × Nat) (Bytes × Bytes × Nat) :=
  copyRecords ((recvBuffer ++ data).length + 1) (recvBuffer ++ data) [] capacity

/-- The loop without its record is that of `server_decode`. -/
theorem result_copyRecords (fuel : Nat) (recv out : Bytes) (capacity : Nat) :
    decodeRecords fuel recv out capacity =
      match (copyRecords fuel recv out capacity).result with
      | .ok (left, out, capacity) => (left, some out, capacity)
      | .error (left, capacity) => (left, none, capacity) := by
  induction fuel generalizing recv out capacity with
  | zero => rfl
  | succ fuel ih =>
    rw [decodeRecords, copyRecords]
    by_cases hlen : 5 < recv.length
    · rw [if_pos hlen, if_pos hlen]
      by_cases hbad : (byteAt recv 0 ≠ 0x17 || byteAt recv 1 ≠ 0x03 || byteAt recv 2 ≠ 0x03) = true
      · rw [if_pos hbad, if_pos hbad]
        rfl
      · rw [if_neg hbad, if_neg hbad]
        by_cases hpart : recv.length < be16 recv 3 + 5
        · simp only [hpart, if_true]
          rfl
        · simp only [hpart, if_false, ih, Logged.result_bind, Logged.result_access, Except.bind]
    · rw [if_neg hlen, if_neg hlen]
      rfl

/-- The relation that carries the capacity check over the loop: from the first copy on the block has
room for what was written and all that is pending, though each check looks at the pending bytes
only. -/
def HasRoom (recv out : Bytes) (capacity : Nat) : Prop :=
  out = [] ∨ out.length + recv.length ≤ capacity

/-- Every copy of the loop lies below the capacity. -/
theorem copyRecords_inside {fuel : Nat} {recv out : Bytes} {capacity : Nat}
    (h : HasRoom recv out capacity) : (copyRecords fuel recv out capacity).All Write.Inside := by
  induction fuel generalizing recv out capacity with
  | zero => exact Logged.all_pure _
  | succ fuel ih =>
    rw [copyRecords]
    simp only [Logged.all_ite, Logged.all_fail, Logged.all_pure, implies_true, and_true, true_and,
      Logged.all_bind, Logged.all_access]
    intro hlen _ hwhole
    have hgrow : capacity ≤ (if capacity < recv.length + be16 recv 3 then
          (recv.length + be16 recv 3) * 2 else capacity) ∧
        recv.length + be16 recv 3 ≤ (if capacity < recv.length + be16 recv 3 then
          (recv.length + be16 recv 3) * 2 else capacity) := by
      split <;> omega
    have hwindow : (window recv 5 (be16 recv 3)).length = be16 recv 3 :=
      length_window (by omega)
    constructor
    · rcases h with rfl | h
      · simp only [Write.Inside, List.length_nil]
        omega
      · simp only [Write.Inside]
        omega
    · intro _ _
      apply ih
      right
      rw [List.length_append, hwindow, List.length_drop]
      rcases h with rfl | h
      · rw [List.length_nil]
        omega
      · omega

/-- A 16-bit number. -/
theorem be16_le (mem : Bytes) (i : Nat) : be16 mem i ≤ 65535 := by
  have hhigh := (byteAt mem i).toNat_lt
  have hlow := (byteAt mem (i + 1)).toNat_lt
  unfold be16
  omega

/-- The loop puts out no more than was pending, keeps the rest, and never shrinks the block; what it
asks for is twice the pending bytes and one record at most. -/
theorem copyRecords_bounds {fuel : Nat} {recv out left out' : Bytes} {capacity capacity' : Nat}
    (h : (copyRecords fuel recv out capacity).result = .ok (left, out', capacity')) :
    left.length + out'.length ≤ recv.length + out.length ∧ capacity ≤ capacity' ∧
      capacity' ≤ max capacity ((recv.length + 65535) * 2) := by
  induction fuel generalizing recv out capacity with
  | zero =>
    rw [copyRecords] at h
    cases h
    omega
  | succ fuel ih =>
    rw [copyRecords] at h
    split at h
    · split at h
      · cases h
      · dsimp only at h
        by_cases hpart : recv.length < be16 recv 3 + 5
        · rw [if_pos hpart] at h
          cases h
          omega
        · rw [if_neg hpart, Logged.result_bind, Logged.result_access] at h
          have hsize := be16_le recv 3
          have hrest := ih h
          have hwindow : (window recv 5 (be16 recv 3)).length = be16 recv 3 :=
            length_window (by omega)
          rw [List.length_append, hwindow, List.length_drop] at hrest
          split at hrest <;> omega
    · cases h
      omega

/-- What the loop leaves is no whole record: with the bytes behind it, it starts one of at most 65540
bytes. -/
theorem copyRecords_left {fuel : Nat} {recv out left out' : Bytes} {capacity capacity' : Nat}
    (hfuel : recv.length < fuel)
    (h : (copyRecords fuel recv out capacity).result = .ok (left, out', capacity')) :
    left.length ≤ 65539 := by
  induction fuel generalizing recv out capacity with
  | zero => omega
  | succ fuel ih =>
    rw [copyRecords] at h
    split at h
    · split at h
      · cases h
      · dsimp only at h
        by_cases hpart : recv.length < be16 recv 3 + 5
        · rw [if_pos hpart] at h
          cases h
          have hsize := be16_le left 3
          omega
        · rw [if_neg hpart, Logged.result_bind, Logged.result_access] at h
          have hrest : (recv.drop (5 + be16 recv 3)).length < fuel := by
            rw [List.length_drop]
            omega
          exact ih hrest h
    · cases h
      omega

/-- The calls of a run in the data phase, each a segment with the capacity of its block: the pending
bytes before it, the segment and the capacity. -/
def dataCalls : Bytes → List (Bytes × Nat) → List (Bytes × Bytes × Nat)
  | _, [] => []
  | recvBuffer, (data, capacity) :: rest =>
    (recvBuffer, data, capacity) ::
      match (copyData recvBuffer data capacity).result with
      | .ok (left, _) => dataCalls left rest
      | .error (left, _) => dataCalls left rest

/-- Without its record a call is `server_decode` with `handshake_status == 8`. -/
theorem decodeData_eq (l : LocalData) (g : GlobalData) (data : Bytes) (capacity : Nat) :
    decodeData l g data capacity =
      match (copyData l.recvBuffer data capacity).result with
      | .ok (left, out, capacity) => ⟨{ l with recvBuffer := left }, g, some out, capacity, false⟩
      | .error (left, capacity) => ⟨{ l with recvBuffer := left }, g, none, capacity, false⟩ := by
  rw [decodeData, result_copyRecords, copyData]
  cases (copyRecords ((l.recvBuffer ++ data).length + 1) (l.recvBuffer ++ data) [] capacity).result <;>
    rfl

/-- In every call of every run each byte is written below the capacity, and no more bytes are returned
than were pending and received; a block that was grown has at most twice the pending bytes and one
record. -/
theorem dataCalls_inside (recvBuffer : Bytes) (segments : List (Bytes × Nat)) :
    ∀ c ∈ dataCalls recvBuffer segments,
      (copyData c.1 c.2.1 c.2.2).All Write.Inside ∧
      ∀ left out capacity, (copyData c.1 c.2.1 c.2.2).result = .ok (left, out, capacity) →
        out.length ≤ c.1.length + c.2.1.length ∧ left.length ≤ 65539 ∧ c.2.2 ≤ capacity ∧
          capacity ≤ max c.2.2 ((c.1.length + c.2.1.length + 65535) * 2) := by
  intro c _
  constructor
  · exact copyRecords_inside (.inl rfl)
  · intro left out capacity h
    have hbounds := copyRecords_bounds h
    have hleft := copyRecords_left (Nat.lt_succ_self _) h
    rw [List.length_append, List.length_nil] at hbounds
    omega

/-- A record of one byte, received in a block of four. -/
def oneByteRecord : Bytes × Nat := ([0x17, 0x03, 0x03, 0x00, 0x01, 0xAA], 4)

/-- The call that receives it writes below the capacity. -/
theorem dataCalls_inside_record :
    (copyData [] oneByteRecord.1 oneByteRecord.2).All Write.Inside ∧
      ∀ left out capacity, (copyData [] oneByteRecord.1 oneByteRecord.2).result =
          .ok (left, out, capacity) →
        out.length ≤ ([] : Bytes).length + oneByteRecord.1.length ∧ left.length ≤ 65539 ∧
          oneByteRecord.2 ≤ capacity ∧
          capacity ≤ max oneByteRecord.2
            ((([] : Bytes).length + oneByteRecord.1.length + 65535) * 2) :=
  dataCalls_inside [] [oneByteRecord] ([], oneByteRecord) List.mem_cons_self

/-! ## The handshake -/

/-- An access of the handshake: a read of the received bytes, or the copy of `len` bytes into
`local_client_id`. -/
inductive Access where
  | read (r : Read)
  | copyId (len : Nat)
  deriving DecidableEq, Repr

/-- Of `n` received bytes only these are read, and a copied id has 32 bytes at most. -/
def Access.Permitted (n : Nat) : Access → Prop
  | .read r => r.Below n
  | .copyId len => len ≤ 32

section Handshake
variable {ε : Type}

/-- `encryptdata[i]`. -/
def readAt (mem : Bytes) (i : Nat) : Logged Access ε UInt8 := .access (.read ⟨i, 1⟩) (byteAt mem i)

/-- The `len` bytes from `i` on. -/
def readWindow (mem : Bytes) (i len : Nat) : Logged Access ε Bytes :=
  .access (.read ⟨i, len⟩) (window mem i len)

/-- `memcpy(local_client_id, src, len)`. -/
def copyId (len : Nat) : Logged Access ε Unit := .access (.copyId len) ()

/-- The comparison of one byte; another byte takes the error path `e`. -/
def expect (e : ε) (mem : Bytes) (i : Nat) (value : UInt8) : Logged Access ε Unit := do
  let c ← readAt mem i
  if c = value then pure () else .fail e

/-- The comparison of a length at `i` with the received bytes behind the first `k`. -/
def expectSize (e : ε) (mem : Bytes) (n i k : Nat) : Logged Access ε Unit := do
  let high ← readAt mem i
  let low ← readAt mem (i + 1)
  if (word16 high low : Int) = n - k then pure () else .fail e

end Handshake

/-- A ClientHello from its session id on. Both ways it ends with the plugin's shared data: the id is
copied before the last tests. -/
def accessSession (hmac : Bytes → Bytes → Bytes) (info : ServerInfo) (now : Int) (g : GlobalData)
    (mem : Bytes) : Logged Access GlobalData GlobalData := do
  let sessionidLen ← readAt mem 43
  if sessionidLen.toInt8.toInt < 32 then .fail g
  else do
    let sessionid ← readWindow mem 44 sessionidLen.toInt8.toInt.toNat
    copyId sessionidLen.toInt8.toInt.toNat
    let g := { g with localClientId := sessionid }
    let verifyid ← readWindow mem 11 22
    let hash := hmac (info.key ++ sessionid) verifyid
    if !acceptableTime info g.startupTime now mem then .fail g
    else do
      let mac ← readWindow mem 33 obfsHmacSha1Len
      if mac ≠ hash.take obfsHmacSha1Len then .fail g
      else if listHaveSameCmp g.clientData verifyid then .fail g
      else pure { g with clientData := listAddBack g.clientData verifyid }

/-- `server_decode` while a ClientHello is awaited, with its accesses. -/
def accessHello (hmac : Bytes → Bytes → Bytes) (info : ServerInfo) (now : Int) (g : GlobalData)
    (mem : Bytes) (n : Nat) : Logged Access GlobalData GlobalData := do
  expect g mem 0 0x16
  expect g mem 1 0x03
  expect g mem 2 0x01
  expectSize g mem n 3 5
  expect g mem 5 0x01
  expect g mem 6 0x00
  expectSize g mem n 7 9
  expect g mem 9 0x03
  expect g mem 10 0x03
  accessSession hmac info now g mem

/-- `server_decode` with `handshake_status == 3`, with its accesses up to the data phase: what it puts
into `recv_buffer`. -/
def accessFinished (hmac : Bytes → Bytes → Bytes) (info : ServerInfo) (g : GlobalData) (mem : Bytes)
    (n : Nat) : Logged Access Unit Bytes :=
  if n < 43 then .fail ()
  else do
    expect () mem 0 0x14
    expect () mem 1 0x03
    expect () mem 2 0x03
    expect () mem 3 0x00
    expect () mem 4 0x01
    expect () mem 5 0x01
    expect () mem 6 0x16
    expect () mem 7 0x03
    expect () mem 8 0x03
    expect () mem 9 0x00
    expect () mem 10 0x20
    let verify ← readWindow mem 0 33
    let mac ← readWindow mem 33 obfsHmacSha1Len
    if mac ≠ (hmac (info.key ++ g.localClientId) verify).take obfsHmacSha1Len then .fail ()
    else readWindow mem 43 (n - 43)

/-- The tests of a ClientHello before its session id. -/
def helloChecks (mem : Bytes) (n : Nat) : List Check :=
  [⟨1, byteAt mem 0 = 0x16⟩, ⟨2, byteAt mem 1 = 0x03⟩, ⟨3, byteAt mem 2 = 0x01⟩,
    ⟨5, be16 mem 3 + 5 = n⟩, ⟨6, byteAt mem 5 = 0x01⟩, ⟨7, byteAt mem 6 = 0x00⟩,
    ⟨9, be16 mem 7 + 9 = n⟩, ⟨10, byteAt mem 9 = 0x03⟩, ⟨11, byteAt mem 10 = 0x03⟩]

/-- A ClientHello that is not all there although every test of what is there holds, or whose session
id is longer than 32 bytes or than what is there. -/
def helloOverreads (mem : Bytes) (n : Nat) : Prop :=
  HoldsUpTo n (helloChecks mem n) ∧
    (n < 44 ∨ 32 < sessionidLen mem ∨ (sessionidLen mem = 32 ∧ n < 76))

section Permitted
variable {ε : Type} {n : Nat}

@[simp] theorem all_readAt {mem : Bytes} {i : Nat} :
    (readAt mem i : Logged Access ε UInt8).All (Access.Permitted n) ↔ i + 1 ≤ n :=
  Logged.all_access

@[simp] theorem all_readWindow {mem : Bytes} {i len : Nat} :
    (readWindow mem i len : Logged Access ε Bytes).All (Access.Permitted n) ↔ i + len ≤ n :=
  Logged.all_access

@[simp] theorem all_copyId {len : Nat} :
    (copyId len : Logged Access ε Unit).All (Access.Permitted n) ↔ len ≤ 32 :=
  Logged.all_access

@[simp] theorem result_readAt (mem : Bytes) (i : Nat) :
    (readAt mem i : Logged Access ε UInt8).result = .ok (byteAt mem i) := rfl

@[simp] theorem result_copyId (len : Nat) :
    (copyId len : Logged Access ε Unit).result = .ok () := rfl

@[simp] theorem result_readWindow (mem : Bytes) (i len : Nat) :
    (readWindow mem i len : Logged Access ε Bytes).result = .ok (window mem i len) := rfl

/-- What follows a comparison is run when the byte is the one expected. -/
theorem all_expect {α : Type} {e : ε} {mem : Bytes} {i : Nat} {value : UInt8}
    {f : Unit → Logged Access ε α} :
    (expect e mem i value >>= f).All (Access.Permitted n) ↔
      i + 1 ≤ n ∧ (decide (byteAt mem i = value) = true → (f ()).All (Access.Permitted n)) := by
  rw [Logged.all_bind_unit]
  unfold expect
  simp only [Logged.all_bind, all_readAt, result_readAt, Except.ok.injEq, Logged.all_ite,
    Logged.all_pure, Logged.all_fail, implies_true, and_true, Logged.result_bind, Except.bind,
    decide_eq_true_eq]
  by_cases h : byteAt mem i = value
  · simp only [h, if_true, Logged.result_pure, true_implies]
  · simp only [h, if_false, Logged.result_fail, reduceCtorEq, false_implies]

/-- What follows the comparison of a length is run when the length is the one expected. -/
theorem all_expectSize {α : Type} {e : ε} {mem : Bytes} {i k : Nat}
    {f : Unit → Logged Access ε α} :
    (expectSize e mem n i k >>= f).All (Access.Permitted n) ↔
      i + 2 ≤ n ∧ (decide (be16 mem i + k = n) = true → (f ()).All (Access.Permitted n)) := by
  rw [Logged.all_bind_unit]
  unfold expectSize
  simp only [Logged.all_bind, all_readAt, result_readAt, Except.ok.injEq, forall_eq',
    Logged.all_ite, Logged.all_pure, Logged.all_fail, implies_true, and_true,
    Logged.result_bind, Except.bind, decide_eq_true_eq]
  have hstop : (i + 1 ≤ n ∧ i + 1 + 1 ≤ n) ↔ i + 2 ≤ n := by omega
  have hsize : ((word16 (byteAt mem i) (byteAt mem (i + 1)) : Int) = n - k) ↔ be16 mem i + k = n := by
    show ((be16 mem i : Int) = n - k) ↔ _
    omega
  rw [hstop]
  by_cases h : be16 mem i + k = n
  · simp only [hsize.mpr h, h, if_true, Logged.result_pure, true_implies]
  · simp only [hsize.not.mpr h, h, if_false, Logged.result_fail, reduceCtorEq, false_implies]

end Permitted

/-- The accesses from the session id on. -/
theorem accessSession_all_iff (hmac : Bytes → Bytes → Bytes) (info : ServerInfo) (now : Int)
    (g : GlobalData) (mem : Bytes) (n : Nat) :
    (accessSession hmac info now g mem).All (Access.Permitted n) ↔
      44 ≤ n ∧ ¬ (32 < sessionidLen mem ∨ (sessionidLen mem = 32 ∧ n < 76)) := by
  unfold accessSession
  simp only [Logged.all_bind, all_readAt, result_readAt, Except.ok.injEq, forall_eq',
    Logged.all_ite, Logged.all_fail, Logged.all_pure, implies_true, true_and, and_true,
    all_readWindow, result_readWindow, all_copyId, obfsHmacSha1Len]
  have hlen : (byteAt mem 43).toInt8.toInt = sessionidLen mem := rfl
  rw [hlen]
  constructor
  · rintro ⟨h44, h⟩
    by_cases hshort : sessionidLen mem < 32
    · omega
    · have hcopy := h hshort
      omega
  · rintro ⟨h44, h⟩
    refine ⟨h44, fun hshort ↦ ⟨by omega, by omega, ?_⟩⟩
    intro _ _
    exact ⟨by omega, fun _ ↦ by omega⟩

/-- The accesses of a ClientHello are permitted exactly when it does not overread. -/
theorem accessHello_all_iff (hmac : Bytes → Bytes → Bytes) (info : ServerInfo) (now : Int)
    (g : GlobalData) (mem : Bytes) (n : Nat) :
    (accessHello hmac info now g mem n).All (Access.Permitted n) ↔ ¬ helloOverreads mem n := by
  have hchain : (accessHello hmac info now g mem n).All (Access.Permitted n) ↔
      Chain n (44 ≤ n ∧ ¬ (32 < sessionidLen mem ∨ (sessionidLen mem = 32 ∧ n < 76)))
        (helloChecks mem n) := by
    unfold accessHello
    simp only [all_expect, all_expectSize, accessSession_all_iff, helloChecks, Chain]
  have hforward : (helloChecks mem n).Pairwise fun a b ↦ a.stop ≤ b.stop := by
    simp [helloChecks]
  have hstop : ∀ c ∈ helloChecks mem n, c.stop ≤ 11 := by
    simp [helloChecks]
  rw [hchain, chain_iff hforward]
  apply not_congr
  apply and_congr_right
  intro _
  constructor
  · rintro (⟨c, hc, hlt⟩ | h)
    · have hle := hstop c hc
      omega
    · omega
  · intro h
    right
    omega

/-- The accesses of a Finished message are always permitted. -/
theorem accessFinished_all (hmac : Bytes → Bytes → Bytes) (info : ServerInfo) (g : GlobalData)
    (mem : Bytes) (n : Nat) : (accessFinished hmac info g mem n).All (Access.Permitted n) := by
  unfold accessFinished
  by_cases hshort : n < 43
  · simp only [hshort, if_true, Logged.all_fail]
  · rw [if_neg hshort]
    iterate 11
      apply all_expect.mpr
      refine ⟨by omega, fun _ ↦ ?_⟩
    have hmac10 : obfsHmacSha1Len = 10 := rfl
    simp only [Logged.all_bind, all_readWindow, result_readWindow, Except.ok.injEq, forall_eq',
      Logged.all_ite, Logged.all_fail, implies_true, true_and]
    exact ⟨by omega, by omega, fun _ ↦ by omega⟩

/-- The value of a run behind a comparison. -/
theorem result_expect {ε α : Type} (e : ε) (mem : Bytes) (i : Nat) (value : UInt8)
    (f : Unit → Logged Access ε α) :
    (expect e mem i value >>= f).result =
      if byteAt mem i = value then (f ()).result else .error e := by
  rw [Logged.result_bind]
  unfold expect
  rw [Logged.result_bind, result_readAt]
  show Except.bind (Logged.result (ite _ _ _)) _ = _
  split <;> rfl

/-- The value of a run behind the comparison of a length. -/
theorem result_expectSize {ε α : Type} (e : ε) (mem : Bytes) (n i k : Nat)
    (f : Unit → Logged Access ε α) :
    (expectSize e mem n i k >>= f).result =
      if be16 mem i + k = n then (f ()).result else .error e := by
  have hsize : ((word16 (byteAt mem i) (byteAt mem (i + 1)) : Int) = n - k) ↔ be16 mem i + k = n := by
    show ((be16 mem i : Int) = n - k) ↔ _
    omega
  rw [Logged.result_bind]
  unfold expectSize
  simp only [Logged.result_bind, result_readAt, Except.bind, hsize]
  by_cases h : be16 mem i + k = n
  · simp only [h, if_true, Logged.result_pure]
  · simp only [h, if_false, Logged.result_fail]

/-- With its accesses left out, `accessHello` ends as `server_decode` does: in the plugin's data, and
with output exactly when the ClientHello is accepted. -/
theorem result_accessHello (hmac : Bytes → Bytes → Bytes) (info : ServerInfo) (now : Int)
    (l : LocalData) (g : GlobalData) (mem : Bytes) (n : Nat) (h : helloOverruns mem n = false) :
    decodeHello hmac info now l g mem n =
      match (accessHello hmac info now g mem n).result with
      | .ok g => some ⟨{ l with handshakeStatus := .clientHello }, g, some [], mem.length, true⟩
      | .error g => some ⟨{ l with handshakeStatus := .clientHello }, g, none, mem.length, false⟩ := by
  have hformat : (byteAt mem 0 = 0x16 ∧ byteAt mem 1 = 0x03 ∧ byteAt mem 2 = 0x01 ∧
      be16 mem 3 + 5 = n ∧ byteAt mem 5 = 0x01 ∧ byteAt mem 6 = 0x00 ∧ be16 mem 7 + 9 = n ∧
        byteAt mem 9 = 0x03 ∧ byteAt mem 10 = 0x03) ↔ helloFormat mem n = true := by
    simp only [helloFormat, Bool.and_eq_true, decide_eq_true_eq, and_assoc]
  have hlen : (byteAt mem 43).toInt8.toInt = sessionidLen mem := rfl
  unfold decodeHello accessHello
  simp only [result_expect, result_expectSize, ← ite_and, hformat]
  cases hf : helloFormat mem n with
  | false => rfl
  | true =>
    have hshort : ¬ 32 < sessionidLen mem := by
      intro hlong
      simp [helloOverruns, hf, hlong] at h
    unfold accessSession
    simp only [Bool.not_true, Bool.false_eq_true, if_false, if_true, hshort, Logged.result_bind,
      result_readAt, Except.bind, hlen]
    by_cases hfew : sessionidLen mem < 32
    · simp only [hfew, if_true, Logged.result_fail]
    · simp only [hfew, if_false, Logged.result_bind, result_readWindow, result_copyId, Except.bind]
      cases ht : acceptableTime info g.startupTime now mem with
      | false => rfl
      | true =>
        simp only [Bool.not_true, Bool.false_eq_true, if_false, Logged.result_bind,
          result_readWindow, Except.bind]
        have hmatch : helloHmac hmac info mem = true ↔ window mem 33 obfsHmacSha1Len =
            (hmac (info.key ++ window mem 44 (sessionidLen mem).toNat) (window mem 11 22)).take
              obfsHmacSha1Len := decide_eq_true_iff
        have hid : window mem 11 22 = verifyId mem := rfl
        by_cases hm : helloHmac hmac info mem = true
        · have heq := hmatch.mp hm
          rw [if_neg (not_not.mpr heq), hm, hid]
          cases listHaveSameCmp g.clientData (verifyId mem) <;> rfl
        · rw [if_pos (hmatch.not.mp hm), if_pos (by rw [Bool.not_eq_true] at hm; rw [hm]; rfl)]
          rfl

/-- The bytes of a window. -/
theorem window_eq_map {mem : Bytes} {i k : Nat} (h : i + k ≤ mem.length) :
    window mem i k = (List.range k).map fun j ↦ byteAt mem (i + j) := by
  apply List.ext_getElem
  · rw [length_window h, List.length_map, List.length_range]
  · intro j hj hj'
    rw [List.length_map, List.length_range] at hj'
    simp only [window, List.getElem_take, List.getElem_drop, List.getElem_map, List.getElem_range,
      byteAt]
    rw [List.getElem?_eq_getElem (by omega)]
    rfl

/-- With its accesses left out, `accessFinished` puts into `recv_buffer` what `server_decode` goes on
with. -/
theorem result_accessFinished (hmac : Bytes → Bytes → Bytes) (info : ServerInfo) (l : LocalData)
    (g : GlobalData) {mem : Bytes} {n : Nat} (hn : n ≤ mem.length) :
    decodeFinished hmac info l g mem n =
      match (accessFinished hmac info g mem n).result with
      | .ok recv =>
        decodeData { l with recvBuffer := recv, handshakeStatus := .done } g [] mem.length
      | .error _ => ⟨l, g, none, mem.length, false⟩ := by
  unfold decodeFinished accessFinished
  by_cases hshort : n < 43
  · simp only [hshort, if_true, decide_true, Bool.true_or, Logged.result_fail]
  · have hfirst : mem.take 6 = [byteAt mem 0, byteAt mem 1, byteAt mem 2, byteAt mem 3,
        byteAt mem 4, byteAt mem 5] := @window_eq_map mem 0 6 (by omega)
    have hsecond : window mem 6 5 = [byteAt mem 6, byteAt mem 7, byteAt mem 8, byteAt mem 9,
        byteAt mem 10] := @window_eq_map mem 6 5 (by omega)
    have hsplit : (byteAt mem 0 = 0x14 ∧ byteAt mem 1 = 0x03 ∧ byteAt mem 2 = 0x03 ∧
        byteAt mem 3 = 0x00 ∧ byteAt mem 4 = 0x01 ∧ byteAt mem 5 = 0x01 ∧ byteAt mem 6 = 0x16 ∧
          byteAt mem 7 = 0x03 ∧ byteAt mem 8 = 0x03 ∧ byteAt mem 9 = 0x00 ∧ byteAt mem 10 = 0x20) ↔
        (mem.take 6 = [0x14, 0x03, 0x03, 0x00, 0x01, 0x01] ∧
          window mem 6 5 = [0x16, 0x03, 0x03, 0x00, 0x20]) := by
      rw [hfirst, hsecond]
      simp only [List.cons.injEq, and_true, and_assoc]
    have hzero : window mem 0 33 = mem.take 33 := rfl
    simp only [hshort, if_false, decide_false, Bool.false_or, result_expect, ← ite_and, hsplit,
      ne_eq, decide_not]
    by_cases hbytes : mem.take 6 = [0x14, 0x03, 0x03, 0x00, 0x01, 0x01] ∧
        window mem 6 5 = [0x16, 0x03, 0x03, 0x00, 0x20]
    · rw [if_pos hbytes]
      simp only [hbytes.1, hbytes.2, decide_true, Bool.not_true, Bool.false_or, Logged.result_bind,
        result_readWindow, Except.bind, hzero]
      by_cases hmatch : window mem 33 obfsHmacSha1Len =
          (hmac (info.key ++ g.localClientId) (mem.take 33)).take obfsHmacSha1Len
      · simp only [hmatch, decide_true, Bool.not_true, Bool.false_eq_true, not_true, if_false,
          result_readWindow]
      · simp only [hmatch, decide_false, Bool.not_false, not_false_eq_true, if_true,
          Logged.result_fail]
    · rw [if_neg hbytes]
      apply if_pos
      simp only [Bool.or_eq_true, Bool.not_eq_true', decide_eq_false_iff_not]
      left
      exact not_and_or.mp hbytes

/-- A ClientHello of 108 bytes whose session id has 64. -/
def longSessionId : Bytes :=
  [0x16, 0x03, 0x01, 0x00, 0x67, 0x01, 0x00, 0x00, 0x63, 0x03, 0x03] ++ List.replicate 32 0 ++
    0x40 :: List.replicate 64 0

end OpenWrtCompile.Obfs
