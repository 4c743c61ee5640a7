import OpenWrtCompile.Base.Logged
import OpenWrtCompile.Server.Request

/-!
# Three computations of the header length

`is_header_complete`, `parse_header_len` and the `STAGE_PARSE` branch of `server_recv_cb`
(`shadowsocksr-libev/src/server/server.c:227–285`, `877–1025`) each work out where a request header
ends. The branch is written here with its reads of the buffer and the reason of each rejection;
without them it is `parseRequest`. `server->auth` is 0 until this branch sets it.
-/

namespace OpenWrtCompile.Server
open OpenWrtCompile.Base

/-- The rejections of `STAGE_PARSE`, by their cause; `invalidName` is `validate_hostname`. -/
inductive Fault where
  | tooShort
  | unknownType
  | invalidName
  | hash
  | outbound
  deriving DecidableEq, Repr

/-- What is reported: `MALFORMED`, `BAD` or nothing. -/
def Fault.drop : Fault → Drop
  | .tooShort => .malformed
  | .unknownType => .malformed
  | .invalidName => .malformed
  | .hash => .bad
  | .outbound => .blocked

/-- `buf->array[i]`. -/
def readByte (buf : Buffer) (i : Nat) : Logged Read Fault UInt8 := .access ⟨i, 1⟩ (buf.byte i)

/-- `len` bytes from `buf->array + off` on. -/
def readBytes (buf : Buffer) (off len : Nat) : Logged Read Fault Bytes :=
  .access ⟨off, len⟩ (window buf.array off len)

@[simp] theorem result_readByte (buf : Buffer) (i : Nat) :
    (readByte buf i).result = .ok (buf.byte i) := rfl

@[simp] theorem result_readBytes (buf : Buffer) (off len : Nat) :
    (readBytes buf off len).result = .ok (window buf.array off len) := rfl

@[simp] theorem all_readByte {buf : Buffer} {i n : Nat} :
    (readByte buf i).All (Read.Below n) ↔ i + 1 ≤ n := Logged.all_access

@[simp] theorem all_readBytes {buf : Buffer} {off len n : Nat} :
    (readBytes buf off len).All (Read.Below n) ↔ off + len ≤ n := Logged.all_access

/-- `parse_header_len`. -/
def readHeaderLen (atyp : UInt8) (buf : Buffer) (offset : Nat) : Logged Read Fault Nat :=
  if atyp &&& addrtypeMask = 1 then pure (4 + 2)
  else if atyp &&& addrtypeMask = 3 then do
    let nameLen ← readByte buf offset
    pure (nameLen.toNat + 1 + 2)
  else if atyp &&& addrtypeMask = 4 then pure (16 + 2)
  else pure 0

/-- Lines 885–903: `ss_onetimeauth_verify` goes over the header and its HMAC. -/
def stageOnetimeauth (env : ParseEnv) (buf : Buffer) (serverAuth : Bool) (atyp : UInt8) :
    Logged Read Fault Bool :=
  if wantsAuth env.auth atyp then do
    let headerLen ← readHeaderLen atyp buf 1
    if headerLen = 0 then .fail .unknownType
    else if buf.len < 1 + headerLen + onetimeauthBytes then .fail .tooShort
    else do
      let header ← readBytes buf 0 (1 + headerLen + onetimeauthBytes)
      if env.onetimeauthFails header then .fail .hash else pure true
  else pure serverAuth

/-- Lines 905–1003. -/
def stageTarget (env : ParseEnv) (buf : Buffer) (atyp : UInt8) :
    Logged Read Fault (Target × Nat) :=
  if atyp &&& addrtypeMask = 1 then
    if 4 + 3 ≤ buf.len then do
      let addr ← readBytes buf 1 4
      let port ← readBytes buf 5 2
      pure (.addr .inet addr port, 5)
    else .fail .tooShort
  else if atyp &&& addrtypeMask = 3 then do
    let nameLen ← readByte buf 1
    if nameLen.toNat + 4 ≤ buf.len then do
      let name ← readBytes buf 2 nameLen.toNat
      let host := store (List.replicate 257 0) 0 name
      if env.outboundBlocked (cString host 0) then .fail .outbound
      else match env.corkIpInit (cString host 0) with
        | some f => do
          let port ← readBytes buf (2 + nameLen.toNat) 2
          pure (.addr f (env.dnsPton f (cString host 0)) port, 2 + nameLen.toNat)
        | none =>
          if validateHostname host nameLen.toNat then do
            let port ← readBytes buf (2 + nameLen.toNat) 2
            pure (.name (cString host 0) port, 2 + nameLen.toNat)
          else .fail .invalidName
    else .fail .tooShort
  else if atyp &&& addrtypeMask = 4 then
    if 16 + 3 ≤ buf.len then do
      let addr ← readBytes buf 1 16
      let port ← readBytes buf 17 2
      pure (.addr .inet6 addr port, 17)
    else .fail .tooShort
  else .fail .unknownType

/-- The `STAGE_PARSE` branch up to the `memmove`. -/
def stageParse (env : ParseEnv) (serverAuth : Bool) (buf : Buffer) :
    Logged Read Fault Request := do
  let atyp ← readByte buf 0
  let auth ← stageOnetimeauth env buf serverAuth atyp
  let (target, portOffset) ← stageTarget env buf atyp
  let offset := portOffset + 2 + (if auth then onetimeauthBytes else 0)
  if buf.len < offset then .fail .tooShort
  else do
    let rest ← readBytes buf offset (buf.len - offset)
    pure ⟨auth, target, (buf.write 0 rest).setLen (buf.len - offset)⟩

/-- `1 + parse_header_len`, and 10 with one-time authentication. -/
def headerLength (auth : Bool) (buf : Buffer) : Nat :=
  1 + parseHeaderLen (buf.byte 0) buf 1 +
    (if wantsAuth auth (buf.byte 0) then onetimeauthBytes else 0)

/-- The address types of a request. -/
def KnownType (atyp : UInt8) : Prop :=
  atyp &&& addrtypeMask = 1 ∨ atyp &&& addrtypeMask = 3 ∨ atyp &&& addrtypeMask = 4

/-- `parse_header_len` computes the same, and for a name it reads the length byte. -/
@[simp] theorem result_readHeaderLen (atyp : UInt8) (buf : Buffer) (offset : Nat) :
    (readHeaderLen atyp buf offset).result = .ok (parseHeaderLen atyp buf offset) := by
  unfold readHeaderLen parseHeaderLen
  split
  · rfl
  · split
    · rfl
    · split <;> rfl

/-- Without its reads, the check of the HMAC is that of `parseRequest`. -/
theorem result_stageOnetimeauth (env : ParseEnv) (buf : Buffer) (serverAuth : Bool) :
    (stageOnetimeauth env buf serverAuth (buf.byte 0)).result.mapError Fault.drop =
      checkOnetimeauth env buf serverAuth := by
  unfold stageOnetimeauth checkOnetimeauth
  split
  · simp only [Logged.result_bind, result_readHeaderLen, Except.bind]
    by_cases hzero : parseHeaderLen (buf.byte 0) buf 1 = 0
    · simp only [hzero, if_true, Bool.true_or, decide_true, Logged.result_fail]
      rfl
    · by_cases hshort : buf.len < 1 + parseHeaderLen (buf.byte 0) buf 1 + onetimeauthBytes
      · simp only [hzero, hshort, if_true, if_false, decide_false, decide_true, Bool.false_or]
        rfl
      · simp only [hzero, hshort, if_false, decide_false, Bool.false_or, Bool.false_eq_true]
        by_cases hfail : env.onetimeauthFails
            (buf.array.take (1 + parseHeaderLen (buf.byte 0) buf 1 + onetimeauthBytes)) = true
        · simp only [readBytes, Logged.result_bind, Logged.result_access, Except.bind, window,
            List.drop_zero, hfail, if_true]
          rfl
        · simp only [readBytes, Logged.result_bind, Logged.result_access, Except.bind, window,
            List.drop_zero, hfail]
          rfl
  · rfl

/-- Without its reads, the branch finds the target that `parseRequest` finds. -/
theorem result_stageTarget (env : ParseEnv) (buf : Buffer) :
    (stageTarget env buf (buf.byte 0)).result.mapError Fault.drop = parseTarget env buf := by
  unfold stageTarget parseTarget
  split
  · split <;> rfl
  · split
    · simp only [readByte, readBytes, Logged.result_bind, Logged.result_access, Except.bind]
      split
      · simp only [Logged.result_bind, Logged.result_access, Except.bind]
        split
        · rfl
        · cases env.corkIpInit (cString (store (List.replicate 257 0) 0
            (window buf.array 2 (buf.byte 1).toNat)) 0) with
          | some f => rfl
          | none =>
            show Except.mapError Fault.drop (Logged.result (ite _ _ _)) = ite _ _ _
            split <;> rfl
      · rfl
    · split
      · split <;> rfl
      · rfl

/-- Without its reads the branch is `parseRequest`. -/
theorem result_stageParse (env : ParseEnv) (serverAuth : Bool) (buf : Buffer) :
    (stageParse env serverAuth buf).result.mapError Fault.drop =
      parseRequest env serverAuth buf := by
  unfold stageParse parseRequest
  rw [← result_stageOnetimeauth, ← result_stageTarget]
  simp only [readByte, readBytes, Logged.result_bind, Logged.result_access, Except.bind]
  cases (stageOnetimeauth env buf serverAuth (buf.byte 0)).result with
  | error e => rfl
  | ok auth =>
    cases (stageTarget env buf (buf.byte 0)).result with
    | error e => rfl
    | ok t =>
      by_cases hshort : buf.len < t.2 + 2 + (if auth = true then onetimeauthBytes else 0)
      · simp only [Except.mapError, bind, Except.bind, hshort, if_true, Logged.result_fail,
          Fault.drop]
      · simp only [Except.mapError, bind, Except.bind, hshort, if_false]
        rfl

/-- The address and port bytes of each known type. -/
theorem parseHeaderLen_cases {atyp : UInt8} (h : KnownType atyp) (buf : Buffer) (offset : Nat) :
    (atyp &&& addrtypeMask = 1 ∧ parseHeaderLen atyp buf offset = 6) ∨
    (atyp &&& addrtypeMask = 3 ∧ parseHeaderLen atyp buf offset = (buf.byte offset).toNat + 3) ∨
    (atyp &&& addrtypeMask = 4 ∧ parseHeaderLen atyp buf offset = 18) := by
  have h31 : ¬ (3 : UInt8) = 1 := by decide
  have h41 : ¬ (4 : UInt8) = 1 := by decide
  have h43 : ¬ (4 : UInt8) = 3 := by decide
  unfold parseHeaderLen
  rcases h with h | h | h
  · simp only [h, if_true, true_and, true_or]
  · simp only [h, h31, if_false, if_true, true_and, true_or, or_true]
  · simp only [h, h41, h43, if_false, if_true, true_and, or_true]

/-- An unknown type has no length. -/
theorem parseHeaderLen_eq_zero {atyp : UInt8} (h : ¬ KnownType atyp) (buf : Buffer) (offset : Nat) :
    parseHeaderLen atyp buf offset = 0 := by
  unfold KnownType at h
  unfold parseHeaderLen
  rw [if_neg (by tauto), if_neg (by tauto), if_neg (by tauto)]

/-- `is_header_complete` compares the length of the buffer with the length of the header. -/
theorem isHeaderComplete_eq (auth : Bool) {buf : Buffer} (hpos : 0 < buf.len)
    (h : KnownType (buf.byte 0)) :
    isHeaderComplete auth buf =
      if headerLength auth buf ≤ buf.len then .complete else .incomplete := by
  have h31 : ¬ (3 : UInt8) = 1 := by decide
  have h41 : ¬ (4 : UInt8) = 1 := by decide
  have h43 : ¬ (4 : UInt8) = 3 := by decide
  unfold isHeaderComplete headerLength
  rcases parseHeaderLen_cases h buf 1 with ⟨ht, hl⟩ | ⟨ht, hl⟩ | ⟨ht, hl⟩
  · simp only [ht, hl, if_true, checkLength]
  · simp only [ht, hl, h31, if_true, if_false, checkLength]
    -- with one byte only the length of the name is not there yet
    by_cases hone : buf.len < 1 + 1
    · rw [if_pos hone, if_neg (by omega)]
    · have hsum : 1 + ((buf.byte 1).toNat + 1) + 2 = 1 + ((buf.byte 1).toNat + 3) := by omega
      rw [if_neg hone, hsum]
  · simp only [ht, hl, h41, h43, if_true, if_false, checkLength]

/-- An unknown type is the only invalid header. -/
theorem isHeaderComplete_eq_invalid (auth : Bool) {buf : Buffer} (h : ¬ KnownType (buf.byte 0)) :
    isHeaderComplete auth buf = .invalid := by
  unfold KnownType at h
  unfold isHeaderComplete
  rw [if_neg (by tauto), if_neg (by tauto), if_neg (by tauto)]

/-- Of a buffer that reaches to the end of the header, `parse_header_len` reads a byte in use. -/
theorem readHeaderLen_all {atyp : UInt8} (h : KnownType atyp) {buf : Buffer}
    (hlen : 1 + parseHeaderLen atyp buf 1 ≤ buf.len) :
    (readHeaderLen atyp buf 1).All (Read.Below buf.len) := by
  unfold readHeaderLen
  simp only [Logged.all_ite, Logged.all_pure, Logged.all_bind, all_readByte, implies_true, and_true,
    true_and]
  intro _ _
  rcases parseHeaderLen_cases h buf 1 with ⟨-, hl⟩ | ⟨-, hl⟩ | ⟨-, hl⟩ <;> omega

/-- The check of the HMAC on a buffer that holds the whole header: it reads what is there, and it
can only fail on the hash. -/
theorem stageOnetimeauth_of_le {env : ParseEnv} {buf : Buffer} (h : KnownType (buf.byte 0))
    (hlen : headerLength env.auth buf ≤ buf.len) :
    (stageOnetimeauth env buf false (buf.byte 0)).All (Read.Below buf.len) ∧
      ((stageOnetimeauth env buf false (buf.byte 0)).result = .error .hash ∨
        (stageOnetimeauth env buf false (buf.byte 0)).result =
          .ok (wantsAuth env.auth (buf.byte 0))) := by
  unfold headerLength at hlen
  unfold stageOnetimeauth
  cases hwants : wantsAuth env.auth (buf.byte 0) with
  | false =>
    constructor
    · exact Logged.all_pure _
    · exact .inr rfl
  | true =>
    rw [hwants, if_pos rfl] at hlen
    have hread : (readHeaderLen (buf.byte 0) buf 1).All (Read.Below buf.len) :=
      readHeaderLen_all h (by omega)
    have hpos : ¬ parseHeaderLen (buf.byte 0) buf 1 = 0 := by
      rcases parseHeaderLen_cases h buf 1 with ⟨-, hl⟩ | ⟨-, hl⟩ | ⟨-, hl⟩ <;> omega
    have hshort : ¬ buf.len < 1 + parseHeaderLen (buf.byte 0) buf 1 + onetimeauthBytes := by omega
    constructor
    · simp only [if_true, Logged.all_bind, result_readHeaderLen, Except.ok.injEq, forall_eq', hpos,
        hshort, all_readBytes, result_readBytes, Logged.all_ite, Logged.all_fail, Logged.all_pure,
        implies_true, and_true, true_and, not_false_eq_true, true_implies]
      constructor
      · exact hread
      · omega
    · simp only [if_true, Logged.result_bind, result_readHeaderLen, Except.bind, hpos, hshort,
        if_false, readBytes, Logged.result_access]
      split
      · exact .inl rfl
      · exact .inr rfl

/-- A header that is not there whole is rejected as too short by the check of the HMAC or, without
one, passes it. -/
theorem stageOnetimeauth_of_lt {env : ParseEnv} {buf : Buffer} (h : KnownType (buf.byte 0))
    (hlen : buf.len < headerLength env.auth buf) :
    (stageOnetimeauth env buf false (buf.byte 0)).result = .error .tooShort ∨
      wantsAuth env.auth (buf.byte 0) = false ∧
        (stageOnetimeauth env buf false (buf.byte 0)).result = .ok false := by
  unfold headerLength at hlen
  unfold stageOnetimeauth
  cases hwants : wantsAuth env.auth (buf.byte 0) with
  | false => exact .inr ⟨rfl, rfl⟩
  | true =>
    rw [hwants, if_pos rfl] at hlen
    have hpos : ¬ parseHeaderLen (buf.byte 0) buf 1 = 0 := by
      rcases parseHeaderLen_cases h buf 1 with ⟨-, hl⟩ | ⟨-, hl⟩ | ⟨-, hl⟩ <;> omega
    left
    simp only [if_true, Logged.result_bind, result_readHeaderLen, Except.bind, hpos, hlen, if_false,
      Logged.result_fail]

/-- On a buffer that holds address and port, the branch for the target reads what is there, ends at
the port, and fails on the name or the block list only. -/
theorem stageTarget_of_le (env : ParseEnv) {buf : Buffer} (h : KnownType (buf.byte 0))
    (hlen : 1 + parseHeaderLen (buf.byte 0) buf 1 ≤ buf.len) :
    (stageTarget env buf (buf.byte 0)).All (Read.Below buf.len) ∧
      ((stageTarget env buf (buf.byte 0)).result = .error .invalidName ∨
        (stageTarget env buf (buf.byte 0)).result = .error .outbound ∨
        ∃ target off, (stageTarget env buf (buf.byte 0)).result = .ok (target, off) ∧
          off + 2 = 1 + parseHeaderLen (buf.byte 0) buf 1) := by
  have h31 : ¬ (3 : UInt8) = 1 := by decide
  have h41 : ¬ (4 : UInt8) = 1 := by decide
  have h43 : ¬ (4 : UInt8) = 3 := by decide
  unfold stageTarget
  rcases parseHeaderLen_cases h buf 1 with ⟨ht, hl⟩ | ⟨ht, hl⟩ | ⟨ht, hl⟩
  · have hfit : 4 + 3 ≤ buf.len := by omega
    simp only [ht, if_true, hfit, hl]
    constructor
    · simp only [Logged.all_bind, all_readBytes, result_readBytes, Except.ok.injEq, forall_eq',
        Logged.all_pure, and_true]
      omega
    · exact .inr (.inr ⟨_, 5, rfl, rfl⟩)
  · have hfit : (buf.byte 1).toNat + 4 ≤ buf.len := by omega
    simp only [ht, h31, if_false, if_true, Logged.all_bind, all_readByte, Logged.result_bind,
      result_readByte, Except.ok.injEq, forall_eq', Except.bind, hfit, all_readBytes,
      result_readBytes]
    split
    · exact ⟨⟨by omega, by omega, Logged.all_fail _⟩, .inr (.inl rfl)⟩
    · cases env.corkIpInit (cString (store (List.replicate 257 0) 0
          (window buf.array 2 (buf.byte 1).toNat)) 0) with
      | some f =>
        constructor
        · simp only [Logged.all_bind, all_readBytes, result_readBytes, Except.ok.injEq, forall_eq',
            Logged.all_pure, and_true]
          omega
        · exact .inr (.inr ⟨_, 2 + (buf.byte 1).toNat, rfl, by omega⟩)
      | none =>
        show (_ ∧ _ ∧ Logged.All _ (ite _ _ _)) ∧ _
        split
        · constructor
          · simp only [Logged.all_bind, all_readBytes, result_readBytes, Except.ok.injEq,
              forall_eq', Logged.all_pure, and_true]
            omega
          · exact .inr (.inr ⟨_, 2 + (buf.byte 1).toNat, rfl, by omega⟩)
        · exact ⟨⟨by omega, by omega, Logged.all_fail _⟩, .inl rfl⟩
  · have hfit : 16 + 3 ≤ buf.len := by omega
    simp only [ht, h41, h43, if_true, if_false, hfit, hl]
    constructor
    · simp only [Logged.all_bind, all_readBytes, result_readBytes, Except.ok.injEq, forall_eq',
        Logged.all_pure, and_true]
      omega
    · exact .inr (.inr ⟨_, 17, rfl, rfl⟩)

/-- An address and port that are not there whole are rejected as too short. -/
theorem stageTarget_of_lt {env : ParseEnv} {buf : Buffer} (h : KnownType (buf.byte 0))
    (hlen : buf.len < 1 + parseHeaderLen (buf.byte 0) buf 1) :
    (stageTarget env buf (buf.byte 0)).result = .error .tooShort := by
  have h31 : ¬ (3 : UInt8) = 1 := by decide
  have h41 : ¬ (4 : UInt8) = 1 := by decide
  have h43 : ¬ (4 : UInt8) = 3 := by decide
  unfold stageTarget
  rcases parseHeaderLen_cases h buf 1 with ⟨ht, hl⟩ | ⟨ht, hl⟩ | ⟨ht, hl⟩
  · have hfit : ¬ 4 + 3 ≤ buf.len := by omega
    simp only [ht, if_true, hfit, if_false, Logged.result_fail]
  · have hfit : ¬ (buf.byte 1).toNat + 4 ≤ buf.len := by omega
    simp only [ht, h31, if_false, if_true, Logged.result_bind, result_readByte, Except.bind, hfit,
      Logged.result_fail]
  · have hfit : ¬ 16 + 3 ≤ buf.len := by omega
    simp only [ht, h41, h43, if_true, if_false, hfit, Logged.result_fail]

/-- The whole branch on a buffer that holds the header. -/
theorem stageParse_of_le {env : ParseEnv} {buf : Buffer} (hpos : 0 < buf.len)
    (h : KnownType (buf.byte 0)) (hlen : headerLength env.auth buf ≤ buf.len) :
    (stageParse env false buf).All (Read.Below buf.len) ∧
      (∀ e, (stageParse env false buf).result = .error e →
        e = .hash ∨ e = .outbound ∨ e = .invalidName) ∧
      ∀ r, (stageParse env false buf).result = .ok r →
        r.payload = (buf.write 0 (window buf.array (headerLength env.auth buf)
          (buf.len - headerLength env.auth buf))).setLen
            (buf.len - headerLength env.auth buf) := by
  obtain ⟨hreads, hauth⟩ := stageOnetimeauth_of_le h hlen
  have hport : 1 + parseHeaderLen (buf.byte 0) buf 1 ≤ buf.len := by
    unfold headerLength at hlen
    omega
  obtain ⟨htreads, htarget⟩ := stageTarget_of_le env h hport
  unfold stageParse
  simp only [Logged.all_bind, all_readByte, Logged.result_bind, result_readByte, Except.bind,
    Except.ok.injEq, forall_eq']
  rcases hauth with hauth | hauth
  · simp only [hauth, reduceCtorEq, false_implies, implies_true, and_true, Except.error.injEq]
    refine ⟨⟨by omega, hreads⟩, ?_⟩
    rintro e rfl
    exact .inl rfl
  · rcases htarget with htarget | htarget | ⟨target, off, htarget, hoff⟩
    · simp only [hauth, htarget, reduceCtorEq, false_implies, implies_true, and_true,
        Except.error.injEq, Except.ok.injEq, forall_eq']
      exact ⟨⟨by omega, hreads, htreads⟩, .inr (.inr trivial)⟩
    · simp only [hauth, htarget, reduceCtorEq, false_implies, implies_true, and_true,
        Except.error.injEq, Except.ok.injEq, forall_eq']
      exact ⟨⟨by omega, hreads, htreads⟩, .inr (.inl trivial)⟩
    · have hend : off + 2 + (if wantsAuth env.auth (buf.byte 0) then onetimeauthBytes else 0) =
          headerLength env.auth buf := by
        unfold headerLength
        omega
      have hfit : ¬ buf.len < headerLength env.auth buf := by omega
      simp only [hauth, htarget, Except.ok.injEq, forall_eq', hend, hfit, if_false,
        Logged.all_bind, all_readBytes, Logged.all_pure, Logged.result_bind, result_readBytes,
        Except.bind, Logged.result_pure, reduceCtorEq, false_implies, implies_true, and_true]
      exact ⟨by omega, hreads, htreads, by omega⟩

/-- The branch on a buffer that does not hold the whole header. -/
theorem stageParse_of_lt (env : ParseEnv) {buf : Buffer} (h : KnownType (buf.byte 0))
    (hlen : buf.len < headerLength env.auth buf) :
    (stageParse env false buf).result = .error .tooShort := by
  have hauth := stageOnetimeauth_of_lt h hlen
  unfold stageParse
  simp only [Logged.result_bind, result_readByte, Except.bind]
  rcases hauth with hauth | ⟨hwants, hauth⟩
  · simp only [hauth]
  · have hshort : buf.len < 1 + parseHeaderLen (buf.byte 0) buf 1 := by
      rw [headerLength, hwants] at hlen
      exact hlen
    simp only [hauth, stageTarget_of_lt h hshort]

end OpenWrtCompile.Server
