import OpenWrtCompile.Base.CString
import OpenWrtCompile.Base.Logged

/-!
# The server name of a ClientHello

`shadowsocksr-libev/src/server/tls.c:84–263`: `parse_tls_header`, `parse_extensions` and
`parse_server_name_extension`, with their reads of the data, against the layout of a ClientHello.
-/

namespace OpenWrtCompile.Server
open OpenWrtCompile.Base

/-- What a call does not see in its data: whether plain `char` is signed, whether `hostname` is
`NULL`, and whether `malloc` has memory. -/
structure TlsEnv where
  charSigned : Bool
  hostnameNull : Bool
  mallocFails : Bool

/-- What `parse_tls_header` returns: a negative code, or the length of the name that starts at
`off`, with the string left in `*hostname`. `running` stands for a loop that has not ended. -/
inductive SniReply where
  | error (code : Int)
  | name (off len : Nat) (hostname : Bytes)
  | running
  deriving DecidableEq, Repr

/-- `data[i]`. -/
def dataByte (data : Bytes) (i : Nat) : UInt8 := data[i]?.getD 0

/-- `(data[i] << 8) + data[i + 1]`. -/
def dataWord (data : Bytes) (i : Nat) : Nat := word16 (dataByte data i) (dataByte data (i + 1))

/-- A read of `data[i]`. -/
def readData (data : Bytes) (i : Nat) : Logged Read SniReply UInt8 :=
  .access ⟨i, 1⟩ (dataByte data i)

/-- The reads of a 16-bit length. -/
def readWord (data : Bytes) (i : Nat) : Logged Read SniReply Nat := do
  let high ← readData data i
  let low ← readData data (i + 1)
  pure (word16 high low)

/-- `strncpy(*hostname, data + i, len)`, which reads up to a NUL. -/
def readName (data : Bytes) (i len : Nat) : Logged Read SniReply Bytes :=
  .access ⟨i, min len ((cString (window data i len) 0).length + 1)⟩
    (strncpy (window data i len) len)

/-- One pass of the loop of `parse_server_name_extension`, for the `n` bytes at `off`. -/
def nameEntry (env : TlsEnv) (data : Bytes) (off n pos : Nat) : Logged Read SniReply Nat :=
  if pos + 3 < n then do
    let len ← readWord data (off + pos + 1)
    if n < pos + 3 + len then .fail (.error (-5))
    else do
      let type ← readData data (off + pos)
      if type = 0x00 then
        if env.mallocFails then .fail (.error (-4))
        else do
          let name ← readName data (off + pos + 3) len
          .fail (.name (off + pos + 3) len (name ++ [0]))
      else pure (pos + 3 + len)
  else if pos ≠ n then .fail (.error (-5))
  else .fail (.error (-2))

/-- `parse_server_name_extension`. -/
def parseServerNameExtension (env : TlsEnv) (data : Bytes) (off n : Nat) :
    Logged Read SniReply Nat :=
  .loop (nameEntry env data off n) .running (n + 1) 2

/-- One pass of the loop of `parse_extensions`, for the `n` bytes at `off`. -/
def extensionEntry (env : TlsEnv) (data : Bytes) (off n pos : Nat) : Logged Read SniReply Nat :=
  if pos + 4 ≤ n then do
    let len ← readWord data (off + pos + 2)
    let high ← readData data (off + pos)
    let low ← (if high = 0x00 then readData data (off + pos + 1) else pure 1 : Logged _ _ _)
    if high = 0x00 ∧ low = 0x00 then
      if n < pos + 4 + len then .fail (.error (-5))
      else parseServerNameExtension env data (off + pos + 4) len
    else pure (pos + 4 + len)
  else if pos ≠ n then .fail (.error (-5))
  else .fail (.error (-2))

/-- `parse_extensions`. -/
def parseExtensions (env : TlsEnv) (data : Bytes) (off n : Nat) : Logged Read SniReply Nat :=
  .loop (extensionEntry env data off n) .running (n + 1) 0

/-- `parse_tls_header` from the handshake type on, `n` being the new `data_len`. -/
def parseHandshake (env : TlsEnv) (data : Bytes) (n : Nat) (major minor : UInt8) :
    Logged Read SniReply Nat :=
  if n < 5 + 1 then .fail (.error (-5))
  else do
    let type ← readData data 5
    if type ≠ 0x01 then .fail (.error (-5))
    else if n < 43 + 1 then .fail (.error (-5))
    else do
      let session ← readData data 43
      let pos := 43 + 1 + session.toNat
      if n < pos + 2 then .fail (.error (-5))
      else do
        let suites ← readWord data pos
        let pos := pos + 2 + suites
        if n < pos + 1 then .fail (.error (-5))
        else do
          let compression ← readData data pos
          let pos := pos + 1 + compression.toNat
          if pos = n ∧ plainChar env.charSigned major = 3 ∧ minor = 0 then .fail (.error (-2))
          else if n < pos + 2 then .fail (.error (-5))
          else do
            let len ← readWord data pos
            if n < pos + 2 + len then .fail (.error (-5))
            else parseExtensions env data (pos + 2) len

/-- `parse_tls_header`. -/
def parseTlsHeader (env : TlsEnv) (data : Bytes) : Logged Read SniReply Nat :=
  if env.hostnameNull then .fail (.error (-3))
  else if data.length < 5 then .fail (.error (-1))
  else do
    let content ← readData data 0
    let ssl2 ← (if content &&& 0x80 ≠ 0 then readData data 2 else pure 0 : Logged _ _ _)
    if ssl2 = 1 then .fail (.error (-2))
    else if content ≠ 0x16 then .fail (.error (-5))
    else do
      let major ← readData data 1
      let minor ← readData data 2
      if plainChar env.charSigned major < 3 then .fail (.error (-2))
      else do
        let len ← readWord data 3
        let n := min data.length (len + 5)
        if n < len + 5 then .fail (.error (-1)) else parseHandshake env data n major minor

/-! ### Every run -/

/-- The offset of the first extension, behind the variable parts of the message. -/
def extensionsStart (data : Bytes) : Nat :=
  let suites := 43 + 1 + (dataByte data 43).toNat
  let compression := suites + 2 + dataWord data suites
  compression + 1 + (dataByte data compression).toNat + 2

/-- An extension starts at this offset: the first does, and each behind the one before. -/
inductive ExtensionAt (data : Bytes) (start : Nat) : Nat → Prop where
  | first : ExtensionAt data start start
  | next {e : Nat} (before : ExtensionAt data start e) :
      ExtensionAt data start (e + 4 + dataWord data (e + 2))

/-- The `len` bytes at `off` lie inside the body of a server name extension, behind the length of
its list, and that body inside the data. -/
def NameWithin (data : Bytes) (start off len : Nat) : Prop :=
  ∃ e, ExtensionAt data start e ∧
    dataByte data e = 0 ∧ dataByte data (e + 1) = 0 ∧
    e + 4 + dataWord data (e + 2) ≤ data.length ∧
    e + 4 + 2 ≤ off ∧ off + len ≤ e + 4 + dataWord data (e + 2)

/-- A reply that is no name, or a name copied from a range that satisfies `Q`. -/
def SniReply.Sound (data : Bytes) (Q : Nat → Nat → Prop) : SniReply → Prop
  | .error code => code < 0
  | .name off len hostname => Q off len ∧ hostname = strncpy (window data off len) len ++ [0]
  | .running => False

theorem SniReply.Sound.mono {data : Bytes} {Q R : Nat → Nat → Prop} {r : SniReply}
    (h : r.Sound data Q) (hqr : ∀ off len, Q off len → R off len) : r.Sound data R := by
  cases r with
  | error code => exact h
  | name off len hostname => exact ⟨hqr off len h.1, h.2⟩
  | running => exact h

section bounds
variable {env : TlsEnv} {data : Bytes}

theorem meets_error {P : Read → Prop} {Q : Nat → Prop} {R : Nat → Nat → Prop} {code : Int}
    (h : code < 0) : (Logged.fail (.error code)).Meets P Q (SniReply.Sound data R) :=
  Logged.meets_fail h

theorem meets_readData {Q : UInt8 → Prop} {E : SniReply → Prop} {n i : Nat} (hi : i < n)
    (h : Q (dataByte data i)) : (readData data i).Meets (Read.Below n) Q E :=
  Logged.meets_access (show i + 1 ≤ n from hi) h

theorem meets_readWord {E : SniReply → Prop} {n i : Nat} (hi : i + 1 < n) :
    (readWord data i).Meets (Read.Below n) (· = dataWord data i) E := by
  refine Logged.meets_bind (meets_readData (Q := (· = dataByte data i)) (by omega) rfl) ?_
  rintro high rfl
  refine Logged.meets_bind (meets_readData (Q := (· = dataByte data (i + 1))) hi rfl) ?_
  rintro low rfl
  exact Logged.meets_pure rfl

/-- The parser of the extension body stays in the body and finds its names there. -/
theorem parseServerNameExtension_meets {off n N : Nat} (h : off + n ≤ N) :
    (parseServerNameExtension env data off n).Meets (Read.Below N) (fun _ ↦ False)
      (SniReply.Sound data fun o l ↦ off + 2 ≤ o ∧ o + l ≤ off + n) := by
  refine Logged.meets_loop (fun pos ↦ 2 ≤ pos) (fun pos ↦ n - pos) ?_ le_rfl
    (by omega)
  intro pos hpos
  refine Logged.meets_ite (fun hlt ↦ ?_) (fun hge ↦ ?_)
  · refine Logged.meets_bind (meets_readWord (by omega)) ?_
    rintro len rfl
    refine Logged.meets_ite (fun _ ↦ meets_error (by decide)) (fun hlen ↦ ?_)
    refine Logged.meets_bind (meets_readData (Q := fun _ ↦ True) (by omega) trivial) ?_
    rintro type -
    refine Logged.meets_ite (fun _ ↦ ?_) (fun _ ↦ Logged.meets_pure ⟨by omega, by omega⟩)
    refine Logged.meets_ite (fun _ ↦ meets_error (by decide)) (fun _ ↦ ?_)
    refine Logged.meets_bind (Logged.meets_access (Q := fun name ↦ name = strncpy (window data
      (off + pos + 3) (dataWord data (off + pos + 1))) (dataWord data (off + pos + 1))) ?_ rfl) ?_
    · show off + pos + 3 + min _ _ ≤ N
      omega
    · rintro name rfl
      exact Logged.meets_fail ⟨⟨by omega, by omega⟩, rfl⟩
  · exact Logged.meets_ite (fun _ ↦ meets_error (by decide))
      (fun _ ↦ meets_error (by decide))

/-- The walk through the extensions stays in their block. -/
theorem parseExtensions_meets {off n : Nat} (h : off + n ≤ data.length) :
    (parseExtensions env data off n).Meets (Read.Below data.length) (fun _ ↦ False)
      (SniReply.Sound data (NameWithin data off)) := by
  refine Logged.meets_loop (fun pos ↦ ExtensionAt data off (off + pos)) (fun pos ↦ n - pos) ?_
    .first (Nat.lt_succ_of_le (Nat.sub_le n 0))
  intro pos hpos
  refine Logged.meets_ite (fun hlt ↦ ?_) (fun _ ↦ Logged.meets_ite
    (fun _ ↦ meets_error (by decide)) (fun _ ↦ meets_error (by decide)))
  refine Logged.meets_bind (meets_readWord (by omega)) ?_
  rintro len rfl
  refine Logged.meets_bind (meets_readData (Q := (· = dataByte data (off + pos))) (by omega) rfl) ?_
  rintro high rfl
  refine Logged.meets_bind (Q := fun low ↦ dataByte data (off + pos) = 0 →
    low = dataByte data (off + pos + 1)) (Logged.meets_ite
      (fun _ ↦ meets_readData (by omega) fun _ ↦ rfl) (fun hne ↦ Logged.meets_pure fun he ↦
        absurd he hne)) ?_
  intro low hlow
  refine Logged.meets_ite (fun htype ↦ ?_) (fun _ ↦ Logged.meets_pure ⟨?_, by omega⟩)
  rotate_left
  · rw [← Nat.add_assoc, ← Nat.add_assoc]
    exact .next hpos
  refine Logged.meets_ite (fun _ ↦ meets_error (by decide)) (fun hlen ↦ ?_)
  have hbody : off + pos + 4 + dataWord data (off + pos + 2) ≤ data.length := by omega
  refine (parseServerNameExtension_meets hbody).mono (fun _ hf ↦ hf.elim) fun r hr ↦ ?_
  refine hr.mono fun o l hol ↦ ⟨off + pos, hpos, htype.1, ?_, hbody, hol⟩
  rw [← hlow htype.1, htype.2]

/-- The walk through the vectors of the message stays in the record. -/
theorem parseHandshake_meets {n : Nat} {major minor : UInt8} (h : n ≤ data.length) :
    (parseHandshake env data n major minor).Meets (Read.Below data.length) (fun _ ↦ False)
      (SniReply.Sound data (NameWithin data (extensionsStart data))) := by
  refine Logged.meets_ite (fun _ ↦ meets_error (by decide)) (fun h₁ ↦ ?_)
  refine Logged.meets_bind (meets_readData (Q := fun _ ↦ True) (by omega) trivial) ?_
  rintro type -
  refine Logged.meets_ite (fun _ ↦ meets_error (by decide)) (fun _ ↦ ?_)
  refine Logged.meets_ite (fun _ ↦ meets_error (by decide)) (fun h₂ ↦ ?_)
  refine Logged.meets_bind (meets_readData (Q := (· = dataByte data 43)) (by omega) rfl) ?_
  rintro session rfl
  refine Logged.meets_ite (fun _ ↦ meets_error (by decide)) (fun h₃ ↦ ?_)
  refine Logged.meets_bind (meets_readWord (by omega)) ?_
  rintro suites rfl
  refine Logged.meets_ite (fun _ ↦ meets_error (by decide)) (fun h₄ ↦ ?_)
  refine Logged.meets_bind (meets_readData (Q := (· = dataByte data _)) (by omega) rfl) ?_
  rintro compression rfl
  refine Logged.meets_ite (fun _ ↦ meets_error (by decide)) (fun _ ↦ ?_)
  refine Logged.meets_ite (fun _ ↦ meets_error (by decide)) (fun h₅ ↦ ?_)
  refine Logged.meets_bind (meets_readWord (by omega)) ?_
  rintro len rfl
  refine Logged.meets_ite (fun _ ↦ meets_error (by decide)) (fun h₆ ↦ ?_)
  have hblock : extensionsStart data + dataWord data (extensionsStart data - 2) ≤ data.length := by
    simp only [extensionsStart, Nat.add_sub_cancel]
    omega
  exact parseExtensions_meets hblock

theorem parseTlsHeader_meets (env : TlsEnv) (data : Bytes) :
    (parseTlsHeader env data).Meets (Read.Below data.length) (fun _ ↦ False)
      (SniReply.Sound data (NameWithin data (extensionsStart data))) := by
  refine Logged.meets_ite (fun _ ↦ meets_error (by decide)) (fun _ ↦ ?_)
  refine Logged.meets_ite (fun _ ↦ meets_error (by decide)) (fun hlen ↦ ?_)
  refine Logged.meets_bind (meets_readData (Q := fun _ ↦ True) (by omega) trivial) ?_
  rintro content -
  refine Logged.meets_bind (Q := fun _ ↦ True) (Logged.meets_ite
    (fun _ ↦ meets_readData (by omega) trivial) (fun _ ↦ Logged.meets_pure trivial)) ?_
  rintro ssl2 -
  refine Logged.meets_ite (fun _ ↦ meets_error (by decide)) (fun _ ↦ ?_)
  refine Logged.meets_ite (fun _ ↦ meets_error (by decide)) (fun _ ↦ ?_)
  refine Logged.meets_bind (meets_readData (Q := fun _ ↦ True) (by omega) trivial) ?_
  rintro major -
  refine Logged.meets_bind (meets_readData (Q := fun _ ↦ True) (by omega) trivial) ?_
  rintro minor -
  refine Logged.meets_ite (fun _ ↦ meets_error (by decide)) (fun _ ↦ ?_)
  refine Logged.meets_bind (meets_readWord (by omega)) ?_
  rintro len rfl
  refine Logged.meets_ite (fun _ ↦ meets_error (by decide)) (fun _ ↦ ?_)
  exact parseHandshake_meets (Nat.min_le_left ..)

end bounds

/-! ### Well-formed records -/

/-- A vector with a length of one byte. -/
def vector8 (b : Bytes) : Bytes := UInt8.ofNat b.length :: b

/-- A vector with a length of two bytes. -/
def vector16 (b : Bytes) : Bytes := bytes16 b.length ++ b

/-- An extension of a hello message. -/
structure Extension where
  high : UInt8
  low : UInt8
  body : Bytes

/-- The bytes of an extension. -/
def Extension.bytes (e : Extension) : Bytes := e.high :: e.low :: vector16 e.body

/-- The body of a server name extension with one host name. -/
def serverNameBody (name : Bytes) : Bytes := vector16 (0x00 :: vector16 name)

/-- The fields of a record that holds a ClientHello. -/
structure HelloFields where
  recordMinor : UInt8
  version : Bytes
  random : Bytes
  sessionId : Bytes
  suites : Bytes
  compression : Bytes
  extensions : Option (List Extension)

namespace HelloFields

/-- The block of extensions, when there is one. -/
def extensionBlock (f : HelloFields) : Bytes :=
  match f.extensions with
  | none => []
  | some es => vector16 (es.flatMap Extension.bytes)

/-- The body of the message. -/
def body (f : HelloFields) : Bytes :=
  f.version ++ (f.random ++ (vector8 f.sessionId ++ (vector16 f.suites ++
    (vector8 f.compression ++ f.extensionBlock))))

/-- The message, with its type and a length of three bytes. -/
def message (f : HelloFields) : Bytes :=
  0x01 :: UInt8.ofNat (f.body.length / 65536) :: (bytes16 f.body.length ++ f.body)

/-- The record. -/
def record (f : HelloFields) : Bytes := 0x16 :: 0x03 :: f.recordMinor :: vector16 f.message

end HelloFields

/-- A well-formed ClientHello record: every field has a size its length can tell. -/
structure ClientHello extends HelloFields where
  version_length : version.length = 2
  random_length : random.length = 32
  sessionId_length : sessionId.length < 256
  suites_length : suites.length < 65536
  compression_length : compression.length < 256
  message_length : toHelloFields.message.length < 65536

section parts
variable {data a b r : Bytes} {pos : Nat}

theorem dataByte_of_drop {c : UInt8} (h : data.drop pos = c :: r) :
    dataByte data pos = c ∧ data.drop (pos + 1) = r := by
  constructor
  · have hget : (data.drop pos)[0]? = some c := by rw [h]; rfl
    rw [List.getElem?_drop, Nat.add_zero] at hget
    rw [dataByte, hget]
    rfl
  · rw [← List.drop_drop, h]
    rfl

theorem drop_of_drop_append (h : data.drop pos = a ++ r) : data.drop (pos + a.length) = r := by
  rw [← List.drop_drop, h, List.drop_left]

/-- A vector is read back, and what follows it stands behind it. -/
theorem vector8_at (h : data.drop pos = vector8 b ++ r) (hb : b.length < 256) :
    (dataByte data pos).toNat = b.length ∧ data.drop (pos + 1 + b.length) = r := by
  obtain ⟨h₁, h₂⟩ := dataByte_of_drop h
  refine ⟨?_, drop_of_drop_append h₂⟩
  rw [h₁, UInt8.toNat_ofNat']
  omega

theorem vector16_at (h : data.drop pos = vector16 b ++ r) (hb : b.length < 65536) :
    dataWord data pos = b.length ∧ data.drop (pos + 2) = b ++ r ∧
      data.drop (pos + 2 + b.length) = r := by
  obtain ⟨h₁, h₂⟩ := dataByte_of_drop h
  obtain ⟨h₃, h₄⟩ := dataByte_of_drop h₂
  refine ⟨?_, h₄, drop_of_drop_append h₄⟩
  rw [dataWord, h₁, h₃]
  exact word16_bytes16 hb

@[simp] theorem length_vector8 (b : Bytes) : (vector8 b).length = b.length + 1 := rfl

@[simp] theorem length_vector16 (b : Bytes) : (vector16 b).length = b.length + 2 := by
  simp [vector16, bytes16]

end parts

@[simp] theorem result_readData (data : Bytes) (i : Nat) :
    (readData data i).result = .ok (dataByte data i) := rfl

@[simp] theorem result_readWord (data : Bytes) (i : Nat) :
    (readWord data i).result = .ok (dataWord data i) := rfl

/-- The header of a record, from whatever part of it has arrived behind the header. -/
theorem parseTlsHeader_of_header {env : TlsEnv} {data : Bytes} {n : Nat}
    (henv : env.hostnameNull = false) (hlen : 5 ≤ data.length) (h₀ : dataByte data 0 = 0x16)
    (h₁ : dataByte data 1 = 0x03) (hn : dataWord data 3 = n) :
    (parseTlsHeader env data).result =
      if data.length < n + 5 then .error (.error (-1))
      else (parseHandshake env data (n + 5) 0x03 (dataByte data 2)).result := by
  have hmajor : ¬ plainChar env.charSigned 0x03 < 3 := by
    cases env.charSigned <;> decide
  unfold parseTlsHeader
  rw [henv, if_neg Bool.false_ne_true, if_neg (by omega)]
  simp only [Logged.result_bind, result_readData, h₀, Except.bind]
  rw [if_neg (by decide)]
  simp only [Logged.result_pure]
  rw [if_neg (by decide), if_neg (by decide)]
  simp only [Logged.result_bind, result_readData, h₁, Except.bind]
  rw [if_neg hmajor]
  simp only [Logged.result_bind, result_readWord, hn, Except.bind]
  by_cases hshort : data.length < n + 5
  · rw [if_pos hshort, if_pos (by omega)]
    rfl
  · rw [if_neg hshort, if_neg (by omega), Nat.min_eq_right (by omega)]

/-- A record that has not arrived whole is incomplete. -/
theorem parseTlsHeader_prefix {env : TlsEnv} (henv : env.hostnameNull = false) {f : HelloFields}
    (hlen : f.message.length < 65536) {p : Bytes} (hp : p <+: f.record) (hne : p ≠ f.record) :
    (parseTlsHeader env p).result = .error (.error (-1)) := by
  have hshort : p.length < f.record.length :=
    lt_of_le_of_ne hp.length_le fun he ↦ hne (hp.eq_of_length he)
  have hrecord : f.record.length = f.message.length + 5 := by simp [HelloFields.record]
  by_cases h5 : p.length < 5
  · unfold parseTlsHeader
    rw [henv, if_neg Bool.false_ne_true, if_pos h5]
    rfl
  · have hbyte (i : Nat) (hi : i < 5) : dataByte p i = dataByte f.record i :=
      getD_eq_of_start hp (by omega)
    have hword : dataWord p 3 = f.message.length := by
      rw [dataWord, hbyte 3 (by decide), hbyte 4 (by decide)]
      exact word16_bytes16 hlen
    rw [parseTlsHeader_of_header henv (by omega) (hbyte 0 (by decide)) (hbyte 1 (by decide)) hword,
      if_pos (by omega)]

/-- For every data the parser ends, reads below the length only, and copies a name from inside the
server name extension; of a ClientHello that has not arrived whole it asks for more. -/
theorem parseTlsHeader_total (env : TlsEnv) :
    (∀ data : Bytes, (parseTlsHeader env data).All (Read.Below data.length) ∧
      ∃ reply, (parseTlsHeader env data).result = .error reply ∧
        reply.Sound data (NameWithin data (extensionsStart data))) ∧
    ∀ hello : ClientHello, ∀ p, p <+: hello.record → p ≠ hello.record →
      env.hostnameNull = false → (parseTlsHeader env p).result = .error (.error (-1)) := by
  refine ⟨fun data ↦ ?_, fun hello p hp hne henv ↦
    parseTlsHeader_prefix henv hello.message_length hp hne⟩
  obtain ⟨hall, hok, herror⟩ := parseTlsHeader_meets env data
  refine ⟨hall, ?_⟩
  cases hr : (parseTlsHeader env data).result with
  | ok pos => exact (hok pos hr).elim
  | error reply => exact ⟨reply, rfl, herror reply hr⟩

/-- A ClientHello without extensions. -/
def bareHello : ClientHello where
  recordMinor := 0x01
  version := [0x03, 0x03]
  random := List.replicate 32 0
  sessionId := []
  suites := [0x00, 0x2F]
  compression := [0x00]
  extensions := none
  version_length := rfl
  random_length := rfl
  sessionId_length := by decide
  suites_length := by decide
  compression_length := by decide
  message_length := by decide

theorem parseTlsHeader_total_bareHello :
    (parseTlsHeader ⟨true, false, false⟩ (bareHello.record.take 20)).result =
      .error (.error (-1)) :=
  (parseTlsHeader_total ⟨true, false, false⟩).2 bareHello _ (List.take_prefix 20 _) (by decide) rfl

/-! ### Reading a name back -/

section names
variable {env : TlsEnv} {data : Bytes}

/-- The parser of the extension body returns the one name in it. -/
theorem result_parseServerNameExtension {name r : Bytes} {off : Nat}
    (hmem : env.mallocFails = false) (hname : name ≠ []) (hz : 0 ∉ name)
    (hlen : (serverNameBody name).length < 65536) (h : data.drop off = serverNameBody name ++ r) :
    (parseServerNameExtension env data off (serverNameBody name).length).result =
      .error (.name (off + 5) name.length (name ++ [0])) := by
  have hsize : (serverNameBody name).length = name.length + 5 := by simp [serverNameBody]
  have hpos : 0 < name.length := List.length_pos_iff.mpr hname
  obtain ⟨-, hlist, -⟩ := vector16_at h (by simp [serverNameBody] at hlen ⊢; omega)
  obtain ⟨htype, hvector⟩ := dataByte_of_drop hlist
  obtain ⟨hword, hbytes, -⟩ := vector16_at hvector (by omega)
  rw [show off + 2 + 1 + 2 = off + 5 by omega] at hbytes
  have hcopy : strncpy (window data (off + 2 + 3) name.length) name.length = name := by
    have hwindow : window data (off + 2 + 3) name.length = name := by
      rw [window, show off + 2 + 3 = off + 5 by omega, hbytes, List.take_left]
    rw [hwindow, strncpy_of_le hz le_rfl, List.take_length]
  apply Logged.result_loop_of_error
  unfold nameEntry
  rw [hsize, if_pos (by omega)]
  simp only [Logged.result_bind, result_readWord, hword, Except.bind]
  rw [if_neg (by omega)]
  simp only [Logged.result_bind, result_readData, htype, Except.bind]
  rw [if_pos trivial, hmem, if_neg Bool.false_ne_true]
  simp only [readName, Logged.result_bind, Logged.result_access, Except.bind, hcopy]
  rfl

/-- What a pass reads at the start of an extension. -/
theorem extension_at {e : Extension} {r : Bytes} {pos : Nat} (he : e.body.length < 65536)
    (h : data.drop pos = e.bytes ++ r) :
    dataByte data pos = e.high ∧ dataByte data (pos + 1) = e.low ∧
      dataWord data (pos + 2) = e.body.length ∧ data.drop (pos + 4) = e.body ++ r ∧
      data.drop (pos + 4 + e.body.length) = r := by
  obtain ⟨h₁, htail⟩ := dataByte_of_drop h
  obtain ⟨h₂, hvector⟩ := dataByte_of_drop htail
  exact ⟨h₁, h₂, vector16_at hvector he⟩

/-- An extension of another type is skipped. -/
theorem extensionEntry_skip (env : TlsEnv) {data : Bytes} {e : Extension} {r : Bytes} (n : Nat)
    {off pos : Nat}
    (he : e.body.length < 65536) (h : data.drop (off + pos) = e.bytes ++ r)
    (hother : ¬ (e.high = 0 ∧ e.low = 0)) (hn : pos + 4 ≤ n) :
    (extensionEntry env data off n pos).result = .ok (pos + 4 + e.body.length) := by
  obtain ⟨h₁, h₂, hword, -⟩ := extension_at he h
  unfold extensionEntry
  rw [if_pos hn]
  simp only [Logged.result_bind, result_readWord, result_readData, hword, h₁, Except.bind]
  by_cases hhigh : e.high = 0
  · rw [if_pos hhigh]
    simp only [result_readData, h₂, if_neg hother, Logged.result_pure]
  · rw [if_neg hhigh]
    simp only [Logged.result_pure, hhigh, false_and, if_false]

/-- The walk returns what the parser of the first server name extension returns. -/
theorem result_parseExtensions {es : List Extension} {body r : Bytes} {off n pos fuel : Nat}
    {reply : SniReply} (hother : ∀ e ∈ es, ¬ (e.high = 0 ∧ e.low = 0))
    (hsize : ∀ e ∈ es, e.body.length < 65536) (hbody : body.length < 65536)
    (h : data.drop (off + pos) = es.flatMap Extension.bytes ++ (Extension.bytes ⟨0, 0, body⟩ ++ r))
    (hn : pos + (es.flatMap Extension.bytes).length + 4 + body.length ≤ n) (hf : n < pos + fuel)
    (hreply : (parseServerNameExtension env data
      (off + pos + (es.flatMap Extension.bytes).length + 4) body.length).result = .error reply) :
    (Logged.loop (extensionEntry env data off n) .running fuel pos :
      Logged Read SniReply Nat).result = .error reply := by
  induction es generalizing pos fuel with
  | nil =>
    obtain ⟨fuel, rfl⟩ := Nat.exists_eq_succ_of_ne_zero (show fuel ≠ 0 by omega)
    obtain ⟨h₁, h₂, hword, -⟩ := extension_at hbody h
    simp only [List.flatMap_nil, List.length_nil, Nat.add_zero] at hn hreply
    apply Logged.result_loop_of_error
    unfold extensionEntry
    rw [if_pos (by omega)]
    simp only [Logged.result_bind, result_readWord, result_readData, hword, h₁, h₂, Except.bind,
      if_true, and_self]
    rw [if_neg (by omega)]
    exact hreply
  | cons e es ih =>
    rw [List.flatMap_cons, List.append_assoc] at h
    rw [List.flatMap_cons, List.length_append] at hn hreply
    have he := hsize e List.mem_cons_self
    have hlen : e.bytes.length = 4 + e.body.length := by
      simp [Extension.bytes]
      omega
    rw [hlen] at hn hreply
    obtain ⟨-, -, -, -, hnext⟩ := extension_at he h
    obtain ⟨fuel, rfl⟩ := Nat.exists_eq_succ_of_ne_zero (show fuel ≠ 0 by omega)
    have hskip := extensionEntry_skip env n he h (hother e List.mem_cons_self) (by omega)
    rw [Logged.result_loop_of_ok hskip]
    refine ih (fun x hx ↦ hother x (List.mem_cons_of_mem e hx))
      (fun x hx ↦ hsize x (List.mem_cons_of_mem e hx)) ?_ (by omega) (by omega) ?_
    · rw [← hnext]
      congr 1
      omega
    · rw [← hreply]
      congr 2
      omega

/-- The vectors of a message lead to its extensions. -/
theorem result_parseHandshake (env : TlsEnv) {data : Bytes} (minor : UInt8) (hello : ClientHello)
    {es : List Extension} {n : Nat} (hext : hello.extensions = some es)
    (h : data.drop 5 = hello.message)
    (hn : n = hello.message.length + 5) :
    (parseHandshake env data n 0x03 minor).result =
      (parseExtensions env data (extensionsStart data) (es.flatMap Extension.bytes).length).result ∧
    data.drop (extensionsStart data) = es.flatMap Extension.bytes := by
  have hmessage := hello.message_length
  have hsession := hello.sessionId_length
  have hsuites := hello.suites_length
  have hcompression := hello.compression_length
  have hblock : hello.extensionBlock = vector16 (es.flatMap Extension.bytes) := by
    rw [HelloFields.extensionBlock, hext]
  have hlength : hello.message.length = 44 + hello.sessionId.length + hello.suites.length +
      hello.compression.length + (es.flatMap Extension.bytes).length := by
    simp only [HelloFields.message, HelloFields.body, hblock, List.length_cons, List.length_append,
      length_vector8, length_vector16, hello.version_length, hello.random_length,
      show ∀ n, (bytes16 n).length = 2 from fun _ ↦ rfl]
    omega
  -- from the type of the message to its session id
  obtain ⟨htype, h₁⟩ := dataByte_of_drop h
  obtain ⟨-, h₂⟩ := dataByte_of_drop h₁
  have h₃ := drop_of_drop_append h₂
  have h₄ := drop_of_drop_append h₃
  have h₅ := drop_of_drop_append h₄
  rw [hello.version_length, hello.random_length,
    show 5 + 1 + 1 + (bytes16 hello.body.length).length + 2 + 32 = 43 from rfl] at h₅
  obtain ⟨hs, h₆⟩ := vector8_at h₅ hsession
  obtain ⟨hsu, -, h₇⟩ := vector16_at h₆ hsuites
  obtain ⟨hc, h₈⟩ := vector8_at h₇ hcompression
  rw [hblock, ← List.append_nil (vector16 _)] at h₈
  obtain ⟨hw, h₉, -⟩ := vector16_at h₈ (by omega)
  rw [List.append_nil] at h₉
  have hstart : extensionsStart data = 43 + 1 + hello.sessionId.length + 2 + hello.suites.length +
      1 + hello.compression.length + 2 := by
    simp only [extensionsStart, hs, hsu, hc]
  rw [hstart]
  refine ⟨?_, h₉⟩
  unfold parseHandshake
  rw [if_neg (by omega)]
  simp only [Logged.result_bind, result_readData, htype, Except.bind]
  rw [if_neg (by simp), if_neg (by omega)]
  simp only [Logged.result_bind, result_readData, hs, Except.bind]
  rw [if_neg (by omega)]
  simp only [Logged.result_bind, result_readWord, hsu, Except.bind]
  rw [if_neg (by omega)]
  simp only [Logged.result_bind, result_readData, hc, Except.bind]
  rw [if_neg (by omega), if_neg (by omega)]
  simp only [Logged.result_bind, result_readWord, hw, Except.bind]
  rw [if_neg (by omega)]

theorem length_extension_le {e : Extension} {es : List Extension} (he : e ∈ es) :
    e.body.length + 4 ≤ (es.flatMap Extension.bytes).length := by
  obtain ⟨a, b, rfl⟩ := List.append_of_mem he
  simp only [List.flatMap_append, List.flatMap_cons, List.length_append, Extension.bytes,
    List.length_cons, length_vector16]
  omega

/-- The name in the server name extension of a ClientHello is read back, whatever extensions of
other types stand before it. -/
theorem parseTlsHeader_clientHello (hnull : env.hostnameNull = false)
    (hmem : env.mallocFails = false) (hello : ClientHello) {es₁ es₂ : List Extension} {name : Bytes}
    (hext : hello.extensions = some (es₁ ++ ⟨0, 0, serverNameBody name⟩ :: es₂))
    (hother : ∀ e ∈ es₁, ¬ (e.high = 0 ∧ e.low = 0)) (hname : name ≠ []) (hz : 0 ∉ name) :
    ∃ off, (parseTlsHeader env hello.record).result =
      .error (.name off name.length (name ++ [0])) := by
  have hword : dataWord hello.record 3 = hello.message.length :=
    word16_bytes16 hello.message_length
  have hrecord : hello.record.length = hello.message.length + 5 := by simp [HelloFields.record]
  have hdrop : hello.record.drop 5 = hello.message := rfl
  obtain ⟨hparse, hblock⟩ := result_parseHandshake env (dataByte hello.record 2) hello hext
    hdrop rfl
  rw [parseTlsHeader_of_header hnull (by omega) rfl rfl hword, if_neg (by omega), hparse]
  have hmessage := hello.message_length
  have hfit : (List.flatMap Extension.bytes (es₁ ++ ⟨0, 0, serverNameBody name⟩ :: es₂)).length <
      65536 := by
    have := hello.message_length
    simp only [HelloFields.message, HelloFields.body, HelloFields.extensionBlock, hext,
      List.length_cons, List.length_append, length_vector16] at this
    omega
  have hsize {e : Extension} (he : e ∈ es₁ ++ ⟨0, 0, serverNameBody name⟩ :: es₂) :
      e.body.length < 65536 := by
    have := length_extension_le he
    omega
  have hbody : (serverNameBody name).length < 65536 :=
    hsize (e := ⟨0, 0, serverNameBody name⟩) (by simp)
  rw [List.flatMap_append, List.flatMap_cons] at hblock
  have hblock' : hello.record.drop (extensionsStart hello.record +
      ((es₁.flatMap Extension.bytes).length + 4)) =
      serverNameBody name ++ es₂.flatMap Extension.bytes := by
    have hat := drop_of_drop_append hblock
    rw [← Nat.add_assoc]
    exact (extension_at hbody hat).2.2.2.1
  have hreply := result_parseServerNameExtension hmem hname hz hbody hblock'
  refine ⟨extensionsStart hello.record + ((es₁.flatMap Extension.bytes).length + 4) + 5, ?_⟩
  refine result_parseExtensions hother (fun e he ↦ hsize (List.mem_append_left _ he)) hbody hblock
    ?_ (by omega) ?_
  · simp only [List.flatMap_append, List.flatMap_cons, List.length_append, Extension.bytes,
      List.length_cons, length_vector16]
    omega
  · rw [Nat.add_zero, Nat.add_assoc]
    exact hreply

end names

end OpenWrtCompile.Server
