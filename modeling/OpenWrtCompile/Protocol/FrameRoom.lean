import OpenWrtCompile.Base.Logged
import OpenWrtCompile.Protocol.AuthSha1
import OpenWrtCompile.Protocol.VerifySimple

/-!
# The payload of a received frame

The receivers of `verify_simple` (`shadowsocksr-libev/src/server/verify.c:143–188`), `auth_simple`,
`auth_sha1`, `auth_sha1_v2` and `auth_sha1_v4` (`auth.c:172–212`, `290–329`, `427–481`, `585–645`)
take the offset of the payload from the frame, and copy what lies between it and the four bytes of
the checksum. Each copy is recorded here with its signed size. A copy of negative size is undefined.
-/

namespace OpenWrtCompile.Protocol.FrameRoom
open OpenWrtCompile.Base OpenWrtCompile.Base.Framing OpenWrtCompile.Protocol

/-- `memmove(buffer, recv_buffer + off, size)` for a frame of `frame` bytes. -/
structure Move where
  frame : Nat
  off : Nat
  size : Int
  deriving DecidableEq, Repr

/-- The size is not negative and the source lies in the frame. -/
def Move.InFrame (m : Move) : Prop := 0 ≤ m.size ∧ m.off + m.size ≤ m.frame

/-- The ways a call ends without output: the return value -1, with what is left of `recv_buffer`, or
a copy of negative size. -/
inductive Failure where
  | rejected (recvBuffer : Bytes)
  | undefined
  deriving DecidableEq, Repr

/-- What the receivers differ in. -/
structure Rule where
  /-- The loop runs while `recv_buffer_size` is above this. -/
  header : Nat
  /-- The test of the header before the length is looked at. -/
  accepts : Bytes → Bool
  /-- The test of the checksum of a frame. -/
  checks : Bytes → Bool
  /-- The offset of the payload. -/
  offset : Bytes → Nat

/-- `((int)recv_buffer[0] << 8) | recv_buffer[1]`. -/
def frameLength (b : Bytes) : Nat := word16 (b[0]?.getD 0) (b[1]?.getD 0)

/-- What the tests of one pass say. -/
inductive Look where
  | wait
  | bad
  | frame
  deriving DecidableEq, Repr

namespace Rule

/-- The tests on length and checksum. -/
def look (r : Rule) (b : Bytes) : Look :=
  if b.length ≤ r.header then .wait
  else if !r.accepts b then .bad
  else if 8192 ≤ frameLength b || frameLength b < 7 then .bad
  else if b.length < frameLength b then .wait
  else if !r.checks (b.take (frameLength b)) then .bad
  else .frame

/-- The loop over `recv_buffer`. Each frame takes seven bytes at least, so `fuel` above the number of
bytes is enough. -/
def decode (r : Rule) : Nat → Bytes → Bytes → Logged Move Failure (Bytes × Bytes)
  | 0, recv, out => pure (recv, out)
  | fuel + 1, recv, out =>
    match r.look recv with
    | .wait => pure (recv, out)
    | .bad => .fail (.rejected [])
    | .frame => do
      let pos := r.offset recv
      let dataSize : Int := frameLength recv - pos - 4
      Logged.access (Move.mk (frameLength recv) pos dataSize) ()
      if dataSize < 0 then .fail .undefined
      else r.decode fuel (recv.drop (frameLength recv)) (out ++ window recv pos dataSize.toNat)

/-- One call: what is left in `recv_buffer`, and the output. -/
def postDecrypt (r : Rule) (recv data : Bytes) : Logged Move Failure (Bytes × Bytes) :=
  if 16384 < recv.length + data.length then .fail (.rejected recv)
  else r.decode ((recv ++ data).length + 1) (recv ++ data) []

end Rule

/-- The five receivers. -/
inductive Receiver where
  | verifySimple
  | authSimple
  | authSha1
  | authSha1V2
  | authSha1V4
  deriving DecidableEq, Repr

/-- The values of each receiver. -/
def Receiver.rule : Receiver → Rule
  | .verifySimple => ⟨2, fun _ ↦ true, fun f ↦ crc32 f = 0xFFFFFFFF, fun b ↦ 2 + (b[2]?.getD 0).toNat⟩
  | .authSimple => ⟨2, fun _ ↦ true, fun f ↦ crc32 f = 0xFFFFFFFF, fun b ↦ 2 + (b[2]?.getD 0).toNat⟩
  | .authSha1 => ⟨2, fun _ ↦ true, checkadler32, fun b ↦ (b[2]?.getD 0).toNat + 2⟩
  | .authSha1V2 => ⟨2, fun _ ↦ true, checkadler32, fun b ↦ AuthSha1.dataOffset b 2⟩
  | .authSha1V4 => ⟨4, AuthSha1.crcLowMatches, checkadler32, fun b ↦ AuthSha1.dataOffset b 4⟩

/-- `verify_simple_server_post_decrypt`. -/
def verifySimpleServerPostDecrypt := Receiver.verifySimple.rule.postDecrypt

/-- `auth_simple_client_post_decrypt`. -/
def authSimpleClientPostDecrypt := Receiver.authSimple.rule.postDecrypt

/-- `auth_sha1_client_post_decrypt`. -/
def authSha1ClientPostDecrypt := Receiver.authSha1.rule.postDecrypt

/-- `auth_sha1_v2_client_post_decrypt`. -/
def authSha1V2ClientPostDecrypt := Receiver.authSha1V2.rule.postDecrypt

/-- `auth_sha1_v4_client_post_decrypt`. -/
def authSha1V4ClientPostDecrypt := Receiver.authSha1V4.rule.postDecrypt

/-- The function of each receiver. -/
def Receiver.postDecrypt : Receiver → Bytes → Bytes → Logged Move Failure (Bytes × Bytes)
  | .verifySimple => verifySimpleServerPostDecrypt
  | .authSimple => authSimpleClientPostDecrypt
  | .authSha1 => authSha1ClientPostDecrypt
  | .authSha1V2 => authSha1V2ClientPostDecrypt
  | .authSha1V4 => authSha1V4ClientPostDecrypt

/-! ## Runs -/

section Runs
variable (receive : Bytes → Bytes → Logged Move Failure (Bytes × Bytes))

/-- The calls of a run, each with `recv_buffer` before it. An error leaves the receiver as the call
left it; behind undefined behaviour there is nothing to say. -/
def calls : Bytes → List Bytes → List (Bytes × Bytes)
  | _, [] => []
  | recv, data :: rest =>
    (recv, data) ::
      match (receive recv data).result with
      | .ok (left, _) => calls left rest
      | .error (.rejected left) => calls left rest
      | .error .undefined => []

/-- The output of a call. -/
def output (c : Bytes × Bytes) : Bytes :=
  match (receive c.1 c.2).result with
  | .ok (_, out) => out
  | .error _ => []

/-- Every copy of the run stays inside its frame, and the output is no longer than the input. -/
def Safe (segments : List Bytes) : Prop :=
  (∀ c ∈ calls receive [] segments, (receive c.1 c.2).All Move.InFrame) ∧
    ((calls receive [] segments).flatMap (output receive)).length ≤ segments.flatten.length

end Runs

namespace Rule

/-- Where the receiver comes to look for frames in `b`: at the start, and behind each frame that
passes the tests. -/
inductive Reaches (r : Rule) : Bytes → Bytes → Prop where
  | start (b : Bytes) : Reaches r b b
  | behind {b c : Bytes} (look : r.look b = .frame) (next : Reaches r (b.drop (frameLength b)) c) :
    Reaches r b c

/-- Each frame in `b` that passes the tests has room for its padding and its checksum. -/
def Roomy (r : Rule) (b : Bytes) : Prop :=
  ∀ c, r.Reaches b c → r.look c = .frame → r.offset c + 4 ≤ frameLength c

/-- In each call the bytes do not fit into the buffer, or all frames have room. -/
def AllRoomy (r : Rule) (segments : List Bytes) : Prop :=
  ∀ c ∈ calls r.postDecrypt [] segments, 16384 < c.1.length + c.2.length ∨ r.Roomy (c.1 ++ c.2)

variable {r : Rule}

/-- A frame that passes the tests has 7 bytes at least, all of them there. -/
theorem frameLength_of_look {b : Bytes} (h : r.look b = .frame) :
    7 ≤ frameLength b ∧ frameLength b ≤ b.length := by
  unfold look at h
  split at h
  · cases h
  · split at h
    · cases h
    · split at h
      · cases h
      · split at h
        · cases h
        · next hrange hlen =>
          simp only [Bool.or_eq_true, decide_eq_true_eq] at hrange
          omega

/-- A place is the start, or lies behind the first frame. -/
theorem roomy_iff {b : Bytes} :
    r.Roomy b ↔
      (r.look b = .frame → r.offset b + 4 ≤ frameLength b ∧ r.Roomy (b.drop (frameLength b))) := by
  constructor
  · intro h hlook
    constructor
    · exact h b (.start b) hlook
    · intro c hc
      exact h c (.behind hlook hc)
  · intro h c hc hlook
    cases hc with
    | start => exact (h hlook).1
    | behind hb next => exact (h hb).2 c next hlook

/-- The copies of the loop stay inside their frames exactly when every frame has room. -/
theorem decode_all_iff {fuel : Nat} {recv out : Bytes} (hfuel : recv.length < fuel) :
    (r.decode fuel recv out).All Move.InFrame ↔ r.Roomy recv := by
  induction fuel generalizing recv out with
  | zero => omega
  | succ fuel ih =>
    rw [roomy_iff, decode]
    cases hlook : r.look recv with
    | wait => simp only [Logged.all_pure, reduceCtorEq, false_implies]
    | bad => simp only [Logged.all_fail, reduceCtorEq, false_implies]
    | frame =>
      have hlen := frameLength_of_look hlook
      simp only [Logged.all_bind, Logged.all_access, Logged.result_access, Logged.all_ite,
        Logged.all_fail, implies_true, true_and, true_implies, Move.InFrame]
      have hrest (o : Bytes) : (r.decode fuel (recv.drop (frameLength recv)) o).All Move.InFrame ↔
          r.Roomy (recv.drop (frameLength recv)) := by
        apply ih
        rw [List.length_drop]
        omega
      constructor
      · intro h
        have hpos : ¬ (frameLength recv : Int) - r.offset recv - 4 < 0 := by omega
        exact ⟨by omega, (hrest _).mp (h.2 () hpos)⟩
      · intro h
        exact ⟨by omega, fun _ _ ↦ (hrest _).mpr h.2⟩

/-- What is kept and what is put out together are no more than what there was. -/
theorem decode_length {fuel : Nat} {recv out left out' : Bytes}
    (h : (r.decode fuel recv out).result = .ok (left, out')) :
    left.length + out'.length ≤ recv.length + out.length := by
  induction fuel generalizing recv out with
  | zero =>
    rw [decode] at h
    cases h
    exact Nat.le_refl _
  | succ fuel ih =>
    rw [decode] at h
    cases hlook : r.look recv with
    | wait =>
      rw [hlook] at h
      cases h
      exact Nat.le_refl _
    | bad =>
      rw [hlook] at h
      cases h
    | frame =>
      have hlen := frameLength_of_look hlook
      rw [hlook] at h
      simp only [Logged.result_bind, Logged.result_access, Except.bind] at h
      by_cases hneg : (frameLength recv : Int) - r.offset recv - 4 < 0
      · rw [if_pos hneg] at h
        cases h
      · rw [if_neg hneg] at h
        have hrest := ih h
        have hwindow := length_window_le recv (r.offset recv)
          ((frameLength recv : Int) - r.offset recv - 4).toNat
        rw [List.length_drop, List.length_append] at hrest
        omega

/-- One call: its copies stay inside their frames exactly when the bytes do not fit or all frames
have room. -/
theorem postDecrypt_all_iff (recv data : Bytes) :
    (r.postDecrypt recv data).All Move.InFrame ↔
      (16384 < recv.length + data.length ∨ r.Roomy (recv ++ data)) := by
  unfold postDecrypt
  by_cases hfit : 16384 < recv.length + data.length
  · simp only [hfit, if_true, Logged.all_fail, true_or]
  · rw [if_neg hfit, decode_all_iff (Nat.lt_succ_self _)]
    simp only [hfit, false_or]

/-- One call keeps and puts out no more than it had and was given. -/
theorem postDecrypt_length {recv data left out : Bytes}
    (h : (r.postDecrypt recv data).result = .ok (left, out)) :
    left.length + out.length ≤ recv.length + data.length := by
  unfold postDecrypt at h
  split at h
  · cases h
  · have hdecode := decode_length h
    rwa [List.length_append, List.length_nil, Nat.add_zero] at hdecode

/-- A loop that rejects a frame empties the buffer. -/
theorem decode_rejected {fuel : Nat} {recv out left : Bytes}
    (h : (r.decode fuel recv out).result = .error (.rejected left)) : left = [] := by
  induction fuel generalizing recv out with
  | zero =>
    rw [decode] at h
    cases h
  | succ fuel ih =>
    rw [decode] at h
    cases hlook : r.look recv with
    | wait =>
      rw [hlook] at h
      cases h
    | bad =>
      rw [hlook] at h
      cases h
      rfl
    | frame =>
      rw [hlook] at h
      simp only [Logged.result_bind, Logged.result_access, Except.bind] at h
      split at h
      · cases h
      · exact ih h

/-- A call that rejects keeps what it had, or nothing. -/
theorem postDecrypt_rejected {recv data left : Bytes}
    (h : (r.postDecrypt recv data).result = .error (.rejected left)) :
    left.length ≤ recv.length := by
  unfold postDecrypt at h
  split at h
  · cases h
    exact Nat.le_refl _
  · rw [decode_rejected h]
    exact Nat.zero_le _

/-- The output of a run is no longer than what was kept before it and what arrived. -/
theorem length_output_le (r : Rule) (recv : Bytes) (segments : List Bytes) :
    ((calls r.postDecrypt recv segments).flatMap (output r.postDecrypt)).length ≤
      recv.length + segments.flatten.length := by
  induction segments generalizing recv with
  | nil => exact Nat.zero_le _
  | cons data rest ih =>
    rw [calls, List.flatMap_cons, List.length_append, List.flatten_cons, List.length_append, output]
    cases hcall : (r.postDecrypt recv data).result with
    | ok out =>
      have hlen := postDecrypt_length hcall
      have hrest := ih out.1
      simp only
      omega
    | error e =>
      cases e with
      | rejected left =>
        have hlen := postDecrypt_rejected hcall
        have hrest := ih left
        simp only [List.length_nil]
        omega
      | undefined =>
        simp only [List.flatMap_nil, List.length_nil]
        omega

/-- A run is safe exactly when in each of its calls the bytes do not fit or all frames have room. -/
theorem safe_iff (r : Rule) (segments : List Bytes) :
    Safe r.postDecrypt segments ↔ r.AllRoomy segments := by
  have hlen := length_output_le r [] segments
  rw [List.length_nil, Nat.zero_add] at hlen
  unfold Safe AllRoomy
  simp only [postDecrypt_all_iff, hlen, and_true]

/-! ## The same receivers without the record -/

/-- A call without its record. -/
def plain (x : Logged Move Failure (Bytes × Bytes)) : Option (Bytes × Option Bytes) :=
  match x.result with
  | .ok (left, out) => some (left, some out)
  | .error (.rejected left) => some (left, none)
  | .error .undefined => none

/-- One pass without its record. -/
def parse (r : Rule) (b : Bytes) : Parsed UInt8 :=
  match r.look b with
  | .wait => .more
  | .bad => .bad
  | .frame =>
    if frameLength b < r.offset b + 4 then .undefined
    else .frame (window b (r.offset b) (frameLength b - r.offset b - 4)) (frameLength b)

/-- The loop without its record takes the frames that `parse` sees. -/
theorem plain_decode (r : Rule) (fuel : Nat) (recv out : Bytes) :
    plain (r.decode fuel recv out) =
      match Framing.decode r.parse fuel recv out with
      | .kept left out => some (left, some out)
      | .rejected => some ([], none)
      | .undefined => none := by
  induction fuel generalizing recv out with
  | zero => rfl
  | succ fuel ih =>
    rw [decode, Framing.decode, parse]
    cases r.look recv with
    | wait => rfl
    | bad => rfl
    | frame =>
      have hbind (x : Logged Move Failure (Bytes × Bytes)) (m : Move) :
          plain (Logged.access m () >>= fun _ ↦ x) = plain x := by
        unfold plain
        rw [Logged.result_bind]
        rfl
      by_cases hroom : frameLength recv < r.offset recv + 4
      · have hneg : (frameLength recv : Int) - r.offset recv - 4 < 0 := by omega
        simp only [hbind, hneg, hroom, if_true]
        rfl
      · have hneg : ¬ (frameLength recv : Int) - r.offset recv - 4 < 0 := by omega
        have hsize : ((frameLength recv : Int) - r.offset recv - 4).toNat =
            frameLength recv - r.offset recv - 4 := by omega
        simp only [hbind, hneg, hroom, if_false, hsize]
        exact ih _ _

/-- A call without its record is the bounded receiver for `parse`. -/
theorem plain_postDecrypt (r : Rule) (recv data : Bytes) :
    plain (r.postDecrypt recv data) = receive 16384 r.parse recv data := by
  unfold postDecrypt receive
  split
  · rfl
  · rw [plain_decode]
    cases Framing.decode r.parse ((recv ++ data).length + 1) (recv ++ data) [] <;> rfl

/-- One pass, test by test. -/
theorem parse_eq (r : Rule) (b : Bytes) :
    r.parse b =
      if b.length ≤ r.header then .more
      else if !r.accepts b then .bad
      else if 8192 ≤ frameLength b || frameLength b < 7 then .bad
      else if b.length < frameLength b then .more
      else if !r.checks (b.take (frameLength b)) then .bad
      else if frameLength b < r.offset b + 4 then .undefined
      else .frame (window b (r.offset b) (frameLength b - r.offset b - 4)) (frameLength b) := by
  unfold parse look
  by_cases h1 : b.length ≤ r.header
  · simp only [h1, if_true]
  · by_cases h2 : (!r.accepts b) = true
    · simp only [h1, h2, if_true, if_false]
    · by_cases h3 : (8192 ≤ frameLength b || frameLength b < 7) = true
      · simp only [h1, h2, h3, if_true, if_false, Bool.false_eq_true]
      · by_cases h4 : b.length < frameLength b
        · simp only [h1, h2, h3, h4, if_true, if_false, Bool.false_eq_true]
        · by_cases h5 : (!r.checks (b.take (frameLength b))) = true
          · simp only [h1, h2, h3, h4, h5, if_true, if_false, Bool.false_eq_true]
          · simp only [h1, h2, h3, h4, h5, if_false, Bool.false_eq_true]

end Rule

/-- `verify_simple` without the record is the receiver of its round trip. -/
theorem plain_verifySimple (recv data : Bytes) :
    Rule.plain (verifySimpleServerPostDecrypt recv data) =
      VerifySimple.serverPostDecrypt recv data := by
  have hparse : Receiver.verifySimple.rule.parse = VerifySimple.parse := by
    funext b
    have hcrc : (!decide (crc32 (b.take (frameLength b)) = 0xFFFFFFFF)) =
        decide (crc32 (b.take (frameLength b)) ≠ 0xFFFFFFFF) := by rw [decide_not]
    have hsum : 2 + (b[2]?.getD 0).toNat + 4 = (b[2]?.getD 0).toNat + 6 := by omega
    have hsub : frameLength b - (2 + (b[2]?.getD 0).toNat) - 4 =
        frameLength b - (b[2]?.getD 0).toNat - 6 := by omega
    rw [Rule.parse_eq, VerifySimple.parse]
    simp only [Receiver.rule, Bool.not_true, Bool.false_eq_true, if_false, hcrc, decide_eq_true_eq,
      hsum, hsub]
    rfl
  rw [verifySimpleServerPostDecrypt, Rule.plain_postDecrypt, hparse]
  rfl

/-- `auth_sha1_v2` without the record is the receiver of its round trip. -/
theorem plain_authSha1V2 (recv data : Bytes) :
    Rule.plain (authSha1V2ClientPostDecrypt recv data) =
      AuthSha1.authSha1V2ClientPostDecrypt recv data := by
  have hparse : Receiver.authSha1V2.rule.parse = AuthSha1.parse AuthSha1.v2 := by
    funext b
    rw [Rule.parse_eq, AuthSha1.parse]
    rfl
  rw [authSha1V2ClientPostDecrypt, Rule.plain_postDecrypt, hparse]
  rfl

/-- `auth_sha1_v4` without the record is the receiver of its round trip. -/
theorem plain_authSha1V4 (recv data : Bytes) :
    Rule.plain (authSha1V4ClientPostDecrypt recv data) =
      AuthSha1.authSha1V4ClientPostDecrypt recv data := by
  have hparse : Receiver.authSha1V4.rule.parse = AuthSha1.parse AuthSha1.v4 := by
    funext b
    rw [Rule.parse_eq, AuthSha1.parse]
    rfl
  rw [authSha1V4ClientPostDecrypt, Rule.plain_postDecrypt, hparse]
  rfl

/-! ## When the copies are safe -/

/-- For each receiver and every segmentation of every byte stream, the copies stay inside their
frames and the output inside the input exactly when all frames have room. -/
theorem safe_iff_allRoomy (receiver : Receiver) (segments : List Bytes) :
    Safe receiver.postDecrypt segments ↔ receiver.rule.AllRoomy segments := by
  have hrule : receiver.postDecrypt = receiver.rule.postDecrypt := by
    cases receiver <;> rfl
  rw [hrule, Rule.safe_iff]

/-- A frame of seven bytes with a correct CRC that names 200 bytes of padding. -/
def overlongPadding : Bytes := fillcrc32 [0, 7, 200]

/-- `verify_simple` copies a negative number of bytes from it. -/
theorem not_safe_overlongPadding : ¬ Safe Receiver.verifySimple.postDecrypt [overlongPadding] := by
  intro h
  have hroomy := (Receiver.verifySimple.rule.safe_iff [overlongPadding]).mp h
  have hcall := hroomy ([], overlongPadding) List.mem_cons_self
  have hlook : Receiver.verifySimple.rule.look overlongPadding = .frame := by
    have hcrc : crc32 (overlongPadding.take 7) = 0xFFFFFFFF := crc32_fillcrc32 [0, 7, 200]
    have hlen : overlongPadding.length = 7 := rfl
    have hframe : frameLength overlongPadding = 7 := rfl
    simp [Rule.look, Receiver.rule, hcrc, hlen, hframe]
  rcases hcall with hlimit | hroom
  · have hlen : overlongPadding.length = 7 := rfl
    simp only [hlen, List.length_nil] at hlimit
    omega
  · have hfit := hroom overlongPadding (.start _) hlook
    have hoff : Receiver.verifySimple.rule.offset overlongPadding = 202 := rfl
    have hframe : frameLength overlongPadding = 7 := rfl
    omega

end OpenWrtCompile.Protocol.FrameRoom
