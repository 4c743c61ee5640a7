import OpenWrtCompile.Base.Run
import OpenWrtCompile.Server.Reassembly

/-!
# Delivery of the payload behind the request header

`shadowsocksr-libev/src/server/server.c:551–595, 1039–1065, 1213–1233, 1384–1428`. What follows the
header in the first buffer is offered to the fast-open `sendto`, the rest is copied to the buffer of
the remote and sent by `remote_send_cb`. The resolve callback copies from `idx` on; the branch for a
literal address copies from the start of the block.
-/

namespace OpenWrtCompile.Server
open OpenWrtCompile.Base

variable {σ κ : Type}

/-- The first buffer of a connection, up to the opened remote: `server_recv_cb`, and for a host name
the callback with its address. -/
def openRemote (env : ServerEnv σ κ) (connect : ConnectReply) (c : Conn σ κ) (seg : Bytes) :
    Option (Conn σ κ) :=
  match serverRecvCb env connect .again c seg with
  | none => none
  | some c => if c.stage = .resolve then serverResolveCb env connect true c else some c

/-- `remote_send_cb` once for each writable event. -/
def sendAll (c : Conn σ κ) (replies : List (Bool × SendReply)) : Option (Conn σ κ) :=
  run (fun c e ↦ remoteSendCb e.1 e.2 c) c replies

/-- However the kernel takes them, the bytes written are the first of `data` and in the end all of
`data`. -/
def DeliversExactly (c : Conn σ κ) (data : Bytes) : Prop :=
  ∀ replies c' r, sendAll c replies = some c' → c'.remote = some r →
    r.sent <+: data ∧ (r.buf.len = 0 → r.sent = data)

/-- A host name, not an address. -/
def Target.isName : Target → Bool
  | .name _ _ => true
  | .addr _ _ _ => false

/-- The parser takes the header's address for a host name that has to be resolved. -/
def needsQuery (env : ParseEnv) (p : Bytes) : Bool :=
  match parseTarget env (.ofBytes p) with
  | .ok (target, _) => target.isName
  | .error _ => false

/-- What the one-time-auth check leaves of the payload. -/
def checkedPayload (env : ServerEnv σ κ) (chunk : κ) (atyp : UInt8) (payload : Bytes) :
    Option Bytes :=
  if wantsAuth env.parse.auth atyp then (env.checkHash chunk payload).map Prod.snd
  else some payload

/-- How many of `n` bytes the fast-open `sendto` takes. -/
def fastOpenTaken (env : ServerEnv σ κ) (connect : ConnectReply) (n : Nat) : Nat :=
  match env.fastOpen, connect.fastOpen with
  | true, .sent s => min s n
  | _, _ => 0

/-- What is written and what is still to be written of a remote. -/
def Remote.stream (r : Remote) : Bytes := r.sent ++ r.buf.pending

/-- The remote's pending bytes lie inside their block. -/
def Remote.Inside (r : Remote) : Prop := r.buf.idx + r.buf.len ≤ r.buf.array.length

/-- A send moves bytes from the pending ones to the written ones. -/
theorem remoteSend_stream (reply : SendReply) (c c' : Conn σ κ) (r : Remote) (hr : r.Inside)
    (hc : c.remote = some r) (h : remoteSend reply c r = some c') :
    ∃ r', c'.remote = some r' ∧ r'.stream = r.stream ∧ r'.Inside := by
  unfold Remote.Inside at hr
  unfold remoteSend at h
  cases reply with
  | sent n =>
    simp only at h
    split at h
    · next hn =>
      rw [← Option.some.inj h]
      refine ⟨_, rfl, ?_, ?_⟩
      · have hwin : window r.buf.array (r.buf.idx + n) (r.buf.len - n) = r.buf.pending.drop n := by
          simp only [Buffer.pending, window, List.drop_take, List.drop_drop]
        simp only [Remote.stream, Buffer.pending, List.append_assoc] at hwin ⊢
        rw [hwin, List.take_append_drop]
      · simp only [Remote.Inside]
        omega
    · next hn =>
      rw [← Option.some.inj h]
      refine ⟨_, rfl, ?_, Nat.zero_le _⟩
      have hall : r.buf.pending.take n = r.buf.pending :=
        List.take_of_length_le ((length_window_le _ _ _).trans (by omega))
      rw [hall]
      simp only [Remote.stream, Buffer.reset, Buffer.pending, window, List.take_zero,
        List.append_nil]
  | again =>
    rw [← Option.some.inj h]
    exact ⟨r, hc, rfl, hr⟩
  | unsupported => cases h
  | error => cases h

/-- One writable event neither loses, repeats nor reorders a byte. -/
theorem remoteSendCb_stream (peer : Bool) (reply : SendReply) (c c' : Conn σ κ) (r : Remote)
    (hr : r.Inside) (hc : c.remote = some r) (h : remoteSendCb peer reply c = some c') :
    ∃ r', c'.remote = some r' ∧ r'.stream = r.stream ∧ r'.Inside := by
  simp only [remoteSendCb, hc] at h
  split at h
  · split at h
    · cases h
    · exact remoteSend_stream reply c c' r hr hc h
  · split at h
    · cases h
    · split at h
      · rw [← Option.some.inj h]
        exact ⟨_, rfl, rfl, hr⟩
      · exact remoteSend_stream reply { c with remote := some { r with connected := true } } c'
          { r with connected := true } hr rfl h

/-- Any number of writable events neither loses, repeats nor reorders a byte. -/
theorem sendAll_stream (c c' : Conn σ κ) (r : Remote) (replies : List (Bool × SendReply))
    (hr : r.Inside) (hc : c.remote = some r) (h : sendAll c replies = some c') :
    ∃ r', c'.remote = some r' ∧ r'.stream = r.stream ∧ r'.Inside := by
  apply run_invariant (fun c (e : Bool × SendReply) ↦ remoteSendCb e.1 e.2 c)
    (fun c ↦ ∃ r', c.remote = some r' ∧ r'.stream = r.stream ∧ r'.Inside) _ ⟨r, hc, rfl, hr⟩ h
  rintro s e t ⟨r₁, h1, h2, h3⟩ hstep
  rcases remoteSendCb_stream e.1 e.2 s t r₁ h3 h1 hstep with ⟨r₂, h4, h5, h6⟩
  exact ⟨r₂, h4, h5.trans h2, h6⟩

/-- The events after which nothing is pending: one send that takes everything, where there is
something to send. -/
theorem exists_drain (c : Conn σ κ) (r : Remote) (hc : c.remote = some r)
    (hnew : r.connected = false) :
    ∃ replies c' r', sendAll c replies = some c' ∧ c'.remote = some r' ∧ r'.buf.len = 0 ∧
      r'.sent = r.stream := by
  by_cases hz : r.buf.len = 0
  · refine ⟨[], c, r, rfl, hc, hz, ?_⟩
    simp only [Remote.stream, Buffer.pending, window, hz, List.take_zero, List.append_nil]
  · have hall : r.buf.pending.take r.buf.len = r.buf.pending :=
      List.take_of_length_le (length_window_le _ _ _)
    have hsend : remoteSendCb true (.sent r.buf.len) c = remoteSend (.sent r.buf.len)
        { c with remote := some { r with connected := true } } { r with connected := true } := by
      simp only [remoteSendCb, hc, hnew, hz, Bool.not_true, if_false, Bool.false_eq_true]
    simp only [remoteSend, lt_self_iff_false, if_false, hall] at hsend
    refine ⟨[(true, .sent r.buf.len)], _, _, run_cons_of_some _ [] hsend, rfl, rfl, rfl⟩

/-- A fresh remote delivers exactly `data` if and only if what is written and pending is `data`. -/
theorem deliversExactly_iff (c : Conn σ κ) (data : Bytes) (r : Remote) (hc : c.remote = some r)
    (hnew : r.connected = false) (hr : r.Inside) : DeliversExactly c data ↔ r.stream = data := by
  constructor
  · intro h
    rcases exists_drain c r hc hnew with ⟨replies, c', r', h1, h2, h3, h4⟩
    rw [← h4]
    exact (h replies c' r' h1 h2).2 h3
  · intro h replies c' r' hrun hc'
    rcases sendAll_stream c c' r replies hr hc hrun with ⟨r₂, h1, h2, -⟩
    rw [hc'] at h1
    rw [← Option.some.inj h1, h] at h2
    rw [← h2]
    refine ⟨List.prefix_append _ _, ?_⟩
    intro hz
    simp only [Remote.stream, Buffer.pending, window, hz, List.take_zero, List.append_nil]

/-- The opened remote has been offered the first bytes, and the rest stays where it was. -/
theorem connectToRemote_spec (env : ServerEnv σ κ) (connect : ConnectReply) (b b' : Buffer)
    (r : Remote) (hidx : b.idx = 0) (hin : b.len ≤ b.array.length)
    (h : connectToRemote env.fastOpen connect b = some (r, b')) :
    r.sent = b.data.take (fastOpenTaken env connect b.len) ∧ r.buf = .balloc connect.mem ∧
      r.connected = false ∧ b'.array = b.array ∧
        b'.len = b.len - fastOpenTaken env connect b.len ∧
          (0 < b'.len → b'.idx = fastOpenTaken env connect b.len) := by
  have hpend := b.pending_eq_data hidx
  have hlen := b.length_data hin
  unfold connectToRemote at h
  split at h
  · cases h
  · cases hf : env.fastOpen with
    | false =>
      simp only [hf, Bool.false_eq_true, if_false] at h
      split at h
      · cases h
      · cases h
        simp [fastOpenTaken, hf, newRemote, hidx]
    | true =>
      cases hs : connect.fastOpen with
      | sent n =>
        simp only [hf, hs, if_true, fastOpenSend] at h
        by_cases hn : n ≤ b.len
        · simp only [hn, if_true, Bool.not_true, Bool.false_and, Bool.false_eq_true, if_false] at h
          cases h
          simp [fastOpenTaken, hf, hs, newRemote, hidx, hpend, Nat.min_eq_left hn]
        · simp only [hn, if_false, Bool.not_true, Bool.false_and, Bool.false_eq_true] at h
          cases h
          have hmin : min n b.len = b.len := Nat.min_eq_right (by omega)
          have hall : b.data.take b.len = b.data := List.take_of_length_le (Nat.le_of_eq hlen)
          simp [fastOpenTaken, hf, hs, newRemote, hpend, hmin, hall, Buffer.reset]
      | again =>
        simp only [hf, hs, if_true, fastOpenSend, Bool.not_true, Bool.false_and,
          Bool.false_eq_true, if_false] at h
        cases h
        simp [fastOpenTaken, hf, hs, newRemote, hidx]
      | unsupported =>
        simp only [hf, hs, if_true, fastOpenSend] at h
        split at h
        · cases h
        · cases h
          simp [fastOpenTaken, hf, hs, newRemote, hidx]
      | error =>
        simp only [hf, hs, if_true, fastOpenSend, Bool.not_true, Bool.false_and,
          Bool.false_eq_true, if_false] at h
        cases h
        simp [fastOpenTaken, hf, hs, newRemote, hidx]

/-- A remote that has sent `sent` and to whose empty buffer `rest` is copied. -/
theorem stream_assign (r : Remote) (mem rest : Bytes) (hb : r.buf = .balloc mem) :
    Remote.stream { r with buf := r.buf.assign rest, sendIo := true } = r.sent ++ rest ∧
      Remote.Inside { r with buf := r.buf.assign rest, sendIo := true } := by
  have hin := (Buffer.balloc mem).len_assign_le rest
  refine ⟨?_, ?_⟩
  · simp only [Remote.stream, hb]
    rw [Buffer.pending_eq_data _ rfl, Buffer.data_assign]
  · simp only [Remote.Inside, hb, Buffer.idx_assign, Buffer.idx_balloc, Nat.zero_add]
    exact hin

/-- For a literal address, what is written and pending repeats the first bytes of the payload in
place of its last ones. -/
theorem literalStage_stream (env : ServerEnv σ κ) (connect : ConnectReply) (c c' : Conn σ κ)
    (hidx : c.buf.idx = 0) (hin : c.buf.len ≤ c.buf.array.length)
    (h : literalStage env connect c = some c') :
    ∃ r, c'.remote = some r ∧ r.connected = false ∧ r.Inside ∧ c'.stage = c.stage ∧
      r.stream = c.buf.data.take (fastOpenTaken env connect c.buf.len) ++
        c.buf.data.take (c.buf.len - fastOpenTaken env connect c.buf.len) := by
  unfold literalStage at h
  cases hconn : connectToRemote env.fastOpen connect c.buf with
  | none =>
    rw [hconn] at h
    cases h
  | some rb =>
    rcases rb with ⟨r, b⟩
    have hspec := connectToRemote_spec env connect c.buf b r hidx hin hconn
    rcases hspec with ⟨h1, h2, h3, h4, h5, -⟩
    rw [hconn] at h
    simp only at h
    split at h
    · next hpos =>
      rw [← Option.some.inj h]
      have hcopy := stream_assign r connect.mem (window b.array 0 b.len) h2
      refine ⟨_, rfl, h3, hcopy.2, rfl, ?_⟩
      rw [hcopy.1, h1, h4, h5]
      simp only [window, List.drop_zero, Buffer.data, List.take_take]
      rw [Nat.min_eq_left (Nat.sub_le _ _)]
    · next hpos =>
      rw [← Option.some.inj h]
      have hz : c.buf.len - fastOpenTaken env connect c.buf.len = 0 := by omega
      refine ⟨_, rfl, h3, ?_, rfl, ?_⟩
      · simp only [Remote.Inside, h2]
        exact Nat.zero_le _
      · simp only [Remote.stream, h2, hz, h1]
        rfl

/-- For a resolved name, what is written and pending is the payload. -/
theorem serverResolveCb_stream (env : ServerEnv σ κ) (connect : ConnectReply) (c c' : Conn σ κ)
    (hidx : c.buf.idx = 0) (hin : c.buf.len ≤ c.buf.array.length)
    (h : serverResolveCb env connect true c = some c') :
    ∃ r, c'.remote = some r ∧ r.connected = false ∧ r.Inside ∧ r.stream = c.buf.data := by
  unfold serverResolveCb at h
  simp only [Bool.not_true, Bool.false_eq_true, if_false] at h
  cases hconn : connectToRemote env.fastOpen connect c.buf with
  | none =>
    rw [hconn] at h
    cases h
  | some rb =>
    rcases rb with ⟨r, b⟩
    rcases connectToRemote_spec env connect c.buf b r hidx hin hconn with ⟨h1, h2, h3, h4, h5, h6⟩
    rw [hconn] at h
    simp only at h
    split at h
    · next hpos =>
      rw [← Option.some.inj h]
      have hcopy := stream_assign r connect.mem (window b.array b.idx b.len) h2
      refine ⟨_, rfl, h3, hcopy.2, ?_⟩
      have hrest : window b.array b.idx b.len =
          c.buf.data.drop (fastOpenTaken env connect c.buf.len) := by
        rw [h4, h6 hpos, h5, window, Buffer.data, List.drop_take]
      rw [hcopy.1, h1, hrest, List.take_append_drop]
    · next hpos =>
      rw [← Option.some.inj h]
      refine ⟨_, rfl, h3, ?_, ?_⟩
      · simp only [Remote.Inside, h2]
        exact Nat.zero_le _
      · have hall : c.buf.data.length ≤ fastOpenTaken env connect c.buf.len := by
          rw [c.buf.length_data hin]
          omega
        simp only [Remote.stream, h2, h1, List.take_of_length_le hall]
        exact List.append_nil _

/-- The target depends on the bytes in use only. -/
theorem parseTarget_eq_ofBytes (env : ParseEnv) (buf : Buffer) (hl : buf.len ≤ buf.array.length)
    (hp : 0 < buf.len) : parseTarget env buf = parseTarget env (.ofBytes buf.data) := by
  have hlen : (Buffer.ofBytes buf.data).len = buf.len := buf.length_data hl
  have hb (i : Nat) (hi : i < buf.len) : (Buffer.ofBytes buf.data).byte i = buf.byte i := by
    rw [buf.byte_eq_data i hi]
    rfl
  have hw (off n : Nat) (hn : off + n ≤ buf.len) :
      window (Buffer.ofBytes buf.data).array off n = window buf.array off n := by
    simp only [Buffer.ofBytes, Buffer.data, window, List.drop_take, List.take_take]
    rw [Nat.min_eq_left (by omega)]
  unfold parseTarget
  rw [hlen, hb 0 hp]
  split
  · split
    · rw [hw 1 4 (by omega), hw 5 2 (by omega)]
    · rfl
  · split
    · by_cases h1 : 1 < buf.len
      · rw [hb 1 h1]
        simp only
        split
        · next hname => rw [hw _ _ (by omega), hw _ _ (by omega)]
        · rfl
      · simp only [show ∀ n, ¬ n + 4 ≤ buf.len by intro n; omega, if_false]
    · split
      · split
        · rw [hw 1 16 (by omega), hw 17 2 (by omega)]
        · rfl
      · rfl

/-- The port of an accepted header follows its address field. -/
theorem parseTarget_offset (env : ParseEnv) (atyp : UInt8) (addr rest : Bytes) (target : Target)
    (off : Nat) (field : AddressField atyp addr)
    (h : parseTarget env (.ofBytes (atyp :: (addr ++ rest))) = .ok (target, off)) :
    off = 1 + addr.length := by
  have hzero : (Buffer.ofBytes (atyp :: (addr ++ rest))).byte 0 = atyp := rfl
  unfold parseTarget at h
  rw [hzero] at h
  cases field with
  | ipv4 _ type length =>
    simp only [type, if_true] at h
    split at h
    · cases h
      rw [length]
    · cases h
  | name n name type pos length =>
    have h31 : ¬ (3 : UInt8) = 1 := by decide
    have hone : (Buffer.ofBytes (atyp :: (n :: name ++ rest))).byte 1 = n := rfl
    simp only [type, h31, if_true, if_false, hone] at h
    have hsum : 2 + n.toNat = 1 + (n :: name).length := by
      rw [List.length_cons, length]
      omega
    split at h
    · split at h
      · cases h
      · split at h
        · cases h
          exact hsum
        · split at h
          · cases h
            exact hsum
          · cases h
    · cases h
  | ipv6 _ type length =>
    have h41 : ¬ (4 : UInt8) = 1 := by decide
    have h43 : ¬ (4 : UInt8) = 3 := by decide
    simp only [type, h41, h43, if_true, if_false] at h
    split at h
    · cases h
      rw [length]
    · cases h

/-- An accepted request leaves the bytes behind its header at the front of the buffer. -/
theorem parseRequest_spec (env : ParseEnv) (buf : Buffer) (h payload : Bytes)
    (hh : IsHeader env.auth h) (hin : buf.len ≤ buf.array.length) (hd : buf.data = h ++ payload)
    (req : Request) (hreq : parseRequest env false buf = .ok req) :
    req.auth = wantsAuth env.auth (h.headD 0) ∧ req.payload.data = payload ∧
      req.payload.idx = buf.idx ∧ req.payload.len ≤ req.payload.array.length ∧
        needsQuery env (h ++ payload) = req.target.isName := by
  have h5 := hh.five_le
  have hlen := buf.length_data hin
  rw [hd, List.length_append] at hlen
  have hpos : 0 < buf.len := by omega
  have htarget := parseTarget_eq_ofBytes env buf hin hpos
  have hbyte := buf.byte_eq_data 0 hpos
  rw [hd] at htarget hbyte
  cases hh with
  | mk atyp addr port tag field hport htag =>
    have hzero : buf.byte 0 = atyp := hbyte
    simp only [parseRequest, bind, Except.bind] at hreq
    split at hreq
    · cases hreq
    · next auth hauth =>
      have ha : auth = wantsAuth env.auth atyp := by
        unfold checkOnetimeauth at hauth
        rw [hzero] at hauth
        split at hauth
        · next hw =>
          simp only at hauth
          split at hauth
          · cases hauth
          · split at hauth
            · cases hauth
            · rw [hw]
              exact (Except.ok.inj hauth).symm
        · next hw =>
          rw [← Except.ok.inj hauth]
          simpa using hw
      split at hreq
      · cases hreq
      · next t ht =>
        rcases t with ⟨target, off⟩
        rw [htarget] at ht
        have hoff := parseTarget_offset env atyp addr (port ++ tag ++ payload) target off field
          (by simpa only [List.cons_append, List.append_assoc] using ht)
        have hheader : off + 2 + (if auth = true then onetimeauthBytes else 0) =
            (atyp :: (addr ++ port ++ tag)).length := by
          simp only [List.length_cons, List.length_append, hport, htag, ha, hoff]
          omega
        have hplen : buf.len - (atyp :: (addr ++ port ++ tag)).length = payload.length := by omega
        have hrest : window buf.array (atyp :: (addr ++ port ++ tag)).length payload.length =
            payload := by
          have hdrop := congrArg (List.drop (atyp :: (addr ++ port ++ tag)).length) hd
          rw [List.drop_left, Buffer.data, List.drop_take, hplen] at hdrop
          exact hdrop
        simp only [hheader, hplen, hrest] at hreq
        split at hreq
        · cases hreq
        · rw [← Except.ok.inj hreq]
          refine ⟨ha, buf.data_assign payload, rfl, buf.len_assign_le payload, ?_⟩
          simp only [needsQuery, ht]

/-- The checked payload is what goes to the remote. -/
theorem requestStage_spec (env : ServerEnv σ κ) (c c' : Conn σ κ) (h payload data : Bytes)
    (target : Target) (hh : IsHeader env.parse.auth h) (hauth : c.auth = false)
    (hin : c.buf.len ≤ c.buf.array.length) (hd : c.buf.data = h ++ payload)
    (hdata : checkedPayload env c.chunk (h.headD 0) payload = some data)
    (hreq : requestStage env c = some (target, c')) :
    c'.buf.data = data ∧ c'.buf.idx = c.buf.idx ∧ c'.buf.len ≤ c'.buf.array.length ∧
      c'.stage = c.stage ∧
        needsQuery env.parse (h ++ payload) = target.isName := by
  unfold requestStage at hreq
  rw [hauth] at hreq
  split at hreq
  · cases hreq
  · next req hok =>
    rcases parseRequest_spec env.parse c.buf h payload hh hin hd req hok
      with ⟨h1, h2, h3, h4, h5⟩
    unfold checkedPayload at hdata
    rw [← h1] at hdata
    split at hreq
    · next ha =>
      rw [if_pos ha] at hdata
      rw [h2] at hreq
      cases hc : env.checkHash c.chunk payload with
      | none =>
        rw [hc] at hreq
        cases hreq
      | some r =>
        rw [hc] at hreq hdata
        cases hreq
        have hr : r.2 = data := Option.some.inj hdata
        refine ⟨?_, h3, req.payload.len_assign_le _, rfl, h5⟩
        rw [← hr]
        exact req.payload.data_assign r.2
    · next ha =>
      rw [if_neg ha] at hdata
      cases hreq
      exact ⟨h2.trans (Option.some.inj hdata), h3, h4, rfl, h5⟩

/-- A first buffer that holds the whole header goes straight to the parser. -/
theorem receive_first (env : ServerEnv σ κ) (evp : σ) (chunk : κ) (mem headerMem iv : Bytes)
    (hiv : iv.length = env.cipher.ivLen) (hseen : env.ivSeen iv = false) (h payload : Bytes)
    (hh : IsHeader env.parse.auth h) :
    ∃ c : Conn σ κ, receive env (newServer evp chunk mem headerMem)
        (iv ++ (env.cipher.encrypt (env.cipher.setIv iv) (h ++ payload)).2) = .parse c ∧
      c.buf.data = h ++ payload ∧ c.buf.idx = 0 ∧ c.buf.len ≤ c.buf.array.length ∧
        c.auth = false ∧ c.chunk = chunk ∧ c.stage = .parse := by
  have h5 := hh.five_le
  have hne : h ++ payload ≠ [] := by
    intro hnil
    rw [List.append_eq_nil_iff] at hnil
    rw [hnil.1] at h5
    simp at h5
  rcases receive_fresh_long env
      (iv ++ (env.cipher.encrypt (env.cipher.setIv iv) (h ++ payload)).2) iv (h ++ payload)
      (fresh_newServer evp chunk mem headerMem) (Nat.zero_le _) hiv hseen rfl
      (by rw [List.length_append]; omega) with ⟨b, hidx, hrec⟩
  have hcomplete : isHeaderComplete env.parse.auth (b.assign (h ++ payload)) = .complete := by
    rw [isHeaderComplete_eq_ofBytes _ _ (b.len_assign_le _) (List.length_pos_iff.mpr hne),
      Buffer.data_assign, isHeaderComplete_of_isHeader hh hne (List.prefix_refl _), if_pos]
    rw [List.length_append]
    omega
  simp only [initStage, hcomplete] at hrec
  exact ⟨_, hrec, b.data_assign _, hidx, b.len_assign_le _, rfl, rfl, rfl⟩

/-- What the opened remote has written and still holds, on both paths. -/
theorem openRemote_stream (env : ServerEnv σ κ) (evp : σ) (chunk : κ) (mem headerMem iv : Bytes)
    (hiv : iv.length = env.cipher.ivLen) (hseen : env.ivSeen iv = false) (h payload data : Bytes)
    (hh : IsHeader env.parse.auth h)
    (hdata : checkedPayload env chunk (h.headD 0) payload = some data) (connect : ConnectReply)
    (c : Conn σ κ)
    (hopen : openRemote env connect (newServer evp chunk mem headerMem)
      (iv ++ (env.cipher.encrypt (env.cipher.setIv iv) (h ++ payload)).2) = some c) :
    ∃ r, c.remote = some r ∧ r.connected = false ∧ r.Inside ∧
      r.stream = if needsQuery env.parse (h ++ payload) then data
        else data.take (fastOpenTaken env connect data.length) ++
          data.take (data.length - fastOpenTaken env connect data.length) := by
  rcases receive_first env evp chunk mem headerMem iv hiv hseen h payload hh
    with ⟨c₁, hrec, hd, hidx, hin, hauth, hchunk, hstage⟩
  rw [← hchunk] at hdata
  simp only [openRemote, serverRecvCb, hrec] at hopen
  cases hreq : requestStage env c₁ with
  | none =>
    rw [hreq] at hopen
    cases hopen
  | some tc =>
    rcases tc with ⟨target, c₂⟩
    rcases requestStage_spec env c₁ c₂ h payload data target hh hauth hin hd hdata hreq
      with ⟨h1, h2, h3, h4, h5⟩
    have hlen := c₂.buf.length_data h3
    rw [h1] at hlen
    rw [hreq] at hopen
    cases target with
    | addr f a p =>
      simp only at hopen
      cases hlit : literalStage env connect c₂ with
      | none =>
        rw [hlit] at hopen
        cases hopen
      | some c₃ =>
        rcases literalStage_stream env connect c₂ c₃ (h2.trans hidx) h3 hlit
          with ⟨r, g1, g2, g3, g4, g5⟩
        have hst : c₃.stage = .parse := g4.trans (h4.trans hstage)
        simp only [hlit, hst, reduceCtorEq, if_false] at hopen
        rw [← Option.some.inj hopen, h5]
        rw [h1, ← hlen] at g5
        exact ⟨r, g1, g2, g3, g5⟩
    | name host port =>
      simp only [queryStage, if_true] at hopen
      rcases serverResolveCb_stream env connect (queryStage c₂) c (h2.trans hidx) h3 hopen
        with ⟨r, g1, g2, g3, g4⟩
      rw [h5]
      exact ⟨r, g1, g2, g3, g4.trans h1⟩

/-- **Early payload.** Once the remote is open, the bytes written to it are exactly the payload
behind the header if and only if the host name had to be resolved, or the payload without its last
bytes, as many as fast open took, equals the payload without its first ones. -/
theorem early_payload_iff (env : ServerEnv σ κ) (evp : σ) (chunk : κ) (mem headerMem iv : Bytes)
    (hiv : iv.length = env.cipher.ivLen) (hseen : env.ivSeen iv = false) (h payload data : Bytes)
    (hh : IsHeader env.parse.auth h)
    (hdata : checkedPayload env chunk (h.headD 0) payload = some data) (connect : ConnectReply)
    (c : Conn σ κ)
    (hopen : openRemote env connect (newServer evp chunk mem headerMem)
      (iv ++ (env.cipher.encrypt (env.cipher.setIv iv) (h ++ payload)).2) = some c) :
    DeliversExactly c data ↔
      needsQuery env.parse (h ++ payload) = true ∨
        data.take (data.length - fastOpenTaken env connect data.length) =
          data.drop (fastOpenTaken env connect data.length) := by
  rcases openRemote_stream env evp chunk mem headerMem iv hiv hseen h payload data hh hdata connect
    c hopen with ⟨r, hr, hnew, hin, hstream⟩
  rw [deliversExactly_iff c data r hr hnew hin, hstream]
  cases hq : needsQuery env.parse (h ++ payload) with
  | true => simp
  | false =>
    simp only [Bool.false_eq_true, if_false, false_or]
    have hcut := List.take_append_drop (fastOpenTaken env connect data.length) data
    constructor
    · intro hs
      exact List.append_cancel_left (hs.trans hcut.symm)
    · intro hs
      rw [hs, hcut]

/-- Fast open takes two of the five payload bytes `1 2 3 4 5` for a literal address; the third and
later writes then send `1 2 3`. -/
theorem early_payload_repeated :
    ∃ c c' r, openRemote (plainEnv true) ⟨false, .sent 2, false, []⟩ (newServer () () [] [])
        ([0, 0, 0, 0, 0, 0, 0, 0] ++
          ((xorCipher 0x5A).encrypt () ([1, 127, 0, 0, 1, 0, 80] ++ [1, 2, 3, 4, 5])).2) = some c ∧
      sendAll c [(true, .sent 3)] = some c' ∧ c'.remote = some r ∧ r.buf.len = 0 ∧
        r.sent = [1, 2, 1, 2, 3] := by
  refine ⟨_, _, _, rfl, rfl, rfl, ?_, ?_⟩
  · decide
  · decide

/-- `early_payload_iff` on a request for a name, for which fast open takes two of five bytes. -/
theorem early_payload_resolved :
    ∃ c, openRemote (plainEnv true) ⟨false, .sent 2, false, []⟩ (newServer () () [] [])
        ([0, 0, 0, 0, 0, 0, 0, 0] ++
          ((xorCipher 0x5A).encrypt () ([3, 1, 97, 0, 80] ++ [1, 2, 3, 4, 5])).2) = some c ∧
      DeliversExactly c [1, 2, 3, 4, 5] := by
  have hh : IsHeader false [3, 1, 97, 0, 80] :=
    .mk 3 [1, 97] [0, 80] [] (.name 1 _ rfl (by decide) rfl) rfl rfl
  refine ⟨_, rfl, ?_⟩
  apply (early_payload_iff (plainEnv true) () () [] [] [0, 0, 0, 0, 0, 0, 0, 0] rfl rfl
    [3, 1, 97, 0, 80] [1, 2, 3, 4, 5] [1, 2, 3, 4, 5] hh rfl ⟨false, .sent 2, false, []⟩ _ rfl).mpr
  left
  decide

end OpenWrtCompile.Server
