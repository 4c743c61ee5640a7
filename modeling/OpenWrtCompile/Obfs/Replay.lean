import OpenWrtCompile.Base.Run
import OpenWrtCompile.Obfs.Tls12Ticket

/-!
# Replayed ClientHellos

`shadowsocksr-libev/src/server/server.c:1628–1693` (`accept_cb`) and 679–720 (the call of
`server_decode`), for a listener with the `tls1.2_ticket_auth` plugin. `accept_cb` calls `init_data`
for each connection, so each connection has a list of used ids of its own.
-/

namespace OpenWrtCompile.Obfs
open OpenWrtCompile.Base

/-- What a listener is configured with: the HMAC, the key and `obfs_param`, and `obfs_compatible`. -/
structure Listener where
  hmac : Bytes → Bytes → Bytes
  info : ServerInfo
  compatible : Bool

/-- `server->obfs`: `l_data` and `g_data`. -/
structure ObfsConn where
  localData : LocalData
  global : GlobalData
  deriving DecidableEq, Repr

/-- All connections ever accepted, `none` where one is closed, and the log of the accepted ids. -/
structure ServerState where
  conns : List (Option ObfsConn)
  accepted : List Bytes
  deriving DecidableEq, Repr

/-- A server that has just started. -/
def ServerState.start : ServerState := ⟨[], []⟩

/-- What happens to the server. -/
inductive Event where
  /-- `accept_cb`, with the random client id drawn by `init_data`. -/
  | accept (clientId : Bytes) (now : Int)
  /-- `server_recv_cb` gives `server_decode` the first `n` bytes of `mem` on connection `i`. -/
  | decode (i : Nat) (mem : Bytes) (n : Nat) (now : Int)
  /-- Connection `i` is closed for another reason. -/
  | close (i : Nat)
  deriving DecidableEq, Repr

/-- `accept_cb`. -/
def acceptCb (clientId : Bytes) (now : Int) : ObfsConn := ⟨localDataInit, initData clientId now⟩

/-- What `server_recv_cb` does with the result of `server_decode`: answer a ClientHello, close the
connection on an error unless the compatible mode is on, or go on. -/
def afterDecode (cfg : Listener) (s : ServerState) (i : Nat) (mem : Bytes) (d : Decoded) :
    ServerState :=
  if d.needsendback then
    -- `server_encode` sends the ServerHello flight and moves `handshake_status` to 3
    ⟨s.conns.set i (some ⟨{ d.localData with handshakeStatus := .serverHello }, d.global⟩),
      s.accepted ++ [verifyId mem]⟩
  else if d.output = none && !cfg.compatible then ⟨s.conns.set i none, s.accepted⟩
  else ⟨s.conns.set i (some ⟨d.localData, d.global⟩), s.accepted⟩

/-- One event; there is no next state once memory has been overrun or without the connection. -/
def serverStep (cfg : Listener) (s : ServerState) : Event → Option ServerState
  | .accept clientId now => some ⟨s.conns ++ [some (acceptCb clientId now)], s.accepted⟩
  | .decode i mem n now =>
    match s.conns[i]? with
    | some (some c) =>
      (serverDecode cfg.hmac cfg.info now c.localData c.global mem n).map (afterDecode cfg s i mem)
    | _ => none
  | .close i => some ⟨s.conns.set i none, s.accepted⟩

/-- A connection whose next message is taken for a ClientHello. -/
def ObfsConn.Awaiting (c : ObfsConn) : Prop :=
  c.localData.handshakeStatus ≠ .serverHello ∧ c.localData.handshakeStatus ≠ .done

/-- `server_decode` accepts the ClientHello. -/
def Accepts (cfg : Listener) (c : ObfsConn) (mem : Bytes) (n : Nat) (now : Int) : Prop :=
  ∃ d, serverDecode cfg.hmac cfg.info now c.localData c.global mem n = some d ∧
    d.needsendback = true

/-- `server_decode` returns -1. -/
def Rejects (cfg : Listener) (c : ObfsConn) (mem : Bytes) (n : Nat) (now : Int) : Prop :=
  ∃ d, serverDecode cfg.hmac cfg.info now c.localData c.global mem n = some d ∧ d.output = none

/-- A ClientHello with an acceptable time and a correct HMAC on connection `c`. -/
def ObfsConn.Valid (c : ObfsConn) (cfg : Listener) (mem : Bytes) (n : Nat) (now : Int) : Prop :=
  validHello cfg.hmac cfg.info c.global.startupTime now mem n = true

/-- What the list of used ids is for: a used id takes the error path, a new one of a valid
ClientHello is accepted. -/
def NoReplay (cfg : Listener) (s : ServerState) (e : Event) : Prop :=
  ∀ i mem n now (c : ObfsConn), e = .decode i mem n now → s.conns[i]? = some (some c) →
    c.Awaiting →
      (verifyId mem ∈ s.accepted → Rejects cfg c mem n now) ∧
        (verifyId mem ∉ s.accepted → c.Valid cfg mem n now → Accepts cfg c mem n now)

/-- A used id comes in no valid ClientHello, and memory is overrun neither by a valid ClientHello nor
by one with a used id. -/
def NothingReplayed (cfg : Listener) (s : ServerState) (e : Event) : Prop :=
  ∀ i mem n now (c : ObfsConn), e = .decode i mem n now → s.conns[i]? = some (some c) →
    c.Awaiting →
      (verifyId mem ∈ s.accepted → ¬ c.Valid cfg mem n now ∧ helloOverruns mem n = false) ∧
        (verifyId mem ∉ s.accepted → c.Valid cfg mem n now → helloOverruns mem n = false)

/-- Where a ClientHello is awaited no id has been stored: the list goes with the connection. -/
def ListsEmpty (s : ServerState) : Prop :=
  ∀ (i : Nat) (c : ObfsConn), s.conns[i]? = some (some c) → c.Awaiting → c.global.clientData = []

/-- An awaiting connection decodes its next message as a ClientHello. -/
theorem serverDecode_awaiting (cfg : Listener) (c : ObfsConn) (mem : Bytes) (n : Nat) (now : Int)
    (hc : c.Awaiting) : serverDecode cfg.hmac cfg.info now c.localData c.global mem n =
      decodeHello cfg.hmac cfg.info now c.localData c.global mem n := by
  rcases hc with ⟨h3, h8⟩
  unfold serverDecode
  cases hs : c.localData.handshakeStatus with
  | serverHello => exact absurd hs h3
  | done => exact absurd hs h8
  | start => rfl
  | clientHelloSent => rfl
  | clientHello => rfl

/-- No id is ever found, so a valid ClientHello is accepted and any other message rejected, unless
memory is overrun. -/
theorem accepts_rejects_iff (cfg : Listener) (c : ObfsConn) (mem : Bytes) (n : Nat) (now : Int)
    (hc : c.Awaiting) (hl : c.global.clientData = []) :
    (Accepts cfg c mem n now ↔ c.Valid cfg mem n now ∧ helloOverruns mem n = false) ∧
      (Rejects cfg c mem n now ↔ ¬ c.Valid cfg mem n now ∧ helloOverruns mem n = false) := by
  have hcases := decodeHello_cases cfg.hmac cfg.info now c.localData c.global mem n
  rw [hl, listHaveSameCmp_nil] at hcases
  unfold Accepts Rejects ObfsConn.Valid
  rw [serverDecode_awaiting cfg c mem n now hc]
  rcases hcases with ⟨ho, hd⟩ | ⟨ho, ⟨hv, -⟩, d, hd, hsend, hout⟩ | ⟨ho, hv, d, hd, hsend, hout, -⟩
  · simp [ho, hd]
  · simp [ho, hd, hv, hsend, hout]
  · have hnot : validHello cfg.hmac cfg.info c.global.startupTime now mem n = false := by
      simpa using hv
    simp [ho, hd, hnot, hsend, hout]

/-- A connection that has been replaced or closed is still awaiting only if nothing was stored. -/
theorem listsEmpty_set (s : ServerState) (log : List Bytes) (i : Nat) (oc : Option ObfsConn)
    (hs : ListsEmpty s) (h : ∀ c, oc = some c → c.Awaiting → c.global.clientData = []) :
    ListsEmpty ⟨s.conns.set i oc, log⟩ := by
  intro j c hj hc
  simp only [List.getElem?_set] at hj
  split at hj
  · split at hj
    · exact h c (Option.some.inj hj) hc
    · cases hj
  · exact hs j c hj hc

/-- A connection past its ClientHello never awaits one again. -/
theorem decode_not_awaiting (cfg : Listener) (c : ObfsConn) (mem : Bytes) (n : Nat) (now : Int)
    (d : Decoded) (hc : ¬ c.Awaiting)
    (hd : serverDecode cfg.hmac cfg.info now c.localData c.global mem n = some d) :
    ¬ ObfsConn.Awaiting ⟨d.localData, d.global⟩ := by
  rintro ⟨h3, h8⟩
  unfold serverDecode at hd
  cases hst : c.localData.handshakeStatus with
  | done =>
    rw [hst] at hd
    rw [← Option.some.inj hd] at h8
    exact h8 hst
  | serverHello =>
    rw [hst] at hd
    rw [← Option.some.inj hd] at h3 h8
    rcases (decodeFinished_keeps cfg.hmac cfg.info c.localData c.global mem n hst).2 with h | h
    · exact h3 h
    · exact h8 h
  | start => exact hc ⟨by rw [hst]; decide, by rw [hst]; decide⟩
  | clientHelloSent => exact hc ⟨by rw [hst]; decide, by rw [hst]; decide⟩
  | clientHello => exact hc ⟨by rw [hst]; decide, by rw [hst]; decide⟩

/-- Decoding on one connection keeps the lists of awaiting connections empty. -/
theorem listsEmpty_decode (cfg : Listener) (s : ServerState) (i : Nat) (mem : Bytes) (n : Nat)
    (now : Int) (c : ObfsConn) (d : Decoded) (hs : ListsEmpty s)
    (hi : s.conns[i]? = some (some c))
    (hd : serverDecode cfg.hmac cfg.info now c.localData c.global mem n = some d) :
    ListsEmpty (afterDecode cfg s i mem d) := by
  unfold afterDecode
  split
  · apply listsEmpty_set s _ i _ hs
    intro c' hc' haw
    rw [← Option.some.inj hc'] at haw
    exact absurd rfl haw.1
  · next hsend =>
    have hnot : d.needsendback = false := Bool.eq_false_iff.mpr hsend
    split
    · exact listsEmpty_set s _ i _ hs (fun c' hc' _ ↦ by cases hc')
    · apply listsEmpty_set s _ i _ hs
      intro c' hc' haw
      rw [← Option.some.inj hc'] at haw ⊢
      by_cases hold : c.Awaiting
      · rw [serverDecode_awaiting cfg c mem n now hold] at hd
        have hcases := decodeHello_cases cfg.hmac cfg.info now c.localData c.global mem n
        rw [hd] at hcases
        rcases hcases with ⟨-, hno⟩ | ⟨-, -, d', hd', hsend', -⟩ | ⟨-, -, d', hd', -, -, hkeep⟩
        · cases hno
        · rw [← Option.some.inj hd', hnot] at hsend'
          cases hsend'
        · rw [Option.some.inj hd', hkeep]
          exact hs i c hi hold
      · exact absurd haw (decode_not_awaiting cfg c mem n now d hold hd)

/-- Every event keeps the lists of awaiting connections empty. -/
theorem listsEmpty_step (cfg : Listener) (s : ServerState) (e : Event) (t : ServerState)
    (hs : ListsEmpty s) (h : serverStep cfg s e = some t) : ListsEmpty t := by
  cases e with
  | accept clientId now =>
    rw [← Option.some.inj h]
    intro j c hj hc
    rw [List.getElem?_append] at hj
    split at hj
    · exact hs j c hj hc
    · have hmem := List.mem_of_getElem? hj
      rw [List.mem_singleton] at hmem
      rw [Option.some.inj hmem]
      rfl
  | decode i mem n now =>
    simp only [serverStep] at h
    split at h
    · next c hi =>
      rcases Option.map_eq_some_iff.mp h with ⟨d, hd, ht⟩
      rw [← ht]
      exact listsEmpty_decode cfg s i mem n now c d hs hi hd
    · cases h
  | close i =>
    rw [← Option.some.inj h]
    exact listsEmpty_set s _ i _ hs (fun c hc _ ↦ by cases hc)

/-- A ClientHello of 76 bytes: the session id `0..31`, the time 100 and 18 more bytes. -/
def exampleHello : Bytes :=
  [0x16, 0x03, 0x01, 0x00, 0x47, 0x01, 0x00, 0x00, 0x43, 0x03, 0x03] ++
    [0, 0, 0, 100, 1, 2, 3, 4, 5, 6, 7, 8, 9, 10, 11, 12, 13, 14, 15, 16, 17, 18] ++
    [120, 141, 157, 158, 122, 147, 111, 112, 227, 47] ++
    [32, 0, 1, 2, 3, 4, 5, 6, 7, 8, 9, 10, 11, 12, 13, 14, 15, 16, 17, 18, 19, 20, 21, 22, 23, 24, 25,
      26, 27, 28, 29, 30, 31]

/-- A listener with a sixteen-byte key of `k`s, and the HMAC-SHA1 of `exampleHello` for all input. -/
def exampleListener : Listener where
  hmac _ _ := [120, 141, 157, 158, 122, 147, 111, 112, 227, 47, 191, 132, 68, 59, 223, 120, 98, 4, 13, 90]
  info := ⟨List.replicate 16 0x6B, none⟩
  compatible := false

/-- Two connections are opened and both send the same ClientHello. -/
def exampleReplay : List Event :=
  [.accept (List.replicate 32 0) 90, .accept (List.replicate 32 0) 91,
    .decode 0 exampleHello 76 100, .decode 1 exampleHello 76 101]

end OpenWrtCompile.Obfs
