import OpenWrtCompile.Base.Lru
import OpenWrtCompile.Base.Run
import OpenWrtCompile.Udp.Header

/-!
# The UDP relay of the server

`shadowsocksr-libev/src/server/udprelay.c` with `MODULE_REMOTE`: `server_recv_cb` (847–1330),
`query_resolve_cb` (563–648), `remote_recv_cb` (652–845), `remote_timeout_cb` (549–561), and the
connection cache of `cache.c`. Contexts and queries are numbered in order of creation; a freed one
is `none`. Three logs, which no callback reads, say what was sent where, what the resolver answered
and what was forwarded to the client.
-/

namespace OpenWrtCompile.Udp
open OpenWrtCompile.Base

/-- `remote_ctx_t`. `dstOf` is not in the source: the host and port for which `dst_addr` was last
written. -/
structure RemoteCtx where
  af : AddrFamily
  srcAddr : SockAddr
  addrHeader : Bytes
  dstAddr : SockAddr
  dstOf : Bytes × Bytes
  deriving DecidableEq, Repr

/-- `query_ctx_t`, with the host and the port given to `resolv_query`. -/
structure QueryCtx where
  srcAddr : SockAddr
  addrHeader : Bytes
  buf : Bytes
  remoteCtx : Option Nat
  host : Bytes
  port : Bytes
  deriving DecidableEq, Repr

/-- A datagram sent to a remote peer: through which context, with which header it came, and where
it went. -/
structure Sent where
  remote : Nat
  addrHeader : Bytes
  dst : SockAddr
  data : Bytes
  deriving DecidableEq, Repr

/-- An answer of the resolver. -/
structure Resolved where
  host : Bytes
  family : AddrFamily
  addr : Bytes
  deriving DecidableEq, Repr

/-- A datagram forwarded to a client: through which context, from which peer, under which header. -/
structure Forwarded where
  remote : Nat
  client : SockAddr
  peer : SockAddr
  label : Bytes
  data : Bytes
  deriving DecidableEq, Repr

/-- The relay: the contexts, the cache by family and source address, the queries and the logs. -/
structure Relay where
  remotes : List (Option RemoteCtx)
  connCache : List ((AddrFamily × SockAddr) × Nat)
  queries : List (Option QueryCtx)
  sent : List Sent
  resolved : List Resolved
  forwarded : List Forwarded
  deriving DecidableEq, Repr

/-- A relay that has just started. -/
def Relay.start : Relay := ⟨[], [], [], [], [], []⟩

/-- The literal parsers and `packet_size`. -/
structure RelayEnv where
  lib : AddrLib
  packetSize : Nat

/-- `MAX_UDP_CONN_NUM`. -/
def maxUdpConnNum : Nat := 512

/-- What the kernel answers when a socket is created and when a datagram is sent. -/
structure Kernel where
  socketOk : Bool
  sendOk : Bool
  deriving DecidableEq, Repr

/-- `*p` for a context that has not been freed. -/
def Relay.remote (s : Relay) (id : Nat) : Option RemoteCtx := s.remotes[id]?.join

/-- `sendto(remote_ctx->fd, …)`. -/
def Relay.sendTo (s : Relay) (k : Kernel) (x : Sent) : Relay :=
  if k.sendOk then { s with sent := s.sent ++ [x] } else s

/-- `new_remote` and `cache_insert`, which may free the oldest context. -/
def Relay.addRemote (s : Relay) (c : RemoteCtx) : Relay :=
  let r := Lru.insert maxUdpConnNum s.connCache (c.af, c.srcAddr) s.remotes.length
  let remotes := s.remotes ++ [some c]
  { s with
    connCache := r.1
    remotes := match r.2 with
      | some e => remotes.set e.2 none
      | none => remotes }

/-- A new context, the datagram `data` sent to its `dst_addr`, and its place in the cache; nothing is
kept where the socket cannot be made or the datagram cannot be sent. -/
def Relay.openRemote (s : Relay) (k : Kernel) (c : RemoteCtx) (data : Bytes) :
    Relay :=
  if k.socketOk && k.sendOk then
    (s.sendTo k ⟨s.remotes.length, c.addrHeader, c.dstAddr, data⟩).addRemote c
  else s

/-- A new query. -/
def Relay.addQuery (s : Relay) (q : QueryCtx) : Relay := { s with queries := s.queries ++ [some q] }

/-- The rest of `server_recv_cb` for a context found in the cache. -/
def recvHit (s : Relay) (k : Kernel) (src : SockAddr) (h : Header) (addrHeader data : Bytes)
    (id : Nat) (c : RemoteCtx) : Relay :=
  if c.addrHeader ≠ addrHeader then
    if h.storage.family = .unspec then
      s.addQuery ⟨src, addrHeader, data, some id, h.host, h.port⟩
    else s.sendTo k ⟨id, addrHeader, h.storage, data⟩
  else s.sendTo k ⟨id, addrHeader, c.dstAddr, data⟩

/-- The rest of `server_recv_cb` without a context. -/
def recvMiss (s : Relay) (k : Kernel) (src : SockAddr) (h : Header)
    (addrHeader data : Bytes) : Relay :=
  if h.storage.family = .unspec then s.addQuery ⟨src, addrHeader, data, none, h.host, h.port⟩
  else s.openRemote k ⟨h.storage.family, src, addrHeader, h.storage, (h.host, h.port)⟩ data

/-- `server_recv_cb`: `buf` is the decrypted datagram. There is no next state once the cache gives a
freed context. -/
def serverRecvCb (env : RelayEnv) (s : Relay) (k : Kernel) (src : SockAddr) (buf : Bytes) :
    Option Relay :=
  match parseUdprelayHeader env.lib buf with
  | none => some s
  | some h =>
    let key := (h.storage.family, src)
    let t := { s with connCache := Lru.touch s.connCache key }
    let data := buf.drop h.len
    match Lru.lookup s.connCache key with
    | none =>
      if env.packetSize < data.length then some t
      else some (recvMiss t k src h (buf.take h.len) data)
    | some id =>
      match s.remote id with
      | none => none
      | some c =>
        if env.packetSize < data.length then some t
        else if c.srcAddr ≠ src then some (recvMiss t k src h (buf.take h.len) data)
        else some (recvHit t k src h (buf.take h.len) data id c)

/-- The branch of `query_resolve_cb` with a context: `dst_addr` is overwritten, `addr_header` is not. -/
def resolveHit (s : Relay) (k : Kernel) (q : QueryCtx) (dst : SockAddr) (id : Nat)
    (c : RemoteCtx) : Relay :=
  let c := { c with dstAddr := dst, dstOf := (q.host, q.port) }
  Relay.sendTo { s with remotes := s.remotes.set id (some c) } k ⟨id, q.addrHeader, dst, q.buf⟩

/-- `query_resolve_cb` for query `i`; `answer` is the chosen address. There is no next state once the
query or the cache gives a freed context. -/
def queryResolveCb (s : Relay) (k : Kernel) (i : Nat) (answer : Option (AddrFamily × Bytes)) :
    Option Relay :=
  match s.queries[i]?.join with
  | none => some s
  | some q =>
    let s := { s with queries := s.queries.set i none }
    match answer with
    | none => some s
    | some (family, addr) =>
      let dst : SockAddr := ⟨family, addr, q.port⟩
      let s := { s with resolved := s.resolved ++ [Resolved.mk q.host family addr] }
      let key := (AddrFamily.unspec, q.srcAddr)
      match q.remoteCtx with
      | some id => (s.remote id).map (resolveHit s k q dst id)
      | none =>
        let t := { s with connCache := Lru.touch s.connCache key }
        match Lru.lookup s.connCache key with
        | some id => (s.remote id).map (resolveHit t k q dst id)
        | none =>
          some (t.openRemote k ⟨.unspec, q.srcAddr, q.addrHeader, dst, (q.host, q.port)⟩ q.buf)

/-- The header that `remote_recv_cb` puts before a reply. -/
def replyLabel (c : RemoteCtx) (peer : SockAddr) : Bytes :=
  if c.af = .inet ∨ c.af = .inet6 then constructUdprelayHeader peer else c.addrHeader

/-- `remote_recv_cb` for a datagram from `peer`; `passes` is whether size, encryption and `sendto`
let it through. -/
def remoteRecvCb (s : Relay) (id : Nat) (peer : SockAddr) (data : Bytes) (passes : Bool) : Relay :=
  match s.remote id with
  | none => s
  | some c =>
    if passes then
      { s with forwarded := s.forwarded ++ [⟨id, c.srcAddr, peer, replyLabel c peer, data⟩] }
    else s

/-- `remote_timeout_cb`: the context stored under the key is freed. -/
def remoteTimeoutCb (s : Relay) (id : Nat) : Relay :=
  match s.remote id with
  | none => s
  | some c =>
    match Lru.lookup s.connCache (c.af, c.srcAddr) with
    | none => s
    | some old =>
      { s with
        connCache := Lru.remove s.connCache (c.af, c.srcAddr)
        remotes := s.remotes.set old none }

/-- What happens to the relay. -/
inductive Event where
  | datagram (k : Kernel) (src : SockAddr) (buf : Bytes)
  | answer (k : Kernel) (i : Nat) (answer : Option (AddrFamily × Bytes))
  | reply (id : Nat) (peer : SockAddr) (data : Bytes) (passes : Bool)
  | timeout (id : Nat)
  deriving DecidableEq, Repr

/-- One event; `none` once a freed context is used. -/
def relayStep (env : RelayEnv) (s : Relay) : Event → Option Relay
  | .datagram k src buf => serverRecvCb env s k src buf
  | .answer k i a => queryResolveCb s k i a
  | .reply id peer data passes => some (remoteRecvCb s id peer data passes)
  | .timeout id => some (remoteTimeoutCb s id)

/-- A relay to run examples with: no name is a literal. -/
def plainRelay : RelayEnv where
  lib := ⟨fun _ ↦ none, fun _ _ ↦ [], fun _ _ ↦ []⟩
  packetSize := 1397

/-- The kernel lets everything through. -/
def allOk : Kernel := ⟨true, true⟩

/-- A client to run examples with. -/
def exampleClient : SockAddr := ⟨.inet, [10, 0, 0, 2], [0x13, 0x88]⟩

/-- A context in use has a number below the next one. -/
theorem Relay.lt_of_remote {s : Relay} {id : Nat} {c : RemoteCtx} (h : s.remote id = some c) :
    id < s.remotes.length := by
  unfold Relay.remote at h
  cases hi : s.remotes[id]? with
  | none =>
    rw [hi] at h
    cases h
  | some oc => exact (List.getElem?_eq_some_iff.mp hi).1

/-- Sending changes the log only. -/
@[simp] theorem Relay.remotes_sendTo (s : Relay) (k : Kernel) (x : Sent) :
    (s.sendTo k x).remotes = s.remotes := by
  unfold Relay.sendTo
  split <;> rfl

@[simp] theorem Relay.remote_sendTo (s : Relay) (k : Kernel) (x : Sent) (id : Nat) :
    (s.sendTo k x).remote id = s.remote id := by
  unfold Relay.remote
  rw [Relay.remotes_sendTo]

@[simp] theorem Relay.connCache_sendTo (s : Relay) (k : Kernel) (x : Sent) :
    (s.sendTo k x).connCache = s.connCache := by
  unfold Relay.sendTo
  split <;> rfl

@[simp] theorem Relay.queries_sendTo (s : Relay) (k : Kernel) (x : Sent) :
    (s.sendTo k x).queries = s.queries := by
  unfold Relay.sendTo
  split <;> rfl

@[simp] theorem Relay.resolved_sendTo (s : Relay) (k : Kernel) (x : Sent) :
    (s.sendTo k x).resolved = s.resolved := by
  unfold Relay.sendTo
  split <;> rfl

@[simp] theorem Relay.forwarded_sendTo (s : Relay) (k : Kernel) (x : Sent) :
    (s.sendTo k x).forwarded = s.forwarded := by
  unfold Relay.sendTo
  split <;> rfl

/-- Only the datagram sent is new in the log. -/
theorem Relay.mem_sendTo {s : Relay} {k : Kernel} {x y : Sent} (h : y ∈ (s.sendTo k x).sent) :
    y ∈ s.sent ∨ y = x := by
  unfold Relay.sendTo at h
  split at h
  · simpa using h
  · exact .inl h

/-- What was in the log stays. -/
theorem Relay.sent_subset_sendTo (s : Relay) (k : Kernel) (x : Sent) :
    s.sent ⊆ (s.sendTo k x).sent := by
  unfold Relay.sendTo
  split
  · exact List.subset_append_left _ _
  · exact List.Subset.refl _

/-- Overwriting a context changes that context only. -/
theorem Relay.remote_set {s : Relay} {id j : Nat} {oc : Option RemoteCtx} {c : RemoteCtx}
    (h : Relay.remote { s with remotes := s.remotes.set id oc } j = some c) :
    (j = id ∧ oc = some c) ∨ (j ≠ id ∧ s.remote j = some c) := by
  unfold Relay.remote at h
  simp only [List.getElem?_set] at h
  split at h
  · next hj =>
    split at h
    · exact .inl ⟨hj.symm, h⟩
    · cases h
  · next hj => exact .inr ⟨fun hji ↦ hj hji.symm, h⟩

/-- A new context takes the next number, and no other one changes but for being freed. -/
theorem Relay.remote_addRemote {s : Relay} {c d : RemoteCtx} {j : Nat}
    (h : (s.addRemote c).remote j = some d) :
    (j = s.remotes.length ∧ d = c) ∨ (j < s.remotes.length ∧ s.remote j = some d) := by
  have hnew : Relay.remote { s with remotes := s.remotes ++ [some c] } j = some d →
      (j = s.remotes.length ∧ d = c) ∨ (j < s.remotes.length ∧ s.remote j = some d) := by
    intro h
    have hlt := Relay.lt_of_remote h
    simp only [List.length_append, List.length_singleton] at hlt
    unfold Relay.remote at h
    simp only at h
    by_cases hj : j < s.remotes.length
    · rw [List.getElem?_append_left hj] at h
      exact .inr ⟨hj, h⟩
    · have hj' : j = s.remotes.length := by omega
      rw [hj', List.getElem?_concat_length] at h
      exact .inl ⟨hj', (Option.some.inj h).symm⟩
  unfold Relay.addRemote at h
  simp only at h
  cases he : (Lru.insert maxUdpConnNum s.connCache (c.af, c.srcAddr) s.remotes.length).2 with
  | none =>
    rw [he] at h
    exact hnew h
  | some e =>
    rw [he] at h
    rcases Relay.remote_set (s := { s with remotes := s.remotes ++ [some c] }) h with
      ⟨-, hno⟩ | ⟨-, hold⟩
    · cases hno
    · exact hnew hold

/-- The context to which the answer of a query is applied. -/
def answerRemote (s : Relay) (q : QueryCtx) : Option Nat :=
  match q.remoteCtx with
  | some id => some id
  | none => Lru.lookup s.connCache (.unspec, q.srcAddr)

/-- A cache that a lookup may have reordered. -/
def Relay.withCache (s : Relay) (c : List ((AddrFamily × SockAddr) × Nat)) : Relay :=
  { s with connCache := c }

/-- A relay in which query `i` is gone and its answer is logged. -/
def Relay.resolve (s : Relay) (i : Nat) (r : Resolved) : Relay :=
  { s with queries := s.queries.set i none, resolved := s.resolved ++ [r] }

/-- Everything an event can do: what it starts from and what is changed. -/
inductive Effect (env : RelayEnv) (s : Relay) : Event → Relay → Prop where
  | same (e : Event) : Effect env s e s
  | noAnswer (k : Kernel) (i : Nat) :
    Effect env s (.answer k i none) { s with queries := s.queries.set i none }
  | dropped (k : Kernel) (src : SockAddr) (buf : Bytes) (cache) (perm : cache.Perm s.connCache) :
    Effect env s (.datagram k src buf) (s.withCache cache)
  | queried (k : Kernel) (src : SockAddr) (buf : Bytes) (cache) (perm : cache.Perm s.connCache)
    (h : Header) (parsed : parseUdprelayHeader env.lib buf = some h)
    (name : h.storage.family = .unspec) (remoteCtx : Option Nat)
    (alive : ∀ id, remoteCtx = some id → ∃ c, s.remote id = some c) :
    Effect env s (.datagram k src buf) ((s.withCache cache).addQuery
      ⟨src, buf.take h.len, buf.drop h.len, remoteCtx, h.host, h.port⟩)
  | opened (k : Kernel) (src : SockAddr) (buf : Bytes) (cache) (perm : cache.Perm s.connCache)
    (h : Header) (parsed : parseUdprelayHeader env.lib buf = some h)
    (literal : h.storage.family ≠ .unspec)
    (miss : Lru.lookup s.connCache (h.storage.family, src) = none ∨
      ∃ id c, Lru.lookup s.connCache (h.storage.family, src) = some id ∧ s.remote id = some c ∧
        c.srcAddr ≠ src) :
    Effect env s (.datagram k src buf) ((s.withCache cache).openRemote k
      ⟨h.storage.family, src, buf.take h.len, h.storage, (h.host, h.port)⟩ (buf.drop h.len))
  | sentLiteral (k : Kernel) (src : SockAddr) (buf : Bytes) (cache)
    (perm : cache.Perm s.connCache) (h : Header)
    (parsed : parseUdprelayHeader env.lib buf = some h) (literal : h.storage.family ≠ .unspec)
    (id : Nat) (c : RemoteCtx) (hit : Lru.lookup s.connCache (h.storage.family, src) = some id)
    (alive : s.remote id = some c) :
    Effect env s (.datagram k src buf) ((s.withCache cache).sendTo k
      ⟨id, buf.take h.len, h.storage, buf.drop h.len⟩)
  | sentKnown (k : Kernel) (src : SockAddr) (buf : Bytes) (cache)
    (perm : cache.Perm s.connCache) (h : Header)
    (parsed : parseUdprelayHeader env.lib buf = some h)
    (id : Nat) (c : RemoteCtx) (hit : Lru.lookup s.connCache (h.storage.family, src) = some id)
    (alive : s.remote id = some c) (same : c.addrHeader = buf.take h.len) :
    Effect env s (.datagram k src buf) ((s.withCache cache).sendTo k
      ⟨id, buf.take h.len, c.dstAddr, buf.drop h.len⟩)
  | answered (k : Kernel) (i : Nat) (family : AddrFamily) (addr : Bytes) (cache)
    (perm : cache.Perm s.connCache) (q : QueryCtx) (query : s.queries[i]?.join = some q)
    (id : Nat) (c : RemoteCtx) (hit : answerRemote s q = some id) (alive : s.remote id = some c) :
    Effect env s (.answer k i (some (family, addr)))
      (resolveHit ((s.resolve i ⟨q.host, family, addr⟩).withCache cache) k q
        ⟨family, addr, q.port⟩ id c)
  | answeredNew (k : Kernel) (i : Nat) (family : AddrFamily) (addr : Bytes) (cache)
    (perm : cache.Perm s.connCache) (q : QueryCtx) (query : s.queries[i]?.join = some q)
    (miss : Lru.lookup s.connCache (.unspec, q.srcAddr) = none) :
    Effect env s (.answer k i (some (family, addr)))
      (((s.resolve i ⟨q.host, family, addr⟩).withCache cache).openRemote k
        ⟨.unspec, q.srcAddr, q.addrHeader, ⟨family, addr, q.port⟩, (q.host, q.port)⟩ q.buf)
  | replied (id : Nat) (peer : SockAddr) (data : Bytes) (c : RemoteCtx)
    (alive : s.remote id = some c) :
    Effect env s (.reply id peer data true)
      { s with forwarded := s.forwarded ++ [⟨id, c.srcAddr, peer, replyLabel c peer, data⟩] }
  | expired (id : Nat) (key : AddrFamily × SockAddr) (old : Nat) :
    Effect env s (.timeout id)
      { s with connCache := Lru.remove s.connCache key, remotes := s.remotes.set old none }

/-- A datagram that reaches a next state had one of the effects. -/
theorem serverRecvCb_effect (env : RelayEnv) (s t : Relay) (k : Kernel) (src : SockAddr)
    (buf : Bytes) (h : serverRecvCb env s k src buf = some t) :
    Effect env s (.datagram k src buf) t := by
  unfold serverRecvCb at h
  cases hp : parseUdprelayHeader env.lib buf with
  | none =>
    rw [hp] at h
    rw [← Option.some.inj h]
    exact .same _
  | some hd =>
    rw [hp] at h
    simp only at h
    have hperm := Lru.touch_perm s.connCache (hd.storage.family, src)
    cases hl : Lru.lookup s.connCache (hd.storage.family, src) with
    | none =>
      rw [hl] at h
      simp only at h
      split at h
      · rw [← Option.some.inj h]
        exact .dropped k src buf _ hperm
      · rw [← Option.some.inj h]
        unfold recvMiss
        split
        · next hname => exact .queried k src buf _ hperm hd hp hname none (fun id hid ↦ by cases hid)
        · next hname => exact .opened k src buf _ hperm hd hp hname (.inl hl)
    | some id =>
      rw [hl] at h
      simp only at h
      cases hc : s.remote id with
      | none =>
        rw [hc] at h
        cases h
      | some c =>
        rw [hc] at h
        simp only at h
        split at h
        · rw [← Option.some.inj h]
          exact .dropped k src buf _ hperm
        · split at h
          · next hsrc =>
            rw [← Option.some.inj h]
            unfold recvMiss
            split
            · next hname =>
              exact .queried k src buf _ hperm hd hp hname none (fun id hid ↦ by cases hid)
            · next hname =>
              exact .opened k src buf _ hperm hd hp hname (.inr ⟨id, c, hl, hc, hsrc⟩)
          · rw [← Option.some.inj h]
            unfold recvHit
            split
            · split
              · next hname =>
                exact .queried k src buf _ hperm hd hp hname (some id)
                  (fun j hj ↦ ⟨c, by rw [← Option.some.inj hj]; exact hc⟩)
              · next hname => exact .sentLiteral k src buf _ hperm hd hp hname id c hl hc
            · next hsame =>
              exact .sentKnown k src buf _ hperm hd hp id c hl hc (not_not.mp hsame)

/-- An answer that reaches a next state had one of the effects. -/
theorem queryResolveCb_effect (env : RelayEnv) (s t : Relay) (k : Kernel) (i : Nat)
    (answer : Option (AddrFamily × Bytes)) (h : queryResolveCb s k i answer = some t) :
    Effect env s (.answer k i answer) t := by
  unfold queryResolveCb at h
  cases hq : s.queries[i]?.join with
  | none =>
    rw [hq] at h
    rw [← Option.some.inj h]
    exact .same _
  | some q =>
    rw [hq] at h
    cases answer with
    | none =>
      rw [← Option.some.inj h]
      exact .noAnswer k i
    | some a =>
      rcases a with ⟨family, addr⟩
      simp only at h
      cases hr : q.remoteCtx with
      | some id =>
        rw [hr] at h
        rcases Option.map_eq_some_iff.mp h with ⟨c, hc, ht⟩
        rw [← ht]
        exact .answered k i family addr s.connCache (List.Perm.refl _) q hq id c
          (by unfold answerRemote; rw [hr]) hc
      | none =>
        rw [hr] at h
        simp only at h
        have hperm := Lru.touch_perm s.connCache (.unspec, q.srcAddr)
        cases hl : Lru.lookup s.connCache (.unspec, q.srcAddr) with
        | none =>
          rw [hl] at h
          rw [← Option.some.inj h]
          exact .answeredNew k i family addr _ hperm q hq hl
        | some id =>
          rw [hl] at h
          rcases Option.map_eq_some_iff.mp h with ⟨c, hc, ht⟩
          rw [← ht]
          exact .answered k i family addr _ hperm q hq id c
            (by unfold answerRemote; rw [hr]; exact hl) hc

/-- Every step had one of the effects. -/
theorem relayStep_effect (env : RelayEnv) (s t : Relay) (e : Event)
    (h : relayStep env s e = some t) : Effect env s e t := by
  cases e with
  | datagram k src buf => exact serverRecvCb_effect env s t k src buf h
  | answer k i a => exact queryResolveCb_effect env s t k i a h
  | reply id peer data passes =>
    have ht := Option.some.inj h
    unfold remoteRecvCb at ht
    cases hc : s.remote id with
    | none =>
      rw [hc] at ht
      rw [← ht]
      exact .same _
    | some c =>
      rw [hc] at ht
      cases passes with
      | false =>
        rw [← ht]
        exact .same _
      | true =>
        rw [← ht]
        exact .replied id peer data c hc
  | timeout id =>
    have ht := Option.some.inj h
    unfold remoteTimeoutCb at ht
    split at ht
    · rw [← ht]
      exact .same _
    · split at ht
      · rw [← ht]
        exact .same _
      · rw [← ht]
        exact .expired id _ _

end OpenWrtCompile.Udp
