import Mathlib.Data.List.Perm.Subperm
import OpenWrtCompile.Udp.Relay

/-!
# Where datagrams for domains go

All domain datagrams of one source share the context under `(AF_UNSPEC, source)`. `server_recv_cb`
sends a datagram with that context's own header to its `dst_addr`, which `query_resolve_cb` may have
overwritten with the address of another domain (`udprelay.c:611, 1233–1240`).
-/

namespace OpenWrtCompile.Udp
open OpenWrtCompile.Base

/-- A datagram that names a domain went to an address the resolver gave for that domain, and to the
port of its header. -/
def RightDst (lib : AddrLib) (resolved : List Resolved) (x : Sent) : Prop :=
  ∀ d, destination lib x.addrHeader = some d →
    x.dst.port = d.2 ∧ Resolved.mk d.1 x.dst.family x.dst.addr ∈ resolved

/-- `dst_addr` is an address the resolver gave for the host and with the port it was written for. -/
def WrittenFor (resolved : List Resolved) (c : RemoteCtx) : Prop :=
  c.dstAddr.port = c.dstOf.2 ∧ Resolved.mk c.dstOf.1 c.dstAddr.family c.dstAddr.addr ∈ resolved

/-- What holds of a relay whatever is resolved, as long as every send goes right. -/
structure DestInv (env : RelayEnv) (s : Relay) : Prop where
  sent : ∀ x ∈ s.sent, RightDst env.lib s.resolved x
  remotes : ∀ id c, s.remote id = some c → c.af = .unspec → WrittenFor s.resolved c
  queries : ∀ (i : Nat) q, s.queries[i]?.join = some q →
    destination env.lib q.addrHeader = some (q.host, q.port)
  inUse : ∀ e ∈ s.connCache, e.2 < s.remotes.length
  family : ∀ e ∈ s.connCache, ∀ c, s.remote e.2 = some c → c.af = e.1.1

/-- A domain datagram with the header of the context it finds meets a `dst_addr` that was written
for the same host and port. -/
def OwnAddress (env : RelayEnv) (s : Relay) (e : Event) : Prop :=
  ∀ k src buf h id c, e = .datagram k src buf → parseUdprelayHeader env.lib buf = some h →
    h.storage.family = .unspec → Lru.lookup s.connCache (.unspec, src) = some id →
      s.remote id = some c → c.addrHeader = buf.take h.len → c.dstOf = (h.host, h.port)

/-- More answers leave what was right right. -/
theorem RightDst.mono {lib : AddrLib} {r r' : List Resolved} {x : Sent} (h : RightDst lib r x)
    (hr : r ⊆ r') : RightDst lib r' x :=
  fun d hd ↦ ⟨(h d hd).1, hr (h d hd).2⟩

/-- A header that names no domain asks for nothing. -/
theorem rightDst_of_literal {lib : AddrLib} {r : List Resolved} {x : Sent}
    (h : destination lib x.addrHeader = none) : RightDst lib r x := by
  intro d hd
  rw [h] at hd
  cases hd

namespace DestInv

variable {env : RelayEnv} {s : Relay}

/-- Nothing has happened yet. -/
theorem start : DestInv env .start where
  sent x hx := by cases hx
  remotes id c h := by cases h
  queries i q h := by cases h
  inUse e he := by cases he
  family e he := by cases he

/-- Reordering the cache changes nothing. -/
theorem withCache (hi : DestInv env s) {cache : List ((AddrFamily × SockAddr) × Nat)}
    (hp : cache.Perm s.connCache) : DestInv env (s.withCache cache) where
  sent := hi.sent
  remotes := hi.remotes
  queries := hi.queries
  inUse e he := hi.inUse e (hp.mem_iff.mp he)
  family e he := hi.family e (hp.mem_iff.mp he)

/-- A right send. -/
theorem sendTo (hi : DestInv env s) (k : Kernel) {x : Sent} (hx : RightDst env.lib s.resolved x) :
    DestInv env (s.sendTo k x) where
  sent y hy := by
    rw [Relay.resolved_sendTo]
    rcases Relay.mem_sendTo hy with h | h
    · exact hi.sent y h
    · rw [h]
      exact hx
  remotes := by simpa only [Relay.remote_sendTo, Relay.resolved_sendTo] using hi.remotes
  queries := by simpa only [Relay.queries_sendTo] using hi.queries
  inUse := by simpa only [Relay.connCache_sendTo, Relay.remotes_sendTo] using hi.inUse
  family := by simpa only [Relay.connCache_sendTo, Relay.remote_sendTo] using hi.family

/-- A query made for the host and port of its own header. -/
theorem addQuery (hi : DestInv env s) {q : QueryCtx}
    (hq : destination env.lib q.addrHeader = some (q.host, q.port)) :
    DestInv env (s.addQuery q) where
  sent := hi.sent
  remotes := hi.remotes
  queries i p hp := by
    simp only [Relay.addQuery, List.getElem?_append] at hp
    split at hp
    · exact hi.queries i p hp
    · cases hn : i - s.queries.length with
      | zero =>
        rw [hn] at hp
        rw [← Option.some.inj hp]
        exact hq
      | succ n =>
        rw [hn] at hp
        cases hp
  inUse := hi.inUse
  family := hi.family

/-- A new context whose `dst_addr` is right. -/
theorem addRemote (hi : DestInv env s) {c : RemoteCtx}
    (hc : c.af = .unspec → WrittenFor s.resolved c) : DestInv env (s.addRemote c) where
  sent := hi.sent
  remotes id d hd haf := by
    rcases Relay.remote_addRemote hd with ⟨-, h⟩ | ⟨-, h⟩
    · rw [h] at haf ⊢
      exact hc haf
    · exact hi.remotes id d h haf
  queries := hi.queries
  inUse e he := by
    have hlen : s.remotes.length < (s.addRemote c).remotes.length := by
      unfold Relay.addRemote
      simp only
      split <;> simp
    rcases Lru.mem_of_mem_insert he with h | h
    · exact Nat.lt_trans (hi.inUse e h) hlen
    · rw [h]
      exact hlen
  family e he d hd := by
    rcases Relay.remote_addRemote hd with ⟨hid, h⟩ | ⟨hlt, h⟩
    · rcases Lru.mem_of_mem_insert he with hold | hnew
      · have := hi.inUse e hold
        omega
      · rw [h, hnew]
    · rcases Lru.mem_of_mem_insert he with hold | hnew
      · exact hi.family e hold d h
      · rw [hnew] at hlt
        exact absurd hlt (Nat.lt_irrefl _)

/-- A new context and the datagram it was made for. -/
theorem openRemote (hi : DestInv env s) (k : Kernel) {c : RemoteCtx} {data : Bytes}
    (hc : c.af = .unspec → WrittenFor s.resolved c)
    (hx : RightDst env.lib s.resolved ⟨s.remotes.length, c.addrHeader, c.dstAddr, data⟩) :
    DestInv env (s.openRemote k c data) := by
  unfold Relay.openRemote
  split
  · apply (hi.sendTo k hx).addRemote
    rw [Relay.resolved_sendTo]
    exact hc
  · exact hi

/-- A query that is answered, and its answer. -/
theorem resolve (hi : DestInv env s) (i : Nat) (r : Resolved) : DestInv env (s.resolve i r) where
  sent x hx := (hi.sent x hx).mono (List.subset_append_left _ _)
  remotes id c h haf :=
    ⟨(hi.remotes id c h haf).1, List.subset_append_left _ _ (hi.remotes id c h haf).2⟩
  queries j q h := by
    simp only [Relay.resolve, List.getElem?_set] at h
    split at h
    · split at h <;> cases h
    · exact hi.queries j q h
  inUse := hi.inUse
  family := hi.family

/-- An answer that is logged and goes to a context. -/
theorem resolveHit (hi : DestInv env s) (k : Kernel) {q : QueryCtx} {dst : SockAddr} {id : Nat}
    {c : RemoteCtx} (hq : destination env.lib q.addrHeader = some (q.host, q.port))
    (hport : dst.port = q.port) (hr : Resolved.mk q.host dst.family dst.addr ∈ s.resolved)
    (hc : s.remote id = some c) : DestInv env (Udp.resolveHit s k q dst id c) := by
  apply sendTo (s := { s with
    remotes := s.remotes.set id (some { c with dstAddr := dst, dstOf := (q.host, q.port) }) })
  · refine ⟨hi.sent, ?_, hi.queries, ?_, ?_⟩
    · intro j d hd haf
      rcases Relay.remote_set hd with ⟨-, h⟩ | ⟨-, h⟩
      · rw [← Option.some.inj h]
        exact ⟨hport, hr⟩
      · exact hi.remotes j d h haf
    · simpa only [List.length_set] using hi.inUse
    · intro e he d hd
      rcases Relay.remote_set hd with ⟨hj, h⟩ | ⟨-, h⟩
      · rw [← Option.some.inj h]
        exact hi.family e he c (by rw [hj]; exact hc)
      · exact hi.family e he d h
  · intro d hd
    rw [hq] at hd
    rw [← Option.some.inj hd]
    exact ⟨hport, hr⟩

/-- A context that is freed. -/
theorem expire (hi : DestInv env s) (key : AddrFamily × SockAddr) (old : Nat) : DestInv env
    { s with connCache := Lru.remove s.connCache key, remotes := s.remotes.set old none } := by
  have hrem (id : Nat) (c : RemoteCtx)
      (h : Relay.remote { s with
        connCache := Lru.remove s.connCache key, remotes := s.remotes.set old none } id = some c) :
      s.remote id = some c := by
    rcases Relay.remote_set (s := s) h with ⟨-, h⟩ | ⟨-, h⟩
    · cases h
    · exact h
  refine ⟨hi.sent, fun id c h ↦ hi.remotes id c (hrem id c h), hi.queries, ?_, ?_⟩
  · intro e he
    rw [List.length_set]
    exact hi.inUse e (Lru.mem_of_mem_remove he)
  · intro e he c h
    exact hi.family e (Lru.mem_of_mem_remove he) c (hrem e.2 c h)

end DestInv

/-- A step whose datagram meets an address of its own destination keeps every send right. -/
theorem destInv_step (env : RelayEnv) (s : Relay) (e : Event) (t : Relay) (hi : DestInv env s)
    (hgood : OwnAddress env s e) (h : relayStep env s e = some t) : DestInv env t := by
  cases relayStep_effect env s t e h with
  | same => exact hi
  | noAnswer k i =>
    refine ⟨hi.sent, hi.remotes, ?_, hi.inUse, hi.family⟩
    intro j q hq
    simp only [List.getElem?_set] at hq
    split at hq
    · split at hq <;> cases hq
    · exact hi.queries j q hq
  | dropped k src buf cache perm => exact hi.withCache perm
  | queried k src buf cache perm hd parsed name remoteCtx alive =>
    apply (hi.withCache perm).addQuery
    rw [destination_take env.lib buf hd parsed, if_pos name]
  | opened k src buf cache perm hd parsed literal miss =>
    apply (hi.withCache perm).openRemote k
    · intro haf
      exact absurd haf literal
    · apply rightDst_of_literal
      rw [destination_take env.lib buf hd parsed, if_neg literal]
  | sentLiteral k src buf cache perm hd parsed literal id c hit alive =>
    apply (hi.withCache perm).sendTo k
    apply rightDst_of_literal
    rw [destination_take env.lib buf hd parsed, if_neg literal]
  | sentKnown k src buf cache perm hd parsed id c hit alive same =>
    apply (hi.withCache perm).sendTo k
    by_cases hname : hd.storage.family = .unspec
    · -- the context is a domain context, and its address was written for this destination
      have haf := hi.family _ (Lru.mem_of_lookup hit) c alive
      have hown := hgood k src buf hd id c rfl parsed hname (by rw [← hname]; exact hit) alive same
      have hw := hi.remotes id c alive (haf.trans hname)
      intro d hdest
      rw [destination_take env.lib buf hd parsed, if_pos hname] at hdest
      rw [← Option.some.inj hdest]
      unfold WrittenFor at hw
      rw [hown] at hw
      exact hw
    · apply rightDst_of_literal
      rw [destination_take env.lib buf hd parsed, if_neg hname]
  | answered k i family addr cache perm q query id c hit alive =>
    apply ((hi.resolve i _).withCache perm).resolveHit k (hi.queries i q query) rfl _ alive
    exact List.mem_append_right _ (List.mem_singleton.mpr rfl)
  | answeredNew k i family addr cache perm q query miss =>
    have hmem : Resolved.mk q.host family addr ∈ (s.resolve i ⟨q.host, family, addr⟩).resolved :=
      List.mem_append_right _ (List.mem_singleton.mpr rfl)
    apply ((hi.resolve i _).withCache perm).openRemote k
    · intro _
      exact ⟨rfl, hmem⟩
    · intro d hdest
      rw [hi.queries i q query] at hdest
      rw [← Option.some.inj hdest]
      exact ⟨rfl, hmem⟩
  | replied id peer data c alive => exact ⟨hi.sent, hi.remotes, hi.queries, hi.inUse, hi.family⟩
  | expired id key old => exact hi.expire key old

/-- A client datagram of one source, or an answer. -/
def FromSource (src : SockAddr) : Event → Prop
  | .datagram _ a _ => a = src
  | .answer _ _ _ => True
  | .reply _ _ _ _ => False
  | .timeout _ => False

/-- With one source, no context is ever freed: the cache has one key for each family at most. -/
structure OneSource (src : SockAddr) (s : Relay) : Prop where
  keys : ∀ e ∈ s.connCache, e.1.2 = src
  nodup : (s.connCache.map Prod.fst).Nodup
  alive : ∀ e ∈ s.connCache, ∃ c, s.remote e.2 = some c ∧ c.srcAddr = src
  queries : ∀ (i : Nat) q, s.queries[i]?.join = some q →
    q.srcAddr = src ∧ ∀ id, q.remoteCtx = some id → ∃ c, s.remote id = some c

namespace OneSource

variable {src : SockAddr} {s : Relay}

/-- Nothing has happened yet. -/
theorem start : OneSource src .start where
  keys e he := by cases he
  nodup := List.nodup_nil
  alive e he := by cases he
  queries i q h := by cases h

/-- Three entries at most. -/
theorem length_le (hi : OneSource src s) : s.connCache.length ≤ 3 := by
  have hsub : s.connCache.map Prod.fst ⊆
      [(AddrFamily.unspec, src), (AddrFamily.inet, src), (AddrFamily.inet6, src)] := by
    intro k hk
    rcases List.mem_map.mp hk with ⟨e, he, hek⟩
    have hsrc := hi.keys e he
    rw [hek] at hsrc
    rcases k with ⟨f, a⟩
    simp only at hsrc
    rw [hsrc]
    cases f <;> simp
  have hlen := (hi.nodup.subperm hsub).length_le
  simpa using hlen

/-- Reordering the cache changes nothing. -/
theorem withCache (hi : OneSource src s) {cache : List ((AddrFamily × SockAddr) × Nat)}
    (hp : cache.Perm s.connCache) : OneSource src (s.withCache cache) where
  keys e he := hi.keys e (hp.mem_iff.mp he)
  nodup := (hp.map Prod.fst).nodup_iff.mpr hi.nodup
  alive e he := hi.alive e (hp.mem_iff.mp he)
  queries := hi.queries

/-- Sending changes nothing. -/
theorem sendTo (hi : OneSource src s) (k : Kernel) (x : Sent) : OneSource src (s.sendTo k x) where
  keys := by simpa only [Relay.connCache_sendTo] using hi.keys
  nodup := by simpa only [Relay.connCache_sendTo] using hi.nodup
  alive := by simpa only [Relay.connCache_sendTo, Relay.remote_sendTo] using hi.alive
  queries := by simpa only [Relay.queries_sendTo, Relay.remote_sendTo] using hi.queries

/-- A query of the source, for a context that is in use. -/
theorem addQuery (hi : OneSource src s) {q : QueryCtx} (hq : q.srcAddr = src)
    (ha : ∀ id, q.remoteCtx = some id → ∃ c, s.remote id = some c) :
    OneSource src (s.addQuery q) where
  keys := hi.keys
  nodup := hi.nodup
  alive := hi.alive
  queries i p hp := by
    simp only [Relay.addQuery, List.getElem?_append] at hp
    split at hp
    · exact hi.queries i p hp
    · cases hn : i - s.queries.length with
      | zero =>
        rw [hn] at hp
        rw [← Option.some.inj hp]
        exact ⟨hq, ha⟩
      | succ n =>
        rw [hn] at hp
        cases hp

/-- A new context of the source under a new key; no other one has to go. -/
theorem addRemote (hi : OneSource src s) {c : RemoteCtx} (hc : c.srcAddr = src)
    (hnew : (c.af, c.srcAddr) ∉ s.connCache.map Prod.fst) : OneSource src (s.addRemote c) := by
  have hroom : s.connCache.length + 1 < maxUdpConnNum := by
    have := hi.length_le
    unfold maxUdpConnNum
    omega
  have hadd : s.addRemote c = { s with
      connCache := s.connCache ++ [((c.af, c.srcAddr), s.remotes.length)]
      remotes := s.remotes ++ [some c] } := by
    unfold Relay.addRemote
    rw [Lru.insert_of_lt _ _ hroom]
  have hold (id : Nat) (d : RemoteCtx) (h : s.remote id = some d) :
      (s.addRemote c).remote id = some d := by
    rw [hadd]
    unfold Relay.remote at h ⊢
    rw [List.getElem?_append_left (Relay.lt_of_remote h)]
    exact h
  have hlast : (s.addRemote c).remote s.remotes.length = some c := by
    rw [hadd]
    unfold Relay.remote
    rw [List.getElem?_concat_length]
    rfl
  have hmem (e) (he : e ∈ (s.addRemote c).connCache) :
      e ∈ s.connCache ∨ e = ((c.af, c.srcAddr), s.remotes.length) := by
    rw [hadd] at he
    simpa using he
  refine ⟨?_, ?_, ?_, ?_⟩
  · intro e he
    rcases hmem e he with h | h
    · exact hi.keys e h
    · rw [h]
      exact hc
  · rw [hadd]
    simp only [List.map_append, List.map_singleton]
    exact List.Nodup.append hi.nodup (List.nodup_singleton _) (by simpa using hnew)
  · intro e he
    rcases hmem e he with h | h
    · rcases hi.alive e h with ⟨d, hd, hs⟩
      exact ⟨d, hold _ d hd, hs⟩
    · rw [h]
      exact ⟨c, hlast, hc⟩
  · intro i q hq
    have hq' : s.queries[i]?.join = some q := by
      rw [hadd] at hq
      exact hq
    refine ⟨(hi.queries i q hq').1, ?_⟩
    intro id hid
    rcases (hi.queries i q hq').2 id hid with ⟨d, hd⟩
    exact ⟨d, hold id d hd⟩

/-- A new context of the source, if it is kept. -/
theorem openRemote (hi : OneSource src s) (k : Kernel) {c : RemoteCtx} (data : Bytes)
    (hc : c.srcAddr = src) (hnew : (c.af, c.srcAddr) ∉ s.connCache.map Prod.fst) :
    OneSource src (s.openRemote k c data) := by
  unfold Relay.openRemote
  split
  · apply (hi.sendTo k _).addRemote hc
    rw [Relay.connCache_sendTo]
    exact hnew
  · exact hi

/-- A query that is answered. -/
theorem resolve (hi : OneSource src s) (i : Nat) (r : Resolved) : OneSource src (s.resolve i r) where
  keys := hi.keys
  nodup := hi.nodup
  alive := hi.alive
  queries j q h := by
    simp only [Relay.resolve, List.getElem?_set] at h
    split at h
    · split at h <;> cases h
    · exact hi.queries j q h

/-- An answer that goes to a context of the source. -/
theorem resolveHit (hi : OneSource src s) (k : Kernel) (q : QueryCtx) (dst : SockAddr) {id : Nat}
    {c : RemoteCtx} (hc : s.remote id = some c) :
    OneSource src (Udp.resolveHit s k q dst id c) := by
  have hkeep (j : Nat) (d : RemoteCtx) (hd : s.remote j = some d) :
      ∃ d', Relay.remote { s with
          remotes := s.remotes.set id (some { c with dstAddr := dst, dstOf := (q.host, q.port) }) } j =
        some d' ∧ d'.srcAddr = d.srcAddr := by
    have hlt := Relay.lt_of_remote hc
    unfold Relay.remote at hd ⊢
    simp only [List.getElem?_set]
    by_cases hj : id = j
    · rw [if_pos hj, if_pos hlt]
      unfold Relay.remote at hc
      rw [← hj, hc] at hd
      rw [← Option.some.inj hd]
      exact ⟨_, rfl, rfl⟩
    · rw [if_neg hj]
      exact ⟨d, hd, rfl⟩
  unfold Udp.resolveHit
  apply sendTo (s := { s with
    remotes := s.remotes.set id (some { c with dstAddr := dst, dstOf := (q.host, q.port) }) })
  refine ⟨hi.keys, hi.nodup, ?_, ?_⟩
  · intro e he
    rcases hi.alive e he with ⟨d, hd, hs⟩
    rcases hkeep e.2 d hd with ⟨d', hd', hs'⟩
    exact ⟨d', hd', hs'.trans hs⟩
  · intro i p hp
    refine ⟨(hi.queries i p hp).1, ?_⟩
    intro j hj
    rcases (hi.queries i p hp).2 j hj with ⟨d, hd⟩
    rcases hkeep j d hd with ⟨d', hd', -⟩
    exact ⟨d', hd'⟩

end OneSource

/-- With one source, a datagram never meets a freed context. -/
theorem serverRecvCb_defined (env : RelayEnv) {src : SockAddr} {s : Relay} (hi : OneSource src s)
    (k : Kernel) (a : SockAddr) (buf : Bytes) : ∃ t, serverRecvCb env s k a buf = some t := by
  unfold serverRecvCb
  cases parseUdprelayHeader env.lib buf with
  | none => exact ⟨s, rfl⟩
  | some h =>
    simp only
    cases hl : Lru.lookup s.connCache (h.storage.family, a) with
    | none =>
      simp only
      split <;> exact ⟨_, rfl⟩
    | some id =>
      rcases hi.alive _ (Lru.mem_of_lookup hl) with ⟨c, hc, -⟩
      simp only at hc
      simp only [hc]
      split
      · exact ⟨_, rfl⟩
      · split <;> exact ⟨_, rfl⟩

/-- With one source, an answer never meets a freed context. -/
theorem queryResolveCb_defined {src : SockAddr} {s : Relay} (hi : OneSource src s) (k : Kernel)
    (i : Nat) (answer : Option (AddrFamily × Bytes)) :
    ∃ t, queryResolveCb s k i answer = some t := by
  unfold queryResolveCb
  cases hq : s.queries[i]?.join with
  | none => exact ⟨s, rfl⟩
  | some q =>
    cases answer with
    | none => exact ⟨_, rfl⟩
    | some fa =>
      simp only
      cases hr : q.remoteCtx with
      | some id =>
        rcases (hi.queries i q hq).2 id hr with ⟨c, hc⟩
        unfold Relay.remote at hc
        simp only [Relay.remote, hc, Option.map_some]
        exact ⟨_, rfl⟩
      | none =>
        simp only
        cases hl : Lru.lookup s.connCache (.unspec, q.srcAddr) with
        | none => exact ⟨_, rfl⟩
        | some id =>
          rcases hi.alive _ (Lru.mem_of_lookup hl) with ⟨c, hc, -⟩
          unfold Relay.remote at hc
          simp only at hc
          simp only [Relay.remote, hc, Option.map_some]
          exact ⟨_, rfl⟩

/-- With one source, a datagram or an answer leads to a next state, in which that still holds. -/
theorem oneSource_step (env : RelayEnv) (src : SockAddr) (s : Relay) (e : Event)
    (hi : OneSource src s) (he : FromSource src e) :
    ∃ t, relayStep env s e = some t ∧ OneSource src t := by
  have hdefined : ∃ t, relayStep env s e = some t := by
    cases e with
    | datagram k a buf => exact serverRecvCb_defined env hi k a buf
    | answer k i a => exact queryResolveCb_defined hi k i a
    | reply id peer data passes => cases he
    | timeout id => cases he
  rcases hdefined with ⟨t, ht⟩
  refine ⟨t, ht, ?_⟩
  cases relayStep_effect env s t e ht with
  | same => exact hi
  | noAnswer k i =>
    refine ⟨hi.keys, hi.nodup, hi.alive, ?_⟩
    intro j q hq
    simp only [List.getElem?_set] at hq
    split at hq
    · split at hq <;> cases hq
    · exact hi.queries j q hq
  | dropped k a buf cache perm => exact hi.withCache perm
  | queried k a buf cache perm hd parsed name remoteCtx alive =>
    exact (hi.withCache perm).addQuery he alive
  | opened k a buf cache perm hd parsed literal miss =>
    apply (hi.withCache perm).openRemote k
    · exact he
    · rcases miss with hnone | ⟨id, c, hl, hc, hsrc⟩
      · have hnot := Lru.not_mem_of_lookup hnone
        exact fun hmem ↦ hnot (((perm.map Prod.fst).mem_iff).mp hmem)
      · rcases hi.alive _ (Lru.mem_of_lookup hl) with ⟨d, hd', hs⟩
        simp only at hd'
        rw [hc] at hd'
        rw [← Option.some.inj hd'] at hs
        exact absurd (hs.trans he.symm) hsrc
  | sentLiteral k a buf cache perm hd parsed literal id c hit alive =>
    exact (hi.withCache perm).sendTo k _
  | sentKnown k a buf cache perm hd parsed id c hit alive same =>
    exact (hi.withCache perm).sendTo k _
  | answered k i family addr cache perm q query id c hit alive =>
    exact ((hi.resolve i _).withCache perm).resolveHit k q _ alive
  | answeredNew k i family addr cache perm q query miss =>
    apply ((hi.resolve i _).withCache perm).openRemote k _ (hi.queries i q query).1
    have hnot := Lru.not_mem_of_lookup miss
    exact fun hmem ↦ hnot (((perm.map Prod.fst).mem_iff).mp hmem)
  | replied id peer data c alive => cases he
  | expired id key old => cases he

/-- **Destinations.** In a run in which every domain datagram that finds its own header in the cache
meets an address written for its own host and port, every datagram that names a domain goes to an
address resolved for that domain and to its own port. With the datagrams of one source and answers
only, every run is defined. -/
theorem datagrams_reach_own_destination (env : RelayEnv) (es : List Event)
    (ha : Along (relayStep env) (OwnAddress env) .start es) :
    (∀ t, run (relayStep env) .start es = some t →
        ∀ x ∈ t.sent, RightDst env.lib t.resolved x) ∧
      ∀ src, (∀ e ∈ es, FromSource src e) → ∃ t, run (relayStep env) .start es = some t := by
  constructor
  · intro t ht
    exact (run_invariant_along (relayStep env) (OwnAddress env) (DestInv env)
      (destInv_step env) DestInv.start ha ht).sent
  · intro src hsrc
    clear ha
    have hstart : OneSource src Relay.start := OneSource.start
    generalize Relay.start = s at hstart ⊢
    induction es generalizing s with
    | nil => exact ⟨s, rfl⟩
    | cons e es ih =>
      rcases oneSource_step env src s e hstart (hsrc e List.mem_cons_self) with ⟨t, ht, hi⟩
      rw [run_cons_of_some _ es ht]
      exact ih (fun f hf ↦ hsrc f (List.mem_cons_of_mem _ hf)) t hi

/-- Datagrams for `a:80` and `b:80` are answered in turn; the next one for `a:80` goes to the address
of `b`. -/
theorem datagram_reaches_other_domain :
    ∃ t, run (relayStep plainRelay) .start
        [.datagram allOk exampleClient [3, 1, 97, 0, 80, 1], .answer allOk 0 (some (.inet, [1, 1, 1, 1])),
          .datagram allOk exampleClient [3, 1, 98, 0, 80, 2],
          .answer allOk 1 (some (.inet, [2, 2, 2, 2])),
          .datagram allOk exampleClient [3, 1, 97, 0, 80, 3]] = some t ∧
      Sent.mk 0 [3, 1, 97, 0, 80] ⟨.inet, [2, 2, 2, 2], [0, 80]⟩ [3] ∈ t.sent ∧
        ¬ ∀ x ∈ t.sent, RightDst plainRelay.lib t.resolved x := by
  refine ⟨_, rfl, by decide, ?_⟩
  intro h
  have hx := h ⟨0, [3, 1, 97, 0, 80], ⟨.inet, [2, 2, 2, 2], [0, 80]⟩, [3]⟩ (by decide)
  have hr := (hx ([97], [0, 80]) rfl).2
  revert hr
  decide

/-- `datagrams_reach_own_destination` on two datagrams for one domain. -/
theorem datagrams_of_one_domain :
    ∃ t, run (relayStep plainRelay) .start
        [.datagram allOk exampleClient [3, 1, 97, 0, 80, 1], .answer allOk 0 (some (.inet, [1, 1, 1, 1])),
          .datagram allOk exampleClient [3, 1, 97, 0, 80, 2]] = some t ∧
      ∀ x ∈ t.sent, RightDst plainRelay.lib t.resolved x := by
  refine ⟨_, rfl, ?_⟩
  apply (datagrams_reach_own_destination plainRelay
    [.datagram allOk exampleClient [3, 1, 97, 0, 80, 1], .answer allOk 0 (some (.inet, [1, 1, 1, 1])),
      .datagram allOk exampleClient [3, 1, 97, 0, 80, 2]] _).1 _ rfl
  refine ⟨?_, fun t ht ↦ ⟨?_, fun u hu ↦ ⟨?_, fun _ _ ↦ trivial⟩⟩⟩
  · intro k src buf h id c he hp hf hl hc hsame
    cases he
    cases hl
  · intro k src buf h id c he
    cases he
  · intro k src buf h id c he hp hf hl hc hsame
    cases he
    rw [← Option.some.inj ht] at hu
    rw [← Option.some.inj hu] at hl hc
    rw [← Option.some.inj hl] at hc
    rw [← Option.some.inj hp, ← Option.some.inj hc]
    rfl

end OpenWrtCompile.Udp
