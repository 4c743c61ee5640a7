import OpenWrtCompile.Udp.Relay

/-!
# The connection cache of the UDP relay

`shadowsocksr-libev/src/server/udprelay.c:176–188, 549–648, 1076–1300` and `cache.c:269–308`. In
every state the relay reaches, the cache and the contexts in use correspond one to one: each entry
stands under the key that `hash_key` computes from the fields its context has now.
-/

namespace OpenWrtCompile.Udp
open OpenWrtCompile.Base

/-- `hash_key(ctx->af, &ctx->src_addr)`. -/
def RemoteCtx.key (c : RemoteCtx) : AddrFamily × SockAddr := (c.af, c.srcAddr)

/-- The context has not been freed. -/
def Relay.Live (s : Relay) (id : Nat) : Prop := ∃ c, s.remote id = some c

/-- The cache holds each context in use under its key, and nothing else. -/
structure Relay.CacheInv (s : Relay) : Prop where
  nodup : (s.connCache.map Prod.fst).Nodup
  keys : ∀ k id, (k, id) ∈ s.connCache → ∃ c, s.remote id = some c ∧ k = c.key
  cached : ∀ id c, s.remote id = some c → (c.key, id) ∈ s.connCache

/-- The contexts of both states are the same but for `dst_addr`, and the entries of the cache but for
their order. -/
structure Relay.SameContexts (s t : Relay) : Prop where
  cache : t.connCache.Perm s.connCache
  keys : ∀ id, (t.remote id).map RemoteCtx.key = (s.remote id).map RemoteCtx.key

namespace Relay

variable {s t : Relay}

/-! ## The same contexts -/

theorem SameContexts.refl (s : Relay) : s.SameContexts s := ⟨List.Perm.refl _, fun _ ↦ rfl⟩

theorem SameContexts.trans {u : Relay} (h : s.SameContexts t) (g : t.SameContexts u) :
    s.SameContexts u :=
  ⟨g.cache.trans h.cache, fun id ↦ (g.keys id).trans (h.keys id)⟩

/-- A context in use is in use in the other state, under the same key. -/
theorem SameContexts.remote (h : s.SameContexts t) {id : Nat} {c : RemoteCtx}
    (hc : t.remote id = some c) : ∃ d, s.remote id = some d ∧ d.key = c.key := by
  have hkey := h.keys id
  rw [hc, Option.map_some] at hkey
  exact Option.map_eq_some_iff.mp hkey.symm

theorem SameContexts.symm (h : s.SameContexts t) : t.SameContexts s :=
  ⟨h.cache.symm, fun id ↦ (h.keys id).symm⟩

/-- The same contexts are in use. -/
theorem SameContexts.live_iff (h : s.SameContexts t) (id : Nat) : t.Live id ↔ s.Live id := by
  constructor
  · rintro ⟨c, hc⟩
    obtain ⟨d, hd, -⟩ := h.remote hc
    exact ⟨d, hd⟩
  · rintro ⟨c, hc⟩
    obtain ⟨d, hd, -⟩ := h.symm.remote hc
    exact ⟨d, hd⟩

/-- A reordered cache. -/
theorem sameContexts_withCache (s : Relay) {cache : List ((AddrFamily × SockAddr) × Nat)}
    (h : cache.Perm s.connCache) : s.SameContexts (s.withCache cache) := ⟨h, fun _ ↦ rfl⟩

/-- A new query. -/
theorem sameContexts_addQuery (s : Relay) (q : QueryCtx) : s.SameContexts (s.addQuery q) :=
  ⟨List.Perm.refl _, fun _ ↦ rfl⟩

/-- A datagram sent. -/
theorem sameContexts_sendTo (s : Relay) (k : Kernel) (x : Sent) : s.SameContexts (s.sendTo k x) :=
  ⟨by rw [connCache_sendTo], fun id ↦ by rw [remote_sendTo]⟩

/-- A query answered. -/
theorem sameContexts_resolve (s : Relay) (i : Nat) (r : Resolved) :
    s.SameContexts (s.resolve i r) := ⟨List.Perm.refl _, fun _ ↦ rfl⟩

/-- A new `dst_addr`, and a datagram sent. -/
theorem sameContexts_resolveHit (s : Relay) (k : Kernel) (q : QueryCtx) (dst : SockAddr)
    {id : Nat} {c : RemoteCtx} (hc : s.remote id = some c) :
    s.SameContexts (resolveHit s k q dst id c) := by
  have hset : s.SameContexts { s with
      remotes := s.remotes.set id (some { c with dstAddr := dst, dstOf := (q.host, q.port) }) } := by
    refine ⟨List.Perm.refl _, fun j ↦ ?_⟩
    by_cases hj : j = id
    · have hlt := lt_of_remote hc
      rw [hj, hc]
      simp only [remote, List.getElem?_set_self hlt, Option.join_some, Option.map_some]
      rfl
    · simp only [remote, List.getElem?_set_ne (fun h ↦ hj h.symm)]
  exact hset.trans (sameContexts_sendTo _ k _)

/-! ## The invariant -/

/-- A relay that has just started has no contexts. -/
theorem cacheInv_start : Relay.start.CacheInv where
  nodup := List.nodup_nil
  keys k id h := by cases h
  cached id c h := by simp [Relay.start, remote] at h

/-- The invariant is about the contexts only. -/
theorem CacheInv.same (hi : s.CacheInv) (h : s.SameContexts t) : t.CacheInv where
  nodup := (h.cache.map Prod.fst).nodup_iff.mpr hi.nodup
  keys k id hk := by
    obtain ⟨c, hc, hkey⟩ := hi.keys k id (h.cache.mem_iff.mp hk)
    obtain ⟨d, hd, hdc⟩ := h.symm.remote hc
    exact ⟨d, hd, hkey.trans hdc.symm⟩
  cached id c hc := by
    obtain ⟨d, hd, hdc⟩ := h.remote hc
    rw [← hdc]
    exact h.cache.mem_iff.mpr (hi.cached id d hd)

/-- A context has one entry. -/
theorem CacheInv.key_unique (hi : s.CacheInv) {k k' : AddrFamily × SockAddr} {id : Nat}
    (h : (k, id) ∈ s.connCache) (h' : (k', id) ∈ s.connCache) : k = k' := by
  obtain ⟨c, hc, hk⟩ := hi.keys k id h
  obtain ⟨d, hd, hk'⟩ := hi.keys k' id h'
  rw [hc] at hd
  rw [hk, hk', Option.some.inj hd]

/-- An entry and its context go together. -/
theorem CacheInv.drop (hi : s.CacheInv) {k : AddrFamily × SockAddr} {id : Nat}
    {cache : List ((AddrFamily × SockAddr) × Nat)} (hmem : (k, id) ∈ s.connCache)
    (hn : (cache.map Prod.fst).Nodup)
    (hcache : ∀ e, e ∈ cache ↔ e ∈ s.connCache ∧ e.1 ≠ k) :
    CacheInv { s with connCache := cache, remotes := s.remotes.set id none } where
  nodup := hn
  keys k' j hj := by
    obtain ⟨hold, hne⟩ := (hcache (k', j)).mp hj
    obtain ⟨c, hc, hk'⟩ := hi.keys k' j hold
    refine ⟨c, ?_, hk'⟩
    -- another key, so another context
    have hji : id ≠ j := by
      intro hij
      rw [hij] at hmem
      exact hne (hi.key_unique hold hmem)
    unfold remote at hc ⊢
    simp only [List.getElem?_set_ne hji]
    exact hc
  cached j c hc := by
    rcases remote_set hc with ⟨-, hno⟩ | ⟨hji, hold⟩
    · cases hno
    · refine (hcache _).mpr ⟨hi.cached j c hold, fun hk ↦ hji ?_⟩
      -- the same key, so the same entry
      have h := hi.cached j c hold
      rw [show c.key = k from hk] at h
      have hl := Lru.lookup_of_mem hi.nodup h
      rw [Lru.lookup_of_mem hi.nodup hmem] at hl
      exact (Option.some.inj hl).symm

/-- A context that is not in the cache is added, before an entry has to go. -/
theorem CacheInv.append (hi : s.CacheInv) {c : RemoteCtx} (hnew : c.key ∉ s.connCache.map Prod.fst) :
    CacheInv { s with
      connCache := s.connCache ++ [(c.key, s.remotes.length)], remotes := s.remotes ++ [some c] } where
  nodup := by
    rw [List.map_append, List.map_singleton, List.nodup_append]
    refine ⟨hi.nodup, List.nodup_singleton _, ?_⟩
    intro a ha b hb hab
    rw [List.mem_singleton] at hb
    rw [hab, hb] at ha
    exact hnew ha
  keys k id hk := by
    rcases List.mem_append.mp hk with hold | hself
    · obtain ⟨d, hd, hkey⟩ := hi.keys k id hold
      refine ⟨d, ?_, hkey⟩
      have hlt := lt_of_remote hd
      unfold remote at hd ⊢
      simp only [List.getElem?_append_left hlt]
      exact hd
    · rw [List.mem_singleton, Prod.mk.injEq] at hself
      refine ⟨c, ?_, hself.1⟩
      rw [hself.2]
      simp [remote]
  cached id d hd := by
    rw [List.mem_append, List.mem_singleton]
    by_cases hlt : id < s.remotes.length
    · left
      apply hi.cached id d
      unfold remote at hd ⊢
      simpa only [List.getElem?_append_left hlt] using hd
    · right
      have hid := lt_of_remote hd
      simp only [List.length_append, List.length_singleton] at hid
      have hself : id = s.remotes.length := by omega
      rw [hself] at hd ⊢
      simp only [remote, List.getElem?_concat_length, Option.join_some, Option.some.injEq] at hd
      rw [hd]

/-- The context that `cache_insert` frees: the oldest one, where the cache is full with the new. -/
def evicted (s : Relay) : Option Nat :=
  if maxUdpConnNum ≤ s.connCache.length + 1 then (s.connCache.head?).map Prod.snd else none

/-- A new context where the cache has room. -/
theorem addRemote_of_room (c : RemoteCtx) (h : s.evicted = none) :
    s.addRemote c = { s with
      connCache := s.connCache ++ [(c.key, s.remotes.length)], remotes := s.remotes ++ [some c] } := by
  have hroom : s.connCache.length + 1 < maxUdpConnNum := by
    unfold evicted at h
    split at h
    · next hfull =>
      cases hc : s.connCache with
      | nil =>
        rw [hc, maxUdpConnNum, List.length_nil] at hfull
        omega
      | cons e cache =>
        rw [hc] at h
        cases h
    · omega
  unfold addRemote
  rw [Lru.insert_of_lt _ _ hroom]
  rfl

/-- A new context where the oldest one has to go. -/
theorem addRemote_of_full (c : RemoteCtx) {old : Nat} (h : s.evicted = some old) :
    ∃ k rest, s.connCache = (k, old) :: rest ∧
      s.addRemote c = { s with
        connCache := rest ++ [(c.key, s.remotes.length)]
        remotes := (s.remotes ++ [some c]).set old none } := by
  unfold evicted at h
  split at h
  · next hfull =>
    cases hc : s.connCache with
    | nil =>
      rw [hc] at h
      cases h
    | cons e rest =>
      rw [hc, List.head?_cons, Option.map_some, Option.some.injEq] at h
      refine ⟨e.1, rest, by rw [← h], ?_⟩
      have hins : Lru.insert maxUdpConnNum s.connCache (c.af, c.srcAddr) s.remotes.length =
          (rest ++ [(c.key, s.remotes.length)], some e) := by
        unfold Lru.insert
        simp only [List.length_append, List.length_singleton]
        rw [if_pos hfull, hc]
        rfl
      unfold Relay.addRemote
      rw [hins, ← h]
  · cases h

/-- A context that is not in the cache is added. -/
theorem CacheInv.addRemote (hi : s.CacheInv) {c : RemoteCtx}
    (hnew : c.key ∉ s.connCache.map Prod.fst) : (s.addRemote c).CacheInv := by
  have happ := hi.append hnew
  cases hev : s.evicted with
  | none =>
    rw [addRemote_of_room c hev]
    exact happ
  | some old =>
    obtain ⟨k, rest, hcache, hadd⟩ := addRemote_of_full c hev
    rw [hadd]
    have hn := happ.nodup
    rw [hcache] at happ hn
    rw [List.cons_append, List.map_cons, List.nodup_cons] at hn
    apply happ.drop (List.mem_cons_self ..) hn.2
    intro e
    rw [List.cons_append, List.mem_cons]
    constructor
    · intro he
      refine ⟨.inr he, fun hk ↦ hn.1 ?_⟩
      have h : e.1 ∈ (rest ++ [(c.key, s.remotes.length)]).map Prod.fst := List.mem_map_of_mem he
      rwa [hk] at h
    · rintro ⟨he | he, hk⟩
      · rw [he] at hk
        exact absurd rfl hk
      · exact he

/-- With the invariant, `remote_timeout_cb` drops the entry of its own context. -/
theorem CacheInv.timeout_eq (hi : s.CacheInv) {id : Nat} {c : RemoteCtx} (h : s.remote id = some c) :
    remoteTimeoutCb s id = { s with
      connCache := s.connCache.filter fun e ↦ e ≠ (c.key, id), remotes := s.remotes.set id none } := by
  have hmem := hi.cached id c h
  have hl : Lru.lookup s.connCache (c.af, c.srcAddr) = some id := Lru.lookup_of_mem hi.nodup hmem
  unfold remoteTimeoutCb
  rw [h]
  simp only [hl]
  rw [show (c.af, c.srcAddr) = c.key from rfl, Lru.remove_eq_filter hi.nodup hmem]

/-- A timeout keeps the invariant. -/
theorem CacheInv.timeout (hi : s.CacheInv) (id : Nat) : (remoteTimeoutCb s id).CacheInv := by
  cases h : s.remote id with
  | none =>
    unfold remoteTimeoutCb
    rw [h]
    exact hi
  | some c =>
    have hmem := hi.cached id c h
    rw [hi.timeout_eq h, ← Lru.remove_eq_filter hi.nodup hmem]
    exact hi.drop hmem (Lru.nodup_remove hi.nodup _) (fun e ↦ Lru.mem_remove_iff hi.nodup)

/-! ## What an event does to the contexts -/

variable (env : RelayEnv)

/-- The event puts a new context into the cache: the header is that of an address, or the query of a
name has no context; the cache has none, and the kernel lets the datagram through. -/
def Opens (s : Relay) : Event → Prop
  | .datagram k src buf =>
    (k.socketOk && k.sendOk) = true ∧ ∃ h, parseUdprelayHeader env.lib buf = some h ∧
      h.storage.family ≠ .unspec ∧ (buf.drop h.len).length ≤ env.packetSize ∧
      Lru.lookup s.connCache (h.storage.family, src) = none
  | .answer k i (some _) =>
    (k.socketOk && k.sendOk) = true ∧ ∃ q, s.queries[i]?.join = some q ∧ q.remoteCtx = none ∧
      Lru.lookup s.connCache (.unspec, q.srcAddr) = none
  | _ => False

/-- The event frees a context: its timer runs out, or it is the oldest and a new one fills the
cache. -/
def Frees (s : Relay) (e : Event) (id : Nat) : Prop :=
  (e = .timeout id ∧ s.Live id) ∨ (s.Opens env e ∧ s.evicted = some id)

/-- A pending query holds a context. -/
def Holds (s : Relay) (i id : Nat) : Prop :=
  ∃ q, s.queries[i]?.join = some q ∧ q.remoteCtx = some id

/-- What an event can do to the contexts, the cache and the contexts that queries hold. -/
inductive Change (s : Relay) (e : Event) (t : Relay) : Prop
  | kept (same : s.SameContexts t) (spares : ∀ id, ¬ s.Frees env e id)
    (held : ∀ i id, t.Holds i id → s.Holds i id ∨ s.Live id)
  | opened (opens : s.Opens env e) (u : Relay) (same : s.SameContexts u)
    (cache : u.connCache = s.connCache) (c : RemoteCtx) (new : c.key ∉ s.connCache.map Prod.fst)
    (eq : t = u.addRemote c) (held : ∀ i id, u.Holds i id ↔ s.Holds i id)
  | expired (id : Nat) (timer : e = .timeout id) (live : s.Live id) (eq : t = remoteTimeoutCb s id)

variable {env}

/-- Opening a context opens it or does nothing but send. -/
theorem openRemote_change {u : Relay} {e : Event} {k : Kernel} {c : RemoteCtx} {data : Bytes}
    (hopens : s.Opens env e ↔ (k.socketOk && k.sendOk) = true) (he : ∀ id, e ≠ .timeout id)
    (hsame : s.SameContexts u) (hcache : u.connCache = s.connCache)
    (hnew : c.key ∉ s.connCache.map Prod.fst) (hheld : ∀ i id, u.Holds i id ↔ s.Holds i id) :
    Change env s e (u.openRemote k c data) := by
  unfold openRemote
  split
  · next hok =>
    refine .opened (hopens.mpr hok) _ (hsame.trans (sameContexts_sendTo u k _)) ?_ c hnew rfl ?_
    · rw [connCache_sendTo, hcache]
    · intro i id
      unfold Holds
      rw [queries_sendTo]
      exact hheld i id
  · next hok =>
    refine .kept hsame ?_ (fun i id h ↦ .inl ((hheld i id).mp h))
    rintro id (⟨ht, -⟩ | ⟨ho, -⟩)
    · exact he id ht
    · exact hok (hopens.mp ho)

/-- An event that opens nothing and is no timeout frees nothing. -/
theorem not_frees {e : Event} (hopens : ¬ s.Opens env e) (he : ∀ id, e ≠ .timeout id) (id : Nat) :
    ¬ s.Frees env e id := by
  rintro (⟨ht, -⟩ | ⟨ho, -⟩)
  · exact he id ht
  · exact hopens ho

/-- A lookup that fails leaves the cache as it is. -/
theorem touch_of_miss {key : AddrFamily × SockAddr} (h : Lru.lookup s.connCache key = none) :
    Lru.touch s.connCache key = s.connCache := by
  unfold Lru.lookup at h
  rw [Option.map_eq_none_iff] at h
  unfold Lru.touch
  rw [h]

/-- A new query holds the context it is given. -/
theorem holds_addQuery {q : QueryCtx} {i id : Nat} (h : (s.addQuery q).Holds i id) :
    s.Holds i id ∨ q.remoteCtx = some id := by
  obtain ⟨p, hp, hid⟩ := h
  simp only [addQuery, List.getElem?_append] at hp
  split at hp
  · exact .inl ⟨p, hp, hid⟩
  · cases hn : i - s.queries.length with
    | zero =>
      rw [hn] at hp
      have hqp : q = p := by simpa using hp
      rw [hqp]
      exact .inr hid
    | succ n =>
      rw [hn] at hp
      cases hp

/-- A datagram that is only sent on, or dropped. -/
theorem datagram_kept {k : Kernel} {src : SockAddr} {buf : Bytes} (hsame : s.SameContexts t)
    (hqueries : t.queries = s.queries) (hopens : ¬ s.Opens env (.datagram k src buf)) :
    Change env s (.datagram k src buf) t := by
  refine .kept hsame (not_frees hopens fun id h ↦ by cases h) (fun i id h ↦ .inl ?_)
  unfold Holds at h ⊢
  rwa [hqueries] at h

/-- A datagram for which a query is made. -/
theorem datagram_queried {k : Kernel} {src : SockAddr} {buf : Bytes} {q : QueryCtx}
    (hsame : s.SameContexts t) (hqueries : t.queries = s.queries)
    (hopens : ¬ s.Opens env (.datagram k src buf)) (hq : ∀ id, q.remoteCtx = some id → s.Live id) :
    Change env s (.datagram k src buf) (t.addQuery q) := by
  refine .kept (hsame.trans (sameContexts_addQuery t q)) (not_frees hopens fun id h ↦ by cases h)
    (fun i id h ↦ ?_)
  rcases holds_addQuery h with hold | hnew
  · unfold Holds at hold ⊢
    rw [hqueries] at hold
    exact .inl hold
  · exact .inr (hq id hnew)

/-- What a datagram does. -/
theorem serverRecvCb_change (hi : s.CacheInv) (k : Kernel) (src : SockAddr) (buf : Bytes) :
    ∃ t, serverRecvCb env s k src buf = some t ∧ Change env s (.datagram k src buf) t := by
  unfold serverRecvCb
  cases hp : parseUdprelayHeader env.lib buf with
  | none =>
    refine ⟨s, rfl, datagram_kept (.refl s) rfl ?_⟩
    rintro ⟨-, h, hsome, -⟩
    rw [hp] at hsome
    cases hsome
  | some hd =>
    have htouch := sameContexts_withCache s (Lru.touch_perm s.connCache (hd.storage.family, src))
    have hopens : s.Opens env (.datagram k src buf) ↔ (k.socketOk && k.sendOk) = true ∧
        hd.storage.family ≠ .unspec ∧ (buf.drop hd.len).length ≤ env.packetSize ∧
        Lru.lookup s.connCache (hd.storage.family, src) = none := by
      constructor
      · rintro ⟨hok, h, hh, hrest⟩
        rw [hp] at hh
        rw [Option.some.inj hh]
        exact ⟨hok, hrest⟩
      · rintro ⟨hok, hrest⟩
        exact ⟨hok, hd, hp, hrest⟩
    simp only
    cases hl : Lru.lookup s.connCache (hd.storage.family, src) with
    | none =>
      simp only
      split
      · next hlong =>
        refine ⟨_, rfl, datagram_kept htouch rfl fun h ↦ ?_⟩
        have := (hopens.mp h).2.2.1
        omega
      · next hfits =>
        refine ⟨_, rfl, ?_⟩
        unfold recvMiss
        split
        · next hname =>
          exact datagram_queried htouch rfl (fun h ↦ (hopens.mp h).2.1 hname)
            (fun id hid ↦ by cases hid)
        · next hname =>
          refine openRemote_change ?_ (fun id h ↦ by cases h) htouch (touch_of_miss hl)
            (Lru.not_mem_of_lookup hl) (fun i id ↦ Iff.rfl)
          rw [hopens]
          exact ⟨fun h ↦ h.1, fun h ↦ ⟨h, hname, by omega, hl⟩⟩
    | some id =>
      obtain ⟨c, hc, hkey⟩ := hi.keys _ _ (Lru.mem_of_lookup hl)
      have hsrc : c.srcAddr = src := (congrArg Prod.snd hkey).symm
      have hmiss : ¬ s.Opens env (.datagram k src buf) := by
        intro h
        have := (hopens.mp h).2.2.2
        rw [hl] at this
        cases this
      simp only [hc]
      split
      · exact ⟨_, rfl, datagram_kept htouch rfl hmiss⟩
      · rw [if_neg (not_not.mpr hsrc)]
        refine ⟨_, rfl, ?_⟩
        unfold recvHit
        split
        · split
          · refine datagram_queried htouch rfl hmiss (fun j hj ↦ ⟨c, ?_⟩)
            rw [← Option.some.inj hj]
            exact hc
          · exact datagram_kept (htouch.trans (sameContexts_sendTo _ k _)) (queries_sendTo _ k _)
              hmiss
        · exact datagram_kept (htouch.trans (sameContexts_sendTo _ k _)) (queries_sendTo _ k _) hmiss

/-- A query that is gone holds nothing, the others hold what they held. -/
theorem holds_set_none {i j id : Nat} (hqs : t.queries = s.queries.set i none) :
    t.Holds j id ↔ j ≠ i ∧ s.Holds j id := by
  unfold Holds
  rw [hqs]
  by_cases hj : j = i
  · rw [hj]
    constructor
    · rintro ⟨q, hq, -⟩
      rw [List.getElem?_set] at hq
      simp only [if_true] at hq
      split at hq <;> cases hq
    · rintro ⟨hne, -⟩
      exact absurd rfl hne
  · rw [List.getElem?_set_ne (fun h ↦ hj h.symm)]
    exact ⟨fun h ↦ ⟨hj, h⟩, fun h ↦ h.2⟩

/-- An answer that opens nothing. -/
theorem answer_kept {k : Kernel} {i : Nat} {answer : Option (AddrFamily × Bytes)}
    (hsame : s.SameContexts t) (hqueries : t.queries = s.queries.set i none)
    (hopens : ¬ s.Opens env (.answer k i answer)) : Change env s (.answer k i answer) t :=
  .kept hsame (not_frees hopens fun id h ↦ by cases h)
    (fun _ _ h ↦ .inl ((holds_set_none hqueries).mp h).2)

/-- What an answer does. -/
theorem queryResolveCb_change (k : Kernel) (i : Nat) (answer : Option (AddrFamily × Bytes))
    (h : queryResolveCb s k i answer = some t) : Change env s (.answer k i answer) t := by
  unfold queryResolveCb at h
  cases hq : s.queries[i]?.join with
  | none =>
    rw [hq] at h
    rw [← Option.some.inj h]
    refine .kept (.refl s) (not_frees ?_ fun id h ↦ by cases h) (fun _ _ h ↦ .inl h)
    cases answer with
    | none => exact id
    | some a =>
      rintro ⟨-, q, hsome, -⟩
      rw [hq] at hsome
      cases hsome
  | some q =>
    rw [hq] at h
    cases answer with
    | none =>
      rw [← Option.some.inj h]
      exact answer_kept ⟨List.Perm.refl _, fun _ ↦ rfl⟩ rfl id
    | some a =>
      obtain ⟨family, addr⟩ := a
      simp only at h
      have hresolve := sameContexts_resolve s i ⟨q.host, family, addr⟩
      have hhit : ∀ {u : Relay} {id : Nat} {c : RemoteCtx}, s.SameContexts u →
          u.queries = s.queries.set i none → u.remote id = some c →
          ¬ s.Opens env (.answer k i (some (family, addr))) →
          Change env s (.answer k i (some (family, addr)))
            (resolveHit u k q ⟨family, addr, q.port⟩ id c) := by
        intro u id c hu hqueries hc hopens
        refine answer_kept (hu.trans (sameContexts_resolveHit u k q _ hc)) ?_ hopens
        rw [← hqueries]
        exact queries_sendTo _ k _
      cases hr : q.remoteCtx with
      | some id =>
        rw [hr] at h
        obtain ⟨c, hc, ht⟩ := Option.map_eq_some_iff.mp h
        rw [← ht]
        refine hhit hresolve rfl hc ?_
        rintro ⟨-, p, hp, hnone, -⟩
        rw [hq] at hp
        rw [← Option.some.inj hp, hr] at hnone
        cases hnone
      | none =>
        rw [hr] at h
        simp only at h
        have htouch := hresolve.trans
          (sameContexts_withCache _ (Lru.touch_perm s.connCache (.unspec, q.srcAddr)))
        cases hl : Lru.lookup s.connCache (.unspec, q.srcAddr) with
        | some id =>
          rw [hl] at h
          obtain ⟨c, hc, ht⟩ := Option.map_eq_some_iff.mp h
          rw [← ht]
          refine hhit htouch rfl hc ?_
          rintro ⟨-, p, hp, -, hmiss⟩
          rw [hq] at hp
          rw [← Option.some.inj hp, hl] at hmiss
          cases hmiss
        | none =>
          rw [hl] at h
          rw [← Option.some.inj h]
          refine openRemote_change ?_ (fun id h ↦ by cases h) htouch (touch_of_miss hl)
            (Lru.not_mem_of_lookup hl) ?_
          · exact ⟨fun h ↦ h.1, fun h ↦ ⟨h, q, hq, hr, hl⟩⟩
          · intro j id
            rw [holds_set_none rfl]
            refine ⟨fun h ↦ h.2, fun h ↦ ⟨?_, h⟩⟩
            intro hji
            obtain ⟨p, hp, hid⟩ := h
            rw [hji, hq] at hp
            rw [← Option.some.inj hp, hr] at hid
            cases hid

/-- A reply is forwarded or not. -/
theorem remoteRecvCb_same (s : Relay) (id : Nat) (peer : SockAddr) (data : Bytes) (passes : Bool) :
    s.SameContexts (remoteRecvCb s id peer data passes) ∧
      (remoteRecvCb s id peer data passes).queries = s.queries := by
  unfold remoteRecvCb
  split
  · exact ⟨.refl s, rfl⟩
  · split
    · exact ⟨⟨List.Perm.refl _, fun _ ↦ rfl⟩, rfl⟩
    · exact ⟨.refl s, rfl⟩

/-- The timer of a freed context does nothing. -/
theorem remoteTimeoutCb_of_not_live {id : Nat} (h : ¬ s.Live id) : remoteTimeoutCb s id = s := by
  have hnone : s.remote id = none := by
    cases hc : s.remote id with
    | none => rfl
    | some c => exact absurd ⟨c, hc⟩ h
  unfold remoteTimeoutCb
  rw [hnone]

/-- What an event does. -/
theorem relayStep_change (hi : s.CacheInv) {e : Event} (h : relayStep env s e = some t) :
    Change env s e t := by
  cases e with
  | datagram k src buf =>
    obtain ⟨u, hu, hchange⟩ :
      ∃ u, serverRecvCb env s k src buf = some u ∧ Change env s (.datagram k src buf) u :=
      serverRecvCb_change hi k src buf
    rw [← Option.some.inj (hu.symm.trans h)]
    exact hchange
  | answer k i answer => exact queryResolveCb_change k i answer h
  | reply id peer data passes =>
    obtain ⟨hsame, hqueries⟩ := remoteRecvCb_same s id peer data passes
    rw [← Option.some.inj h]
    refine .kept hsame (not_frees (fun h ↦ h) fun id h ↦ by cases h) (fun i j hj ↦ .inl ?_)
    unfold Holds at hj ⊢
    rwa [hqueries] at hj
  | timeout id =>
    have ht : remoteTimeoutCb s id = t := Option.some.inj h
    by_cases hlive : s.Live id
    · exact .expired id rfl hlive ht.symm
    · rw [remoteTimeoutCb_of_not_live hlive] at ht
      rw [← ht]
      refine .kept (.refl s) ?_ (fun i j hj ↦ .inl hj)
      rintro j (⟨hj, hjlive⟩ | ⟨hopens, -⟩)
      · rw [Event.timeout.injEq] at hj
        rw [hj] at hlive
        exact hlive hjlive
      · exact hopens

/-- Every change keeps the invariant. -/
theorem CacheInv.change (hi : s.CacheInv) {e : Event} (h : Change env s e t) : t.CacheInv := by
  cases h with
  | kept same _ _ => exact hi.same same
  | opened _ u same cache c new eq _ =>
    rw [eq]
    apply (hi.same same).addRemote
    rwa [cache]
  | expired id _ _ eq =>
    rw [eq]
    exact hi.timeout id

end Relay

/-- The invariant holds in every state that the relay reaches. -/
theorem cacheInv_of_run {env : RelayEnv} {es : List Event} {s : Relay}
    (h : run (relayStep env) Relay.start es = some s) : s.CacheInv := by
  apply run_invariant (relayStep env) Relay.CacheInv _ Relay.cacheInv_start h
  intro s e t hi ht
  exact hi.change (Relay.relayStep_change hi ht)

end OpenWrtCompile.Udp
