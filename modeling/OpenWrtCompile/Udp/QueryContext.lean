import OpenWrtCompile.Udp.ConnCache

/-!
# The contexts that DNS queries hold

`shadowsocksr-libev/src/server/udprelay.c:549–648, 1279–1328` and `cache.c:269–308`. A query made for
a context keeps a pointer to it; the cache frees contexts without a look at the queries.
-/

namespace OpenWrtCompile.Udp
open OpenWrtCompile.Base

namespace Relay

variable {env : RelayEnv} {s t : Relay}

/-- Every context that a pending query holds is in use and in the cache. -/
def NoDangling (s : Relay) : Prop :=
  ∀ i id, s.Holds i id → s.Live id ∧ id ∈ s.connCache.map Prod.snd

/-- The event frees no context that a pending query holds. -/
def Spares (env : RelayEnv) (s : Relay) (e : Event) : Prop :=
  ∀ i id, s.Holds i id → ¬ s.Frees env e id

/-- The contexts in use are those of the cache. -/
theorem CacheInv.live_iff (hi : s.CacheInv) (id : Nat) :
    s.Live id ↔ id ∈ s.connCache.map Prod.snd := by
  constructor
  · rintro ⟨c, hc⟩
    exact List.mem_map.mpr ⟨_, hi.cached id c hc, rfl⟩
  · intro h
    obtain ⟨e, he, hid⟩ := List.mem_map.mp h
    obtain ⟨c, hc, -⟩ := hi.keys e.1 e.2 he
    rw [← hid]
    exact ⟨c, hc⟩

/-- With the invariant it is enough that the contexts are in use. -/
theorem CacheInv.noDangling_iff (hi : s.CacheInv) :
    s.NoDangling ↔ ∀ i id, s.Holds i id → s.Live id := by
  constructor
  · intro h i id hid
    exact (h i id hid).1
  · intro h i id hid
    exact ⟨h i id hid, (hi.live_iff id).mp (h i id hid)⟩

/-- Freeing one context. -/
theorem live_set_none {remotes : List (Option RemoteCtx)} {old id : Nat}
    (hremotes : t.remotes = remotes.set old none) :
    t.Live id ↔ id ≠ old ∧ ∃ c, remotes[id]?.join = some c := by
  unfold Live remote
  rw [hremotes]
  by_cases hid : id = old
  · rw [hid]
    simp only [List.getElem?_set, if_true]
    split <;> simp
  · rw [List.getElem?_set_ne (fun h ↦ hid h.symm)]
    exact ⟨fun h ↦ ⟨hid, h⟩, fun h ↦ h.2⟩

/-- An older context stays in use beside a new one unless it has to go. -/
theorem live_addRemote (c : RemoteCtx) {id : Nat} (h : s.Live id) :
    (s.addRemote c).Live id ↔ s.evicted ≠ some id := by
  obtain ⟨d, hd⟩ := h
  have hlt := lt_of_remote hd
  have hnew : (s.remotes ++ [some c])[id]?.join = some d := by
    rw [List.getElem?_append_left hlt]
    exact hd
  cases hev : s.evicted with
  | none =>
    rw [addRemote_of_room c hev]
    constructor
    · intro _ h
      cases h
    · intro _
      exact ⟨d, hnew⟩
  | some old =>
    obtain ⟨k, rest, -, hadd⟩ := addRemote_of_full c hev
    rw [hadd]
    refine (@live_set_none _ (s.remotes ++ [some c]) old id rfl).trans ?_
    constructor
    · rintro ⟨hne, -⟩ heq
      exact hne (Option.some.inj heq).symm
    · intro hne
      exact ⟨fun h ↦ hne (by rw [h]), d, hnew⟩

/-- A step from a state without dangling contexts is defined. -/
theorem relayStep_defined (hi : s.CacheInv) (hd : s.NoDangling) (e : Event) :
    ∃ t, relayStep env s e = some t := by
  cases e with
  | datagram k src buf =>
    obtain ⟨t, ht, -⟩ :
      ∃ t, serverRecvCb env s k src buf = some t ∧ Change env s (.datagram k src buf) t :=
      serverRecvCb_change hi k src buf
    exact ⟨t, ht⟩
  | answer k i answer =>
    show ∃ t, queryResolveCb s k i answer = some t
    unfold queryResolveCb
    cases hq : s.queries[i]?.join with
    | none => exact ⟨_, rfl⟩
    | some q =>
      cases answer with
      | none => exact ⟨_, rfl⟩
      | some a =>
        simp only
        cases hr : q.remoteCtx with
        | some id =>
          obtain ⟨⟨c, hc⟩, -⟩ := hd i id ⟨q, hq, hr⟩
          refine ⟨_, Option.map_eq_some_iff.mpr ⟨c, hc, rfl⟩⟩
        | none =>
          simp only
          cases hl : Lru.lookup s.connCache (.unspec, q.srcAddr) with
          | none => exact ⟨_, rfl⟩
          | some id =>
            obtain ⟨c, hc, -⟩ := hi.keys _ _ (Lru.mem_of_lookup hl)
            refine ⟨_, Option.map_eq_some_iff.mpr ⟨c, hc, rfl⟩⟩
  | reply id peer data passes => exact ⟨_, rfl⟩
  | timeout id => exact ⟨_, rfl⟩

/-- A change leaves no dangling context exactly when it spares those that queries hold. -/
theorem Change.noDangling_iff {e : Event} (h : Change env s e t) (hi : s.CacheInv)
    (hd : s.NoDangling) : t.NoDangling ↔ s.Spares env e := by
  have ht := hi.change h
  rw [ht.noDangling_iff]
  cases h with
  | kept same spares held =>
    refine ⟨fun _ i id _ ↦ spares id, fun _ i id hid ↦ (same.live_iff id).mpr ?_⟩
    rcases held i id hid with hold | hlive
    · exact (hd i id hold).1
    · exact hlive
  | opened opens u same cache c new eq held =>
    have hfrees : ∀ id, s.Frees env e id ↔ u.evicted = some id := by
      intro id
      have hev : u.evicted = s.evicted := by
        unfold evicted
        rw [cache]
      rw [hev]
      refine ⟨?_, fun h ↦ .inr ⟨opens, h⟩⟩
      rintro (⟨htimer, -⟩ | ⟨-, h⟩)
      · rw [htimer] at opens
        exact opens.elim
      · exact h
    have hlive : ∀ i id, s.Holds i id → (t.Live id ↔ ¬ s.Frees env e id) := by
      intro i id hid
      rw [eq, hfrees]
      exact live_addRemote c ((same.live_iff id).mpr (hd i id hid).1)
    have hqueries : ∀ i id, t.Holds i id ↔ s.Holds i id := by
      intro i id
      rw [eq]
      exact held i id
    constructor
    · intro h i id hid
      exact (hlive i id hid).mp (h i id ((hqueries i id).mpr hid))
    · intro h i id hid
      have hold := (hqueries i id).mp hid
      exact (hlive i id hold).mpr (h i id hold)
  | expired old timer live eq =>
    obtain ⟨c, hc⟩ := live
    rw [eq, hi.timeout_eq hc]
    have hfrees : ∀ id, s.Frees env e id ↔ id = old := by
      intro id
      rw [timer]
      constructor
      · rintro (⟨htimer, -⟩ | ⟨hopens, -⟩)
        · exact (Event.timeout.inj htimer).symm
        · exact hopens.elim
      · intro hid
        rw [hid]
        exact .inl ⟨rfl, c, hc⟩
    constructor
    · intro h i id hid
      rw [hfrees]
      exact ((live_set_none rfl).mp (h i id hid)).1
    · intro h i id hid
      refine (live_set_none rfl).mpr ⟨fun heq ↦ h i id hid ((hfrees id).mpr heq), ?_⟩
      exact (hd i id hid).1

/-- A relay that has just started has no queries. -/
theorem noDangling_start : Relay.start.NoDangling := by
  rintro i id ⟨q, hq, -⟩
  simp [Relay.start] at hq

end Relay

/-- In a run every pending query holds a context in use, and none that has been freed is used,
exactly when no timer and no full cache frees a context that a pending query holds. -/
theorem query_contexts_live_iff (env : RelayEnv) (es : List Event) :
    (∀ pre, pre <+: es → ∃ s, run (relayStep env) Relay.start pre = some s ∧ s.NoDangling) ↔
      Along (relayStep env) (Relay.Spares env) Relay.start es := by
  apply forall_prefix_iff_along (relayStep env) (Relay.Spares env) Relay.CacheInv Relay.NoDangling _
    Relay.cacheInv_start Relay.noDangling_start
  intro s e hi hd
  obtain ⟨t, ht⟩ : ∃ t, relayStep env s e = some t := Relay.relayStep_defined hi hd e
  have hchange := Relay.relayStep_change hi ht
  exact ⟨t, ht, hi.change hchange, hchange.noDangling_iff hi hd⟩

/-- A name is asked for while the context of the client waits, its timer runs out, and the answer
comes: the query holds a freed context, and the answer uses it. -/
theorem query_context_freed_by_timer :
    ∃ s, run (relayStep plainRelay) .start
        [.datagram allOk exampleClient [3, 1, 97, 0, 80, 1],
          .answer allOk 0 (some (.inet, [1, 1, 1, 1])),
          .datagram allOk exampleClient [3, 1, 98, 0, 80, 2], .timeout 0] = some s ∧
      s.Holds 1 0 ∧ ¬ s.NoDangling ∧
      relayStep plainRelay s (.answer allOk 1 (some (.inet, [2, 2, 2, 2]))) = none := by
  refine ⟨_, rfl, ⟨_, rfl, rfl⟩, ?_, rfl⟩
  intro h
  have hmem := (h 1 0 ⟨_, rfl, rfl⟩).2
  revert hmem
  decide

end OpenWrtCompile.Udp
