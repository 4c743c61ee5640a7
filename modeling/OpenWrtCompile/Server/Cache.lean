import OpenWrtCompile.Base.LruMap
import OpenWrtCompile.Base.Run
import Mathlib.Order.Defs.LinearOrder

/-!
# The bounded cache of the server

`shadowsocksr-libev/src/server/cache.c:119–308`. The hash table keeps its entries in the order in
which they were added; a null pointer is `none`, and what is given to `free_cb` is returned. Times
are of any linear order with a difference.
-/

namespace OpenWrtCompile.Server
open OpenWrtCompile.Base

universe u v w

/-- `struct cache_entry`, behind its key. -/
structure CacheEntry (V : Type v) (τ : Type w) where
  data : Option V
  ts : τ
  deriving DecidableEq, Repr

/-- `struct cache`. -/
structure Cache (K : Type u) (V : Type v) (τ : Type w) where
  maxEntries : Nat
  entries : List (K × CacheEntry V τ)
  deriving DecidableEq, Repr

variable {K : Type u} {V : Type v} {τ : Type w}

/-- `cache_create`. -/
def cacheCreate (capacity : Nat) : Cache K V τ := ⟨capacity, []⟩

/-- What `free_cb` gets for an entry: its key and its data, where there is data. -/
def freeCb (e : K × CacheEntry V τ) : List (K × V) := e.2.data.toList.map fun v ↦ (e.1, v)

/-- The stored data that `free_cb` has not got yet. -/
def Cache.live (c : Cache K V τ) : List (K × V) := c.entries.flatMap freeCb

section Operations

variable [DecidableEq K]

/-- `cache_insert`; nothing is stored without memory for the entry. -/
def cacheInsert (c : Cache K V τ) (key : K) (data : Option V) (now : τ) (memory : Bool) :
    Cache K V τ × List (K × V) :=
  if memory then
    let r := Lru.insert c.maxEntries c.entries key ⟨data, now⟩
    ({ c with entries := r.1 }, r.2.toList.flatMap freeCb)
  else (c, [])

/-- The entry of a key goes to the end, with a new time. -/
def Cache.touch (c : Cache K V τ) (key : K) (now : τ) : Cache K V τ :=
  { c with entries := Lru.refresh c.entries key fun e ↦ { e with ts := now } }

/-- `cache_lookup`, with what it stores in `result`. -/
def cacheLookup (c : Cache K V τ) (key : K) (now : τ) : Cache K V τ × Option V :=
  (c.touch key now, (Lru.lookup c.entries key).bind CacheEntry.data)

/-- `cache_key_exist`. -/
def cacheKeyExist (c : Cache K V τ) (key : K) (now : τ) : Cache K V τ × Bool :=
  (c.touch key now, (Lru.lookup c.entries key).isSome)

/-- `cache_remove`. -/
def cacheRemove (c : Cache K V τ) (key : K) : Cache K V τ × List (K × V) :=
  ({ c with entries := Lru.remove c.entries key },
    (Lru.lookup c.entries key).toList.flatMap fun e ↦ freeCb (key, e))

end Operations

variable [LinearOrder τ] [Sub τ]

/-- `now - entry->ts > age`. -/
def CacheEntry.olderThan (now age : τ) (e : CacheEntry V τ) : Bool := age < now - e.ts

/-- `cache_clear`. -/
def cacheClear (c : Cache K V τ) (now age : τ) : Cache K V τ × List (K × V) :=
  ({ c with entries := c.entries.filter fun e ↦ !e.2.olderThan now age },
    (c.entries.filter fun e ↦ e.2.olderThan now age).flatMap freeCb)

/-! ## Runs -/

/-- A call, with the time of `ev_time` and whether there is memory for an entry. -/
inductive CacheOp (K : Type u) (V : Type v) (τ : Type w)
  | insert (key : K) (data : Option V) (now : τ) (memory : Bool)
  | lookup (key : K) (now : τ)
  | keyExist (key : K) (now : τ)
  | remove (key : K)
  | clear (now age : τ)

/-- What a call answers. -/
inductive CacheReply (V : Type v)
  | done
  | value (v : Option V)
  | found (b : Bool)

/-- A cache in use: the time of the last call, the data stored and the data freed so far, and the
answers. -/
structure CacheRun (K : Type u) (V : Type v) (τ : Type w) where
  cache : Cache K V τ
  clock : τ
  stored : List (K × V)
  freed : List (K × V)
  replies : List (CacheReply V)

/-- A cache that has just been created. -/
def CacheRun.start (capacity : Nat) (clock : τ) : CacheRun K V τ :=
  ⟨cacheCreate capacity, clock, [], [], []⟩

section Step

variable [DecidableEq K]

/-- One call. -/
def cacheStep (s : CacheRun K V τ) : CacheOp K V τ → Option (CacheRun K V τ)
  | .insert key data now memory =>
    let r := cacheInsert s.cache key data now memory
    let stored := if memory then freeCb (key, CacheEntry.mk data now) else []
    some ⟨r.1, now, s.stored ++ stored, s.freed ++ r.2, s.replies ++ [.done]⟩
  | .lookup key now =>
    let r := cacheLookup s.cache key now
    some { s with cache := r.1, clock := now, replies := s.replies ++ [.value r.2] }
  | .keyExist key now =>
    let r := cacheKeyExist s.cache key now
    some { s with cache := r.1, clock := now, replies := s.replies ++ [.found r.2] }
  | .remove key =>
    let r := cacheRemove s.cache key
    some { s with cache := r.1, freed := s.freed ++ r.2, replies := s.replies ++ [.done] }
  | .clear now age =>
    let r := cacheClear s.cache now age
    some { s with
      cache := r.1, clock := now, freed := s.freed ++ r.2, replies := s.replies ++ [.done] }

/-- The clock does not go back, and only new keys are inserted. -/
def CacheRun.Allowed (s : CacheRun K V τ) : CacheOp K V τ → Prop
  | .insert key _ now _ => key ∉ s.cache.entries.map Prod.fst ∧ s.clock ≤ now
  | .lookup _ now => s.clock ≤ now
  | .keyExist _ now => s.clock ≤ now
  | .remove _ => True
  | .clear now _ => s.clock ≤ now

/-! ## The map that the cache is -/

/-- A call on the map: what becomes of the map, the answer, and what is freed. -/
inductive LruStep (capacity : Nat) (m : LruMap K (CacheEntry V τ)) :
    CacheOp K V τ → LruMap K (CacheEntry V τ) → CacheReply V → List (K × V) → Prop
  | noMemory (key : K) (data : Option V) (now : τ) :
    LruStep capacity m (.insert key data now false) m .done []
  | insert (key : K) (data : Option V) (now : τ) (m' : LruMap K (CacheEntry V τ))
    (dropped : Option (K × CacheEntry V τ)) (insert : m.Insert capacity key ⟨data, now⟩ m' dropped)
    (room : m'.size < capacity) (kept : m'.get key = some ⟨data, now⟩) :
    LruStep capacity m (.insert key data now true) m' .done (dropped.toList.flatMap freeCb)
  | hit (key : K) (now : τ) (e : CacheEntry V τ) (stored : m.get key = some e) :
    LruStep capacity m (.lookup key now) (m.use key { e with ts := now }) (.value e.data) []
  | miss (key : K) (now : τ) (absent : m.get key = none) :
    LruStep capacity m (.lookup key now) m (.value none) []
  | present (key : K) (now : τ) (e : CacheEntry V τ) (stored : m.get key = some e) :
    LruStep capacity m (.keyExist key now) (m.use key { e with ts := now }) (.found true) []
  | absent (key : K) (now : τ) (absent : m.get key = none) :
    LruStep capacity m (.keyExist key now) m (.found false) []
  | remove (key : K) (e : CacheEntry V τ) (stored : m.get key = some e) :
    LruStep capacity m (.remove key) (m.drop key) .done (freeCb (key, e))
  | removeAbsent (key : K) (absent : m.get key = none) : LruStep capacity m (.remove key) m .done []
  | clear (now age : τ) (dropped : List (K × CacheEntry V τ)) (nodup : (dropped.map Prod.fst).Nodup)
    (old : ∀ k e, (k, e) ∈ dropped ↔ m.get k = some e ∧ age < now - e.ts) :
    LruStep capacity m (.clear now age) (m.keep fun e ↦ !e.olderThan now age) .done
      (dropped.flatMap freeCb)

/-- Calls one after the other on the empty map, with all answers and all that is freed. -/
inductive LruRun (capacity : Nat) :
    List (CacheOp K V τ) → LruMap K (CacheEntry V τ) → List (CacheReply V) → List (K × V) → Prop
  | nil : LruRun capacity [] .empty [] []
  | snoc {ops m rs fs op m' r f} (before : LruRun capacity ops m rs fs)
    (step : LruStep capacity m op m' r f) :
    LruRun capacity (ops ++ [op]) m' (rs ++ [r]) (fs ++ f)

/-- The cache is the map that the calls so far make, what was stored is either in it or has been
freed, once each, and the entries stand in the order of their times. -/
structure Refines (capacity : Nat) (ops : List (CacheOp K V τ)) (s : CacheRun K V τ)
    (m : LruMap K (CacheEntry V τ)) : Prop where
  calls : LruRun capacity ops m s.replies s.freed
  table : m.Shows s.cache.entries
  maxEntries : s.cache.maxEntries = capacity
  room : s.cache.entries.length < capacity
  once : (s.freed ++ s.cache.live).Perm s.stored
  order : s.cache.entries.Pairwise fun a b ↦ a.2.ts ≤ b.2.ts
  clock : ∀ e ∈ s.cache.entries, e.2.ts ≤ s.clock

end Step

/-! ## The entries -/

section Entries

omit [LinearOrder τ] [Sub τ]

variable [DecidableEq K]

/-- A new time changes no data. -/
theorem live_refresh (c : List (K × CacheEntry V τ)) (k : K) (now : τ) :
    ((Lru.refresh c k fun e ↦ { e with ts := now }).flatMap freeCb).Perm (c.flatMap freeCb) := by
  unfold Lru.refresh
  cases h : Lru.lookup c k with
  | none => exact List.Perm.refl _
  | some e =>
    have hfree : freeCb (k, { e with ts := now }) = freeCb (k, e) := rfl
    have hperm := (Lru.remove_append_perm h).flatMap_right freeCb
    simp only [List.flatMap_append, List.flatMap_cons, List.flatMap_nil] at hperm ⊢
    rw [hfree]
    exact hperm

/-- An address that is not found leaves the cache as it is. -/
theorem Cache.touch_of_miss {c : Cache K V τ} {k : K} (h : Lru.lookup c.entries k = none)
    (now : τ) : c.touch k now = c := by
  unfold Cache.touch Lru.refresh
  rw [h]

/-- What an entry had is freed when it is taken out. -/
theorem live_remove (c : List (K × CacheEntry V τ)) (k : K) :
    ((Lru.lookup c k).toList.flatMap (fun e ↦ freeCb (k, e)) ++
      (Lru.remove c k).flatMap freeCb).Perm (c.flatMap freeCb) := by
  cases h : Lru.lookup c k with
  | none =>
    rw [Lru.remove_of_lookup_eq_none h]
    exact List.Perm.refl _
  | some e =>
    have hperm := (Lru.remove_append_perm h).flatMap_right freeCb
    simp only [List.flatMap_append, List.flatMap_cons, List.flatMap_nil, List.append_nil,
      Option.toList_some] at hperm ⊢
    exact List.perm_append_comm.trans hperm

omit [DecidableEq K] in
/-- What the entries had that meet a test is freed when they are taken out. -/
theorem live_filter (c : List (K × CacheEntry V τ)) (p : K × CacheEntry V τ → Bool) :
    ((c.filter p).flatMap freeCb ++ (c.filter fun e ↦ !p e).flatMap freeCb).Perm
      (c.flatMap freeCb) := by
  rw [← List.flatMap_append]
  exact (List.filter_append_perm p c).flatMap_right freeCb

omit [DecidableEq K] in
/-- What the first entry had is freed when an insertion drops it. -/
theorem live_insert (capacity : Nat) (c : List (K × CacheEntry V τ)) (k : K) (e : CacheEntry V τ) :
    (Lru.insert capacity c k e).2.toList.flatMap freeCb ++
        (Lru.insert capacity c k e).1.flatMap freeCb = c.flatMap freeCb ++ freeCb (k, e) := by
  have hnew : (c ++ [(k, e)]).flatMap freeCb = c.flatMap freeCb ++ freeCb (k, e) := by
    simp only [List.flatMap_append, List.flatMap_cons, List.flatMap_nil, List.append_nil]
  rw [← hnew]
  rcases Lru.insert_cases capacity c k e with h | ⟨d, rest, hcons, h, -⟩
  · rw [h]
    rfl
  · rw [h, hcons]
    simp only [Option.toList_some, List.flatMap_cons, List.flatMap_nil, List.append_nil]

end Entries

section Order

omit [Sub τ]

/-- An entry with the latest time behind the others. -/
theorem order_append {c : List (K × CacheEntry V τ)} (h : c.Pairwise fun a b ↦ a.2.ts ≤ b.2.ts)
    {now : τ} (hc : ∀ e ∈ c, e.2.ts ≤ now) {k : K} {e : CacheEntry V τ} (he : e.ts = now) :
    (c ++ [(k, e)]).Pairwise (fun a b ↦ a.2.ts ≤ b.2.ts) ∧
      ∀ d ∈ c ++ [(k, e)], d.2.ts ≤ now := by
  constructor
  · rw [List.pairwise_append]
    refine ⟨h, List.pairwise_singleton _ _, ?_⟩
    intro a ha b hb
    rw [List.mem_singleton.mp hb, he]
    exact hc a ha
  · intro d hd
    rcases List.mem_append.mp hd with hmem | hself
    · exact hc d hmem
    · rw [List.mem_singleton.mp hself, he]

/-- A table that is refreshed stays in the order of its times. -/
theorem order_refresh [DecidableEq K] {c : List (K × CacheEntry V τ)}
    (h : c.Pairwise fun a b ↦ a.2.ts ≤ b.2.ts) {now : τ} (hc : ∀ e ∈ c, e.2.ts ≤ now) (k : K) :
    (Lru.refresh c k fun e ↦ { e with ts := now }).Pairwise (fun a b ↦ a.2.ts ≤ b.2.ts) ∧
      ∀ d ∈ Lru.refresh c k fun e ↦ { e with ts := now }, d.2.ts ≤ now := by
  unfold Lru.refresh
  cases Lru.lookup c k with
  | none => exact ⟨h, hc⟩
  | some e =>
    apply order_append (h.sublist List.eraseP_sublist) _ rfl
    intro d hd
    exact hc d (List.mem_of_mem_eraseP hd)

end Order

/-! ## Refinement -/

section Refinement

variable [DecidableEq K] {capacity : Nat} {ops : List (CacheOp K V τ)} {s : CacheRun K V τ}
  {m : LruMap K (CacheEntry V τ)}

/-- A new cache is the empty map. -/
theorem refines_start (hcap : 2 ≤ capacity) (clock : τ) :
    Refines capacity [] (CacheRun.start capacity clock : CacheRun K V τ) .empty where
  calls := .nil
  table := LruMap.shows_empty
  maxEntries := rfl
  room := by
    show 0 < capacity
    omega
  once := List.Perm.refl _
  order := List.Pairwise.nil
  clock e he := by cases he

/-- An insertion. -/
theorem refines_insert (hcap : 2 ≤ capacity) (h : Refines capacity ops s m) {key : K}
    (data : Option V) {now : τ} (hkey : key ∉ s.cache.entries.map Prod.fst) (hnow : s.clock ≤ now) :
    ∃ t m', cacheStep s (.insert key data now true) = some t ∧
      Refines capacity (ops ++ [.insert key data now true]) t m' := by
  obtain ⟨m', hins, hshow⟩ := h.table.insert capacity hkey ⟨data, now⟩
  have hcall : cacheInsert s.cache key data now true =
      (⟨capacity, (Lru.insert capacity s.cache.entries key ⟨data, now⟩).1⟩,
        (Lru.insert capacity s.cache.entries key ⟨data, now⟩).2.toList.flatMap freeCb) := by
    unfold cacheInsert
    rw [if_pos rfl, h.maxEntries]
  have hroom := Lru.length_insert_lt key (CacheEntry.mk data now) h.room
  have hsub := Lru.insert_sublist capacity s.cache.entries key (CacheEntry.mk data now)
  have hkept : m'.get key = some ⟨data, now⟩ := by
    cases hdropped : (Lru.insert capacity s.cache.entries key (CacheEntry.mk data now)).2 with
    | none =>
      rw [hdropped] at hins
      cases hins with
      | room _ => rw [LruMap.get_use, Function.update_self]
    | some e =>
      rw [hdropped] at hins
      have hne : e.1 ≠ key := hins.ne hcap h.table.used_lt
      cases hins with
      | full _ _ _ =>
        rw [LruMap.get_drop, Function.update_of_ne hne.symm, LruMap.get_use, Function.update_self]
  obtain ⟨horder, hlast⟩ := @order_append K V τ _ _ h.order now
    (fun e he ↦ (h.clock e he).trans hnow) key ⟨data, now⟩ rfl
  refine ⟨_, m', rfl, ?_⟩
  rw [hcall]
  constructor
  · apply h.calls.snoc
    exact .insert key data now m' _ hins (by rwa [hshow.size_eq]) hkept
  · exact hshow
  · rfl
  · exact hroom
  · have hlive := live_insert capacity s.cache.entries key (CacheEntry.mk data now)
    show (s.freed ++ _ ++ _).Perm (s.stored ++ freeCb (key, CacheEntry.mk data now))
    rw [List.append_assoc]
    unfold Cache.live
    simp only
    rw [hlive, ← List.append_assoc]
    exact h.once.append_right _
  · exact horder.sublist hsub
  · intro e he
    exact hlast e (hsub.subset he)

/-- A call that changes times only. -/
theorem refines_touch (h : Refines capacity ops s m) {key : K} {now : τ} (hnow : s.clock ≤ now)
    {op : CacheOp K V τ} {reply : CacheReply V} {m' : LruMap K (CacheEntry V τ)}
    (hstep : LruStep capacity m op m' reply [])
    (hshow : m'.Shows (Lru.refresh s.cache.entries key fun e ↦ { e with ts := now })) :
    Refines capacity (ops ++ [op])
      { s with cache := s.cache.touch key now, clock := now, replies := s.replies ++ [reply] } m' := by
  obtain ⟨horder, hlast⟩ :=
    order_refresh h.order (fun e he ↦ (h.clock e he).trans hnow) key
  constructor
  · have hcalls := h.calls.snoc hstep
    rwa [List.append_nil] at hcalls
  · exact hshow
  · exact h.maxEntries
  · show (Lru.refresh s.cache.entries key _).length < capacity
    rw [Lru.length_refresh]
    exact h.room
  · exact (List.Perm.append_left _ (live_refresh s.cache.entries key now)).trans h.once
  · exact horder
  · exact hlast

/-- A lookup or a test for a key. -/
theorem refines_find (h : Refines capacity ops s m) (key : K) {now : τ} (hnow : s.clock ≤ now) :
    (∃ m', Refines capacity (ops ++ [.lookup key now])
      { s with
        cache := s.cache.touch key now, clock := now
        replies := s.replies ++ [.value (cacheLookup s.cache key now).2] } m') ∧
      ∃ m', Refines capacity (ops ++ [.keyExist key now])
        { s with
          cache := s.cache.touch key now, clock := now
          replies := s.replies ++ [.found (cacheKeyExist s.cache key now).2] } m' := by
  have hget := h.table.get_eq key
  unfold cacheLookup cacheKeyExist
  simp only
  rw [← hget]
  cases hk : m.get key with
  | none =>
    have hshow : m.Shows (Lru.refresh s.cache.entries key fun e ↦ { e with ts := now }) := by
      rw [hk] at hget
      unfold Lru.refresh
      rw [← hget]
      exact h.table
    exact ⟨⟨m, refines_touch h hnow (.miss key now hk) hshow⟩,
      ⟨m, refines_touch h hnow (.absent key now hk) hshow⟩⟩
  | some e =>
    have hshow := h.table.refresh hk fun e ↦ { e with ts := now }
    exact ⟨⟨_, refines_touch h hnow (.hit key now e hk) hshow⟩,
      ⟨_, refines_touch h hnow (.present key now e hk) hshow⟩⟩

/-- A removal. -/
theorem refines_remove (h : Refines capacity ops s m) (key : K) :
    ∃ t m', cacheStep s (.remove key) = some t ∧ Refines capacity (ops ++ [.remove key]) t m' := by
  have hget := h.table.get_eq key
  have hlive := live_remove s.cache.entries key
  have hlength : (Lru.remove s.cache.entries key).length ≤ s.cache.entries.length :=
    List.eraseP_sublist.length_le
  refine ⟨_, m.drop key, rfl, ?_⟩
  constructor
  · apply h.calls.snoc
    unfold cacheRemove
    simp only
    rw [← hget]
    cases hk : m.get key with
    | none =>
      rw [LruMap.drop_of_get_eq_none hk]
      exact .removeAbsent key hk
    | some e =>
      rw [Option.toList_some, List.flatMap_cons, List.flatMap_nil, List.append_nil]
      exact .remove key e hk
  · exact h.table.drop key
  · exact h.maxEntries
  · exact Nat.lt_of_le_of_lt hlength h.room
  · show (s.freed ++ _ ++ _).Perm s.stored
    rw [List.append_assoc]
    exact (List.Perm.append_left _ hlive).trans h.once
  · exact h.order.sublist List.eraseP_sublist
  · intro e he
    exact h.clock e (Lru.mem_of_mem_remove he)

/-- A clearance. -/
theorem refines_clear (h : Refines capacity ops s m) {now : τ} (age : τ) (hnow : s.clock ≤ now) :
    ∃ t m', cacheStep s (.clear now age) = some t ∧
      Refines capacity (ops ++ [.clear now age]) t m' := by
  refine ⟨_, m.keep fun e ↦ !e.olderThan now age, rfl, ?_⟩
  constructor
  · apply h.calls.snoc
    apply LruStep.clear now age
    · exact h.table.nodup.sublist (List.filter_sublist.map Prod.fst)
    · intro k e
      rw [List.mem_filter, h.table.mem_iff, CacheEntry.olderThan, decide_eq_true_eq]
  · exact h.table.keep _
  · exact h.maxEntries
  · exact Nat.lt_of_le_of_lt (List.length_filter_le _ _) h.room
  · have hlive := live_filter s.cache.entries fun e ↦ e.2.olderThan now age
    show (s.freed ++ _ ++ _).Perm s.stored
    rw [List.append_assoc]
    exact (List.Perm.append_left _ hlive).trans h.once
  · exact h.order.sublist List.filter_sublist
  · intro e he
    exact (h.clock e (List.mem_of_mem_filter he)).trans hnow

/-- A call. -/
theorem refines_step (hcap : 2 ≤ capacity) (h : Refines capacity ops s m) {op : CacheOp K V τ}
    (hop : s.Allowed op) :
    ∃ t m', cacheStep s op = some t ∧ Refines capacity (ops ++ [op]) t m' := by
  cases op with
  | insert key data now memory =>
    cases memory with
    | true => exact refines_insert hcap h data hop.1 hop.2
    | false =>
      refine ⟨_, m, rfl, ?_⟩
      constructor
      · exact h.calls.snoc (.noMemory key data now)
      · exact h.table
      · exact h.maxEntries
      · exact h.room
      · show (s.freed ++ [] ++ _).Perm (s.stored ++ [])
        rw [List.append_nil, List.append_nil]
        exact h.once
      · exact h.order
      · exact fun e he ↦ (h.clock e he).trans hop.2
  | lookup key now =>
    obtain ⟨m', hm'⟩ := (refines_find h key hop).1
    exact ⟨_, m', rfl, hm'⟩
  | keyExist key now =>
    obtain ⟨m', hm'⟩ := (refines_find h key hop).2
    exact ⟨_, m', rfl, hm'⟩
  | remove key => exact refines_remove h key
  | clear now age => exact refines_clear h age hop

/-- Calls one after the other. -/
theorem refines_run (hcap : 2 ≤ capacity) (h : Refines capacity ops s m)
    (next : List (CacheOp K V τ)) (hnext : Along cacheStep CacheRun.Allowed s next) :
    ∃ t m', run cacheStep s next = some t ∧ Refines capacity (ops ++ next) t m' := by
  induction next generalizing ops s m with
  | nil =>
    refine ⟨s, m, rfl, ?_⟩
    rwa [List.append_nil]
  | cons op next ih =>
    obtain ⟨t, m', ht, href⟩ := refines_step hcap h hnext.1
    obtain ⟨u, m'', hu, hrest⟩ := ih href (hnext.2 t ht)
    rw [List.append_assoc, List.singleton_append] at hrest
    exact ⟨u, m'', by rw [run_cons_of_some cacheStep next ht, hu], hrest⟩

/-- After any calls with a clock that does not go back and insertions of new keys, a cache for two
entries or more is the map that forgets what has not been used for longest, with fewer entries than
its bound; it has given the same answers, and has freed once each what it holds no more. -/
theorem cache_refines_lru_map (hcap : 2 ≤ capacity) (clock : τ) (ops : List (CacheOp K V τ))
    (hops : Along cacheStep CacheRun.Allowed (.start capacity clock) ops) :
    ∃ s m, run cacheStep (CacheRun.start capacity clock) ops = some s ∧
      LruRun capacity ops m s.replies s.freed ∧ m.Shows s.cache.entries ∧
      s.cache.entries.length < capacity ∧
      (s.freed ++ s.cache.live).Perm s.stored ∧
      s.cache.entries.Pairwise fun a b ↦ a.2.ts ≤ b.2.ts := by
  obtain ⟨s, m, hs, href⟩ := refines_run hcap (refines_start hcap clock) ops hops
  exact ⟨s, m, hs, href.calls, href.table, href.room, href.once, href.order⟩

end Refinement

/-- Three insertions into a cache for three, with a lookup of the first key in between: the second
key is dropped. -/
theorem cache_refines_three_insertions :
    ∃ (s : CacheRun Nat Nat Nat) (m : LruMap Nat (CacheEntry Nat Nat)),
      run cacheStep (.start 3 0) [.insert 1 (some 10) 1 true, .insert 2 (some 20) 2 true,
        .lookup 1 3, .insert 3 (some 30) 4 true] = some s ∧
      LruRun 3 [.insert 1 (some 10) 1 true, .insert 2 (some 20) 2 true, .lookup 1 3,
        .insert 3 (some 30) 4 true] m s.replies s.freed ∧ m.Shows s.cache.entries ∧
      s.cache.entries.length < 3 ∧ (s.freed ++ s.cache.live).Perm s.stored ∧
      s.cache.entries.Pairwise fun a b ↦ a.2.ts ≤ b.2.ts := by
  apply cache_refines_lru_map (by decide)
  refine ⟨⟨by decide, by decide⟩, fun s hs ↦ ⟨⟨?_, ?_⟩, fun t ht ↦ ⟨?_, fun u hu ↦
    ⟨⟨?_, ?_⟩, fun _ _ ↦ trivial⟩⟩⟩⟩
  · rw [← Option.some.inj hs]
    decide
  · rw [← Option.some.inj hs]
    decide
  · rw [← Option.some.inj ht]
    show 2 ≤ 3
    decide
  · rw [← Option.some.inj hs] at ht
    rw [← Option.some.inj ht] at hu
    rw [← Option.some.inj hu]
    decide
  · rw [← Option.some.inj hu]
    show 3 ≤ 4
    decide

end OpenWrtCompile.Server
