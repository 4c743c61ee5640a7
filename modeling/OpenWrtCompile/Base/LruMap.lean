import OpenWrtCompile.Base.Lru
import Mathlib.Data.Set.Card
import Mathlib.Logic.Function.Basic

/-!
# Maps that forget what has not been used for longest

An `LruMap` says for each key what is stored and when the key was last used. An insertion that fills
the map drops a key whose last use is the oldest. A table in order of use, as in `Lru`, shows such a
map, and the operations on tables are those on maps.
-/

namespace OpenWrtCompile.Base

universe u v

/-- A map with the time of the last use of each key, counted in uses. -/
structure LruMap (K : Type u) (V : Type v) where
  get : K → Option V
  used : K → Nat
  uses : Nat

namespace LruMap

variable {K : Type u} {V : Type v}

/-- Nothing is stored. -/
def empty : LruMap K V := ⟨fun _ ↦ none, fun _ ↦ 0, 0⟩

/-- The keys under which something is stored. -/
def keys (m : LruMap K V) : Set K := { k | (m.get k).isSome }

theorem mem_keys (m : LruMap K V) (k : K) : k ∈ m.keys ↔ (m.get k).isSome = true := Iff.rfl

/-- How many keys there are. -/
noncomputable def size (m : LruMap K V) : Nat := m.keys.ncard

/-- No key was used before this one. -/
def IsOldest (m : LruMap K V) (k : K) : Prop := k ∈ m.keys ∧ ∀ j ∈ m.keys, m.used k ≤ m.used j

/-- Keep what meets a test. -/
def keep (m : LruMap K V) (p : V → Bool) : LruMap K V :=
  { m with get := fun k ↦ (m.get k).filter p }

section Decidable

variable [DecidableEq K]

/-- Store a value under a key, which is thereby used. -/
def use (m : LruMap K V) (k : K) (v : V) : LruMap K V where
  get := Function.update m.get k (some v)
  used := Function.update m.used k m.uses
  uses := m.uses + 1

/-- Drop a key. -/
def drop (m : LruMap K V) (k : K) : LruMap K V := { m with get := Function.update m.get k none }

@[simp] theorem get_use (m : LruMap K V) (k : K) (v : V) :
    (m.use k v).get = Function.update m.get k (some v) := rfl

@[simp] theorem used_use (m : LruMap K V) (k : K) (v : V) :
    (m.use k v).used = Function.update m.used k m.uses := rfl

@[simp] theorem uses_use (m : LruMap K V) (k : K) (v : V) : (m.use k v).uses = m.uses + 1 := rfl

@[simp] theorem get_drop (m : LruMap K V) (k : K) :
    (m.drop k).get = Function.update m.get k none := rfl

/-- Insert a new key into a map that is full with `capacity` keys: what becomes of the map, and what
is dropped. -/
inductive Insert (capacity : Nat) (m : LruMap K V) (k : K) (v : V) :
    LruMap K V → Option (K × V) → Prop
  | room (h : (m.use k v).size < capacity) : Insert capacity m k v (m.use k v) none
  | full {old : K} {w : V} (h : capacity ≤ (m.use k v).size) (oldest : (m.use k v).IsOldest old)
    (stored : (m.use k v).get old = some w) :
    Insert capacity m k v ((m.use k v).drop old) (some (old, w))

/-- A table in order of use shows a map. -/
structure Shows (m : LruMap K V) (c : List (K × V)) : Prop where
  nodup : (c.map Prod.fst).Nodup
  mem_iff : ∀ k v, (k, v) ∈ c ↔ m.get k = some v
  order : c.Pairwise fun a b ↦ m.used a.1 < m.used b.1
  used : ∀ e ∈ c, m.used e.1 < m.uses

variable {c : List (K × V)} {m : LruMap K V}

omit [DecidableEq K] in
/-- The empty table shows the empty map. -/
theorem shows_empty : Shows empty ([] : List (K × V)) where
  nodup := List.nodup_nil
  mem_iff k v := by simp [empty]
  order := List.Pairwise.nil
  used e h := by cases h

/-- A lookup finds what the map has. -/
theorem Shows.get_eq (h : Shows m c) (k : K) : m.get k = Lru.lookup c k := by
  apply Option.ext
  intro v
  rw [← h.mem_iff]
  exact ⟨Lru.lookup_of_mem h.nodup, Lru.mem_of_lookup⟩

omit [DecidableEq K] in
/-- The keys of the map are those of the table. -/
theorem Shows.mem_keys_iff (h : Shows m c) {k : K} : k ∈ m.keys ↔ k ∈ c.map Prod.fst := by
  rw [List.mem_map, mem_keys, Option.isSome_iff_exists]
  constructor
  · rintro ⟨v, hv⟩
    exact ⟨(k, v), (h.mem_iff k v).mpr hv, rfl⟩
  · rintro ⟨e, he, hk⟩
    rw [← hk]
    exact ⟨e.2, (h.mem_iff e.1 e.2).mp he⟩

/-- The map has as many keys as the table has entries. -/
theorem Shows.size_eq (h : Shows m c) : m.size = c.length := by
  have hset : m.keys = ((c.map Prod.fst).toFinset : Set K) := by
    ext k
    rw [h.mem_keys_iff, Finset.mem_coe, List.mem_toFinset]
  rw [size, hset, Set.ncard_coe_finset, List.toFinset_card_of_nodup h.nodup, List.length_map]

omit [DecidableEq K] in
/-- Every key was used before now. -/
theorem Shows.used_lt (h : Shows m c) : ∀ k ∈ m.keys, m.used k < m.uses := by
  intro k hk
  obtain ⟨e, he, hek⟩ := List.mem_map.mp (h.mem_keys_iff.mp hk)
  rw [← hek]
  exact h.used e he

/-- Dropping a key that is not there changes nothing. -/
theorem drop_of_get_eq_none {k : K} (h : m.get k = none) : m.drop k = m := by
  have hget : Function.update m.get k none = m.get := by
    rw [← h, Function.update_eq_self]
  unfold drop
  rw [hget]

/-- A new key is used last. -/
theorem Shows.use (h : Shows m c) {k : K} (hk : k ∉ c.map Prod.fst) (v : V) :
    Shows (m.use k v) (c ++ [(k, v)]) := by
  have hne : ∀ e ∈ c, e.1 ≠ k := by
    intro e he hek
    apply hk
    rw [← hek]
    exact List.mem_map_of_mem he
  have hold : ∀ e ∈ c, (m.use k v).used e.1 = m.used e.1 :=
    fun e he ↦ Function.update_of_ne (hne e he) _ _
  constructor
  · rw [List.map_append, List.map_singleton, List.nodup_append]
    refine ⟨h.nodup, List.nodup_singleton _, ?_⟩
    intro a ha b hb hab
    rw [List.mem_singleton] at hb
    rw [hab, hb] at ha
    exact hk ha
  · intro j w
    rw [List.mem_append, List.mem_singleton, Prod.mk.injEq]
    by_cases hj : j = k
    · rw [hj, get_use, Function.update_self, Option.some.injEq]
      constructor
      · rintro (hmem | ⟨-, hw⟩)
        · exact absurd rfl (hne _ hmem)
        · exact hw.symm
      · intro hw
        exact .inr ⟨rfl, hw.symm⟩
    · rw [get_use, Function.update_of_ne hj, ← h.mem_iff]
      exact ⟨fun hmem ↦ hmem.resolve_right fun hself ↦ hj hself.1, .inl⟩
  · rw [List.pairwise_append]
    refine ⟨?_, List.pairwise_singleton _ _, ?_⟩
    · apply h.order.imp_of_mem
      intro a b ha hb hab
      rwa [hold a ha, hold b hb]
    · intro a ha b hb
      rw [List.mem_singleton] at hb
      rw [hold a ha, hb]
      rw [used_use, Function.update_self]
      exact h.used a ha
  · intro e he
    rw [uses_use]
    rcases List.mem_append.mp he with hmem | hself
    · rw [hold e hmem]
      exact Nat.lt_succ_of_lt (h.used e hmem)
    · rw [List.mem_singleton.mp hself]
      rw [used_use, Function.update_self]
      exact Nat.lt_succ_self _

/-- A table from which the entry of a key is dropped. -/
theorem Shows.drop (h : Shows m c) (k : K) : Shows (m.drop k) (Lru.remove c k) where
  nodup := Lru.nodup_remove h.nodup k
  mem_iff j w := by
    rw [Lru.mem_remove_iff h.nodup, h.mem_iff]
    by_cases hj : j = k
    · rw [hj, get_drop, Function.update_self]
      simp
    · rw [get_drop, Function.update_of_ne hj]
      exact ⟨fun hw ↦ hw.1, fun hw ↦ ⟨hw, hj⟩⟩
  order := h.order.sublist List.eraseP_sublist
  used e he := h.used e (Lru.mem_of_mem_remove he)

/-- A key that is used again need not be dropped before. -/
theorem use_drop (m : LruMap K V) (k : K) (v : V) : (m.drop k).use k v = m.use k v := by
  simp only [use, drop, Function.update_idem]

/-- A key that is found is used last. -/
theorem Shows.refresh (h : Shows m c) {k : K} {v : V} (hk : m.get k = some v) (f : V → V) :
    Shows (m.use k (f v)) (Lru.refresh c k f) := by
  have hlookup : Lru.lookup c k = some v := by rw [← h.get_eq, hk]
  have hmiss : k ∉ (Lru.remove c k).map Prod.fst := by
    intro hmem
    obtain ⟨e, he, hek⟩ := List.mem_map.mp hmem
    exact ((Lru.mem_remove_iff h.nodup).mp he).2 hek
  unfold Lru.refresh
  rw [hlookup, ← use_drop]
  exact (h.drop k).use hmiss (f v)

omit [DecidableEq K] in
/-- A table from which what does not meet a test is dropped. -/
theorem Shows.keep (h : Shows m c) (p : V → Bool) :
    Shows (m.keep p) (c.filter fun e ↦ p e.2) where
  nodup := h.nodup.sublist (List.filter_sublist.map Prod.fst)
  mem_iff k v := by
    rw [List.mem_filter, h.mem_iff, LruMap.keep, Option.filter_eq_some_iff]
  order := h.order.sublist List.filter_sublist
  used e he := h.used e (List.mem_of_mem_filter he)

/-- An insertion of a new key into a table is one into the map. -/
theorem Shows.insert (h : Shows m c) (capacity : Nat) {k : K} (hk : k ∉ c.map Prod.fst) (v : V) :
    ∃ m', Insert capacity m k v m' (Lru.insert capacity c k v).2 ∧
      Shows m' (Lru.insert capacity c k v).1 := by
  have huse := h.use hk v
  have hsize := huse.size_eq
  rw [List.length_append, List.length_singleton] at hsize
  by_cases hfull : capacity ≤ c.length + 1
  · obtain ⟨e, rest, hcons⟩ : ∃ e rest, c ++ [(k, v)] = e :: rest := by
      cases hc : c ++ [(k, v)] with
      | nil => simp at hc
      | cons e rest => exact ⟨e, rest, rfl⟩
    have hins : Lru.insert capacity c k v = (rest, some e) := by
      unfold Lru.insert
      simp only [List.length_append, List.length_singleton]
      rw [if_pos hfull, hcons]
      rfl
    rw [hins]
    rw [hcons] at huse
    have hrest : Lru.remove (e :: rest) e.1 = rest := List.eraseP_cons_of_pos (by simp)
    refine ⟨(m.use k v).drop e.1, ?_, ?_⟩
    · apply Insert.full (by omega)
      · -- the first entry of the table is the oldest
        refine ⟨huse.mem_keys_iff.mpr (by simp), ?_⟩
        intro j hj
        obtain ⟨d, hd, hdj⟩ := List.mem_map.mp (huse.mem_keys_iff.mp hj)
        rw [← hdj]
        rcases List.mem_cons.mp hd with hde | hdr
        · rw [hde]
        · exact Nat.le_of_lt (List.rel_of_pairwise_cons huse.order hdr)
      · exact (huse.mem_iff e.1 e.2).mp List.mem_cons_self
    · have hdrop := huse.drop e.1
      rwa [hrest] at hdrop
  · rw [Lru.insert_of_lt k v (by omega)]
    exact ⟨m.use k v, .room (by omega), huse⟩

/-- In a map with room for two, a new key is not dropped at once. -/
theorem Insert.ne {capacity : Nat} {k old : K} {v w : V} {m' : LruMap K V}
    (h : Insert capacity m k v m' (some (old, w))) (hcap : 2 ≤ capacity)
    (hused : ∀ j ∈ m.keys, m.used j < m.uses) : old ≠ k := by
  cases h with
  | full hfull oldest stored =>
    intro hold
    -- some other key was used before
    have hmany : 1 < (m.use k v).keys.ncard := by
      have h : capacity ≤ (m.use k v).keys.ncard := hfull
      omega
    obtain ⟨j, hj, hjk⟩ := Set.exists_ne_of_one_lt_ncard hmany k
    have hmem : j ∈ m.keys := by
      rw [mem_keys, get_use, Function.update_of_ne hjk] at hj
      exact hj
    have hle : (m.use k v).used old ≤ (m.use k v).used j := oldest.2 j hj
    rw [hold, used_use, Function.update_self, Function.update_of_ne hjk] at hle
    have hlt := hused j hmem
    omega

end Decidable

end LruMap

end OpenWrtCompile.Base
