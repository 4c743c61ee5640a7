import Mathlib.Data.List.Infix
import Mathlib.Data.List.Nodup
import Mathlib.Tactic.Common

/-!
# A bounded table in order of use

Entries are kept oldest first. A hit moves its entry to the end, and an insertion that fills the
table drops the first entry.
-/

namespace OpenWrtCompile.Base.Lru

universe u v

variable {K : Type u} {V : Type v}

/-- The value stored under a key. -/
def lookup [DecidableEq K] (c : List (K × V)) (k : K) : Option V :=
  (c.find? fun e ↦ e.1 = k).map Prod.snd

/-- Move the entry of a key to the end. -/
def touch [DecidableEq K] (c : List (K × V)) (k : K) : List (K × V) :=
  match c.find? fun e ↦ e.1 = k with
  | some e => (c.eraseP fun e ↦ e.1 = k) ++ [e]
  | none => c

/-- Move the entry of a key to the end, with a new value. -/
def refresh [DecidableEq K] (c : List (K × V)) (k : K) (f : V → V) : List (K × V) :=
  match lookup c k with
  | some v => (c.eraseP fun e ↦ e.1 = k) ++ [(k, f v)]
  | none => c

/-- Drop the entry of a key. -/
def remove [DecidableEq K] (c : List (K × V)) (k : K) : List (K × V) := c.eraseP fun e ↦ e.1 = k

/-- The table with a new entry, and the entry that had to go. -/
def insert (capacity : Nat) (c : List (K × V)) (k : K) (v : V) :
    List (K × V) × Option (K × V) :=
  let c := c ++ [(k, v)]
  if capacity ≤ c.length then (c.tail, c.head?) else (c, none)

/-- What is found is in the table. -/
theorem mem_of_lookup [DecidableEq K] {c : List (K × V)} {k : K} {v : V}
    (h : lookup c k = some v) : (k, v) ∈ c := by
  rcases Option.map_eq_some_iff.mp h with ⟨e, he, hv⟩
  have hk : e.1 = k := by simpa using List.find?_some he
  have hmem := List.mem_of_find?_eq_some he
  rw [← hk, ← hv]
  exact hmem

/-- A key that is not found is not in the table. -/
theorem not_mem_of_lookup [DecidableEq K] {c : List (K × V)} {k : K} (h : lookup c k = none) :
    k ∉ c.map Prod.fst := by
  rw [lookup, Option.map_eq_none_iff, List.find?_eq_none] at h
  intro hk
  rcases List.mem_map.mp hk with ⟨e, he, hek⟩
  exact h e he (by simpa using hek)

/-- Taking the first hit out and putting it back at the end only reorders a list. -/
theorem eraseP_append_perm {α : Type u} (p : α → Bool) (l : List α) {a : α}
    (h : l.find? p = some a) : (l.eraseP p ++ [a]).Perm l := by
  induction l with
  | nil => cases h
  | cons b l ih =>
    by_cases hb : p b = true
    · rw [List.find?_cons_of_pos hb] at h
      rw [List.eraseP_cons_of_pos hb, ← Option.some.inj h]
      exact List.perm_append_singleton b l
    · rw [List.find?_cons_of_neg hb] at h
      rw [List.eraseP_cons_of_neg hb]
      exact (ih h).cons b

/-- Moving an entry only reorders the table. -/
theorem touch_perm [DecidableEq K] (c : List (K × V)) (k : K) : (touch c k).Perm c := by
  unfold touch
  split
  · next e he => exact eraseP_append_perm _ c he
  · exact List.Perm.refl c

/-- An entry that is found, and the rest of the table. -/
theorem remove_append_perm [DecidableEq K] {c : List (K × V)} {k : K} {v : V}
    (h : lookup c k = some v) : (remove c k ++ [(k, v)]).Perm c := by
  obtain ⟨e, he, hv⟩ := Option.map_eq_some_iff.mp h
  have hk : e.1 = k := by simpa using List.find?_some he
  have hkv : e = (k, v) := by rw [← hk, ← hv]
  rw [hkv] at he
  exact eraseP_append_perm _ c he

/-- A key that is not in the table is not found. -/
theorem lookup_eq_none [DecidableEq K] {c : List (K × V)} {k : K} (h : k ∉ c.map Prod.fst) :
    lookup c k = none := by
  cases hl : lookup c k with
  | none => rfl
  | some v => exact absurd (List.mem_map_of_mem (mem_of_lookup hl)) h

/-- There is nothing to drop under a key that is not found. -/
theorem remove_of_lookup_eq_none [DecidableEq K] {c : List (K × V)} {k : K}
    (h : lookup c k = none) : remove c k = c := by
  apply List.eraseP_of_forall_not
  intro e he
  have hk := not_mem_of_lookup h
  intro hek
  apply hk
  rw [← of_decide_eq_true hek]
  exact List.mem_map_of_mem he

/-- What is left after an entry is dropped was there before. -/
theorem mem_of_mem_remove [DecidableEq K] {c : List (K × V)} {k : K} {e : K × V}
    (h : e ∈ remove c k) : e ∈ c :=
  List.mem_of_mem_eraseP h

/-- A table keeps only entries it had and the new one. -/
theorem mem_of_mem_insert {capacity : Nat} {c : List (K × V)} {k : K} {v : V} {e : K × V}
    (h : e ∈ (insert capacity c k v).1) : e ∈ c ∨ e = (k, v) := by
  unfold insert at h
  simp only at h
  have hmem : e ∈ c ++ [(k, v)] := by
    split at h
    · exact List.mem_of_mem_tail h
    · exact h
  rwa [List.mem_append, List.mem_singleton] at hmem

/-- An insertion into a table without room drops the first entry. -/
theorem insert_of_le {capacity : Nat} {e : K × V} {c : List (K × V)} (k : K) (v : V)
    (h : capacity ≤ (e :: c).length + 1) :
    insert capacity (e :: c) k v = (c ++ [(k, v)], some e) := by
  unfold insert
  simp only [List.length_append, List.length_singleton]
  rw [if_pos h]
  rfl

/-- An insertion either keeps everything or drops the first entry. -/
theorem insert_cases (capacity : Nat) (c : List (K × V)) (k : K) (v : V) :
    insert capacity c k v = (c ++ [(k, v)], none) ∨
      ∃ e rest, c ++ [(k, v)] = e :: rest ∧ insert capacity c k v = (rest, some e) ∧
        capacity ≤ c.length + 1 := by
  unfold insert
  simp only [List.length_append, List.length_singleton]
  by_cases hfull : capacity ≤ c.length + 1
  · rw [if_pos hfull]
    cases hl : c ++ [(k, v)] with
    | nil => simp at hl
    | cons e rest => exact .inr ⟨e, rest, rfl, rfl, hfull⟩
  · rw [if_neg hfull]
    exact .inl rfl

/-- A table after an insertion is part of the table with the new entry. -/
theorem insert_sublist (capacity : Nat) (c : List (K × V)) (k : K) (v : V) :
    (insert capacity c k v).1.Sublist (c ++ [(k, v)]) := by
  rcases insert_cases capacity c k v with h | ⟨e, rest, hcons, h, -⟩
  · rw [h]
  · rw [h, hcons]
    exact List.sublist_cons_self e rest

/-- A table with room keeps room. -/
theorem length_insert_lt {capacity : Nat} {c : List (K × V)} (k : K) (v : V)
    (h : c.length < capacity) : (insert capacity c k v).1.length < capacity := by
  unfold insert
  simp only [List.length_append, List.length_singleton]
  split
  · simp only [List.length_tail, List.length_append, List.length_singleton]
    omega
  · next hroom =>
    simp only [List.length_append, List.length_singleton]
    omega

/-- A table that is refreshed keeps its keys. -/
theorem map_fst_refresh [DecidableEq K] (c : List (K × V)) (k : K) (f : V → V) :
    ((refresh c k f).map Prod.fst).Perm (c.map Prod.fst) := by
  unfold refresh
  cases h : lookup c k with
  | none => exact List.Perm.refl _
  | some v =>
    have hperm := (remove_append_perm h).map Prod.fst
    rw [List.map_append, List.map_singleton] at hperm ⊢
    exact hperm

/-- A table that is refreshed keeps its length. -/
theorem length_refresh [DecidableEq K] (c : List (K × V)) (k : K) (f : V → V) :
    (refresh c k f).length = c.length := by
  have hperm := (map_fst_refresh c k f).length_eq
  rwa [List.length_map, List.length_map] at hperm

/-- An entry of a refreshed table was there before, or is the new value of one that was. -/
theorem mem_of_mem_refresh [DecidableEq K] {c : List (K × V)} {k : K} {f : V → V} {e : K × V}
    (h : e ∈ refresh c k f) : e ∈ c ∨ ∃ v, (k, v) ∈ c ∧ e = (k, f v) := by
  unfold refresh at h
  cases hl : lookup c k with
  | none =>
    rw [hl] at h
    exact .inl h
  | some v =>
    rw [hl] at h
    rcases List.mem_append.mp h with hold | hnew
    · exact .inl (List.mem_of_mem_eraseP hold)
    · exact .inr ⟨v, mem_of_lookup hl, List.mem_singleton.mp hnew⟩

section Distinct

variable [DecidableEq K]

/-- A table with distinct keys has what is in it under its key. -/
theorem lookup_of_mem {c : List (K × V)} {k : K} {v : V} (hn : (c.map Prod.fst).Nodup)
    (h : (k, v) ∈ c) : lookup c k = some v := by
  induction c with
  | nil => cases h
  | cons e c ih =>
    rw [List.map_cons, List.nodup_cons] at hn
    rcases List.mem_cons.mp h with he | hc
    · rw [lookup, ← he, List.find?_cons_of_pos (by simp)]
      rfl
    · have hne : e.1 ≠ k := by
        intro hek
        apply hn.1
        rw [hek]
        exact List.mem_map_of_mem hc
      rw [lookup, List.find?_cons_of_neg (by simpa using hne)]
      exact ih hn.2 hc

/-- Dropping an entry leaves distinct keys distinct. -/
theorem nodup_remove {c : List (K × V)} (hn : (c.map Prod.fst).Nodup) (k : K) :
    ((remove c k).map Prod.fst).Nodup :=
  hn.sublist (List.eraseP_sublist.map Prod.fst)

/-- In a table with distinct keys the entry of a key is dropped and no other. -/
theorem mem_remove_iff {c : List (K × V)} (hn : (c.map Prod.fst).Nodup) {k : K} {e : K × V} :
    e ∈ remove c k ↔ e ∈ c ∧ e.1 ≠ k := by
  induction c with
  | nil => simp [remove]
  | cons b c ih =>
    rw [List.map_cons, List.nodup_cons] at hn
    have hrest := ih hn.2
    unfold remove at hrest ⊢
    by_cases hb : b.1 = k
    · rw [List.eraseP_cons_of_pos (by simpa using hb), List.mem_cons]
      have hout : ∀ x ∈ c, x.1 ≠ k := by
        intro x hx hxk
        apply hn.1
        rw [hb, ← hxk]
        exact List.mem_map_of_mem hx
      constructor
      · intro he
        exact ⟨.inr he, hout e he⟩
      · intro he
        apply he.1.resolve_left
        intro heb
        rw [heb] at he
        exact he.2 hb
    · rw [List.eraseP_cons_of_neg (by simpa using hb), List.mem_cons, List.mem_cons, hrest]
      constructor
      · rintro (heb | ⟨he, hk⟩)
        · exact ⟨.inl heb, by rw [heb]; exact hb⟩
        · exact ⟨.inr he, hk⟩
      · rintro ⟨heb | he, hk⟩
        · exact .inl heb
        · exact .inr ⟨he, hk⟩

/-- Dropping the entry of a key keeps the other entries in their order. -/
theorem remove_eq_filter [DecidableEq V] {c : List (K × V)} (hn : (c.map Prod.fst).Nodup) {k : K}
    {v : V} (h : (k, v) ∈ c) : remove c k = c.filter fun e ↦ e ≠ (k, v) := by
  induction c with
  | nil => cases h
  | cons b c ih =>
    rw [List.map_cons, List.nodup_cons] at hn
    unfold remove at ih ⊢
    have hout : ∀ x ∈ c, b.1 = x.1 → False := by
      intro x hx hbx
      apply hn.1
      rw [hbx]
      exact List.mem_map_of_mem hx
    rcases List.mem_cons.mp h with hb | hc
    · rw [← hb, List.eraseP_cons_of_pos (by simp), List.filter_cons_of_neg (by simp)]
      refine (List.filter_eq_self.mpr ?_).symm
      intro x hx
      have hne : x ≠ (k, v) := fun hxk ↦ hout x hx (by rw [← hb, hxk])
      simpa using hne
    · have hk : b.1 ≠ k := fun hbk ↦ hout (k, v) hc hbk
      have hne : b ≠ (k, v) := fun hb ↦ hk (by rw [hb])
      rw [List.eraseP_cons_of_neg (by simpa using hk), List.filter_cons_of_pos (by simpa using hne),
        ih hn.2 hc]

end Distinct

/-- An insertion into a table with room keeps everything. -/
theorem insert_of_lt {capacity : Nat} {c : List (K × V)} (k : K) (v : V)
    (h : c.length + 1 < capacity) : insert capacity c k v = (c ++ [(k, v)], none) := by
  unfold insert
  simp only [List.length_append, List.length_singleton]
  rw [if_neg (by omega)]

end OpenWrtCompile.Base.Lru
