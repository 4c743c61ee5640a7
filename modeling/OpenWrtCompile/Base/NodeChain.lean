import Mathlib.Tactic.Common

/-!
# Chains of nodes in a heap

Singly linked nodes at addresses of a heap. `Path h p as` follows the links from the node at `p`
through the addresses `as`; a `Chain` is a path whose last node has no link. Linking a new node in
behind any node of a chain, and taking out the node behind any other, change the addresses of the
chain as the same edit changes a list.
-/

namespace OpenWrtCompile.Base

universe u v

variable {α : Type u} {δ : Type v}

/-- A node with what it carries and its link. -/
structure Cell (α : Type u) (δ : Type v) where
  data : δ
  next : Option α

/-- The nodes that are allocated. -/
abbrev Heap (α : Type u) (δ : Type v) := α → Option (Cell α δ)

namespace Heap
variable [DecidableEq α]

/-- A node at `p`, new or overwritten. -/
def set (h : Heap α δ) (p : α) (c : Cell α δ) : Heap α δ := Function.update h p (some c)

/-- The node at `p` is given back. -/
def free (h : Heap α δ) (p : α) : Heap α δ := Function.update h p none

/-- `p->next = q`, for an allocated `p`. -/
def setNext (h : Heap α δ) (p : α) (q : Option α) : Option (Heap α δ) :=
  (h p).map fun c ↦ h.set p { c with next := q }

/-- `p->data = d`, for an allocated `p`. -/
def setData (h : Heap α δ) (p : α) (d : δ) : Option (Heap α δ) :=
  (h p).map fun c ↦ h.set p { c with data := d }

/-- The links from `p` lead through exactly these nodes, and perhaps further. -/
def Path (h : Heap α δ) : α → List α → Prop
  | _, [] => True
  | p, a :: as => (∃ d, h p = some ⟨d, some a⟩) ∧ Path h a as

/-- The links from `p` lead through exactly these nodes and end. -/
def Chain (h : Heap α δ) (p : α) (as : List α) : Prop :=
  h.Path p as ∧ ∃ d, h (as.getLastD p) = some ⟨d, none⟩

@[simp] theorem set_self (h : Heap α δ) (p : α) (c : Cell α δ) : h.set p c p = some c :=
  Function.update_self ..

theorem set_of_ne (h : Heap α δ) {p q : α} (c : Cell α δ) (hq : q ≠ p) : h.set p c q = h q :=
  Function.update_of_ne hq ..

@[simp] theorem free_self (h : Heap α δ) (p : α) : h.free p p = none := Function.update_self ..

theorem free_of_ne (h : Heap α δ) {p q : α} (hq : q ≠ p) : h.free p q = h q :=
  Function.update_of_ne hq ..

/-- The link of an allocated node can be written. -/
theorem setNext_of_some {h : Heap α δ} {p : α} {c : Cell α δ} (hp : h p = some c) (q : Option α) :
    h.setNext p q = some (h.set p { c with next := q }) := by
  rw [setNext, hp]
  rfl

/-- The data of an allocated node can be written. -/
theorem setData_of_some {h : Heap α δ} {p : α} {c : Cell α δ} (hp : h p = some c) (d : δ) :
    h.setData p d = some (h.set p { c with data := d }) := by
  rw [setData, hp]
  rfl

/-- The links are as before then. -/
theorem next_set_data {h : Heap α δ} {p : α} {c : Cell α δ} (hp : h p = some c) (d : δ) (q : α) :
    (h.set p { c with data := d } q).map Cell.next = (h q).map Cell.next := by
  by_cases hq : q = p
  · rw [hq, set_self, hp]
    rfl
  · rw [set_of_ne _ _ hq]

/-! ### Following links -/

omit [DecidableEq α] in
theorem getLastD_mem (p : α) (as : List α) : as.getLastD p ∈ p :: as := by
  induction as generalizing p with
  | nil => simp
  | cons a as ih =>
    rw [List.getLastD_cons]
    exact List.mem_cons_of_mem p (ih a)

omit [DecidableEq α] in
theorem getLastD_append (p : α) (as bs : List α) :
    (as ++ bs).getLastD p = bs.getLastD (as.getLastD p) := by
  induction as generalizing p with
  | nil => rfl
  | cons a as ih => rw [List.cons_append, List.getLastD_cons, List.getLastD_cons, ih]

omit [DecidableEq α] in
/-- A path can be followed in two parts. -/
theorem path_append {h : Heap α δ} {p : α} {as bs : List α} :
    h.Path p (as ++ bs) ↔ h.Path p as ∧ h.Path (as.getLastD p) bs := by
  induction as generalizing p with
  | nil => simp [Path]
  | cons a as ih => rw [List.cons_append, Path, Path, ih, List.getLastD_cons, and_assoc]

omit [DecidableEq α] in
/-- What a chain passes through starts a chain. -/
theorem chain_append {h : Heap α δ} {p : α} {as bs : List α} :
    h.Chain p (as ++ bs) ↔ h.Path p as ∧ h.Chain (as.getLastD p) bs := by
  rw [Chain, Chain, path_append, getLastD_append, and_assoc]

omit [DecidableEq α] in
theorem chain_nil {h : Heap α δ} {p : α} : h.Chain p [] ↔ ∃ d, h p = some ⟨d, none⟩ := by
  simp [Chain, Path]

omit [DecidableEq α] in
theorem chain_cons {h : Heap α δ} {p a : α} {as : List α} :
    h.Chain p (a :: as) ↔ (∃ d, h p = some ⟨d, some a⟩) ∧ h.Chain a as := by
  rw [Chain, Chain, Path, List.getLastD_cons, and_assoc]

omit [DecidableEq α] in
/-- The node at the start of a chain is allocated, and its link leads to the next. -/
theorem Chain.start {h : Heap α δ} {p : α} {as : List α} (hc : h.Chain p as) :
    ∃ d, h p = some ⟨d, as.head?⟩ := by
  cases as with
  | nil => exact chain_nil.mp hc
  | cons a as => exact (chain_cons.mp hc).1

omit [DecidableEq α] in
/-- A link that is the same in another heap. -/
theorem exists_data_iff {h h' : Heap α δ} {p : α} (hp : (h' p).map Cell.next = (h p).map Cell.next)
    (q : Option α) : (∃ d, h' p = some ⟨d, q⟩) ↔ ∃ d, h p = some ⟨d, q⟩ := by
  have hnext : ∀ x : Option (Cell α δ), (∃ d, x = some ⟨d, q⟩) ↔ x.map Cell.next = some q := by
    intro x
    cases x with
    | none => simp
    | some c =>
      constructor
      · rintro ⟨d, hd⟩
        rw [hd]
        rfl
      · intro hq
        exact ⟨c.data, by rw [← Option.some.inj hq]⟩
  rw [hnext, hnext, hp]

omit [DecidableEq α] in
/-- A chain depends on the links alone. -/
theorem Chain.congr {h h' : Heap α δ} (hnext : ∀ p, (h' p).map Cell.next = (h p).map Cell.next)
    {p : α} {as : List α} (hc : h.Chain p as) : h'.Chain p as := by
  induction as generalizing p with
  | nil => exact chain_nil.mpr ((exists_data_iff (hnext p) none).mpr (chain_nil.mp hc))
  | cons a as ih =>
    obtain ⟨hlink, hrest⟩ := chain_cons.mp hc
    exact chain_cons.mpr ⟨(exists_data_iff (hnext p) (some a)).mpr hlink, ih hrest⟩

/-- Nodes off the path do not matter to it. -/
theorem Path.update {h : Heap α δ} {p q : α} {as : List α} (hp : h.Path p as) (hq : q ∉ p :: as)
    (x : Option (Cell α δ)) : Path (Function.update h q x) p as := by
  induction as generalizing p with
  | nil => trivial
  | cons a as ih =>
    have hne : p ≠ q := fun he ↦ hq (he ▸ List.mem_cons_self)
    refine ⟨?_, ih hp.2 fun hm ↦ hq (List.mem_cons_of_mem p hm)⟩
    rw [Function.update_of_ne hne]
    exact hp.1

/-- Neither does the node at its end, which it does not pass before. -/
theorem Path.update_last {h : Heap α δ} {p : α} {as : List α} (hp : h.Path p as)
    (hnd : (p :: as).Nodup) (x : Option (Cell α δ)) :
    Path (Function.update h (as.getLastD p) x) p as := by
  induction as generalizing p with
  | nil => trivial
  | cons a as ih =>
    rw [List.nodup_cons] at hnd
    rw [List.getLastD_cons]
    have hne : p ≠ as.getLastD a := fun he ↦ hnd.1 (he ▸ getLastD_mem a as)
    refine ⟨?_, ih hp.2 hnd.2⟩
    rw [Function.update_of_ne hne]
    exact hp.1

/-- Nodes off a chain do not matter to it. -/
theorem Chain.update {h : Heap α δ} {p q : α} {as : List α} (hc : h.Chain p as) (hq : q ∉ p :: as)
    (x : Option (Cell α δ)) : Chain (Function.update h q x) p as := by
  refine ⟨hc.1.update hq x, ?_⟩
  have hne : as.getLastD p ≠ q := fun he ↦ hq (he ▸ getLastD_mem p as)
  rw [Function.update_of_ne hne]
  exact hc.2

omit [DecidableEq α] in
/-- The two parts of a chain have no node in common, and none twice. -/
theorem nodup_cut {p : α} {as bs : List α} :
    (p :: (as ++ bs)).Nodup ↔ (p :: as).Nodup ∧ bs.Nodup ∧ ∀ b ∈ bs, b ∉ p :: as := by
  rw [← List.cons_append, List.nodup_append]
  constructor
  · rintro ⟨h₁, h₂, hne⟩
    exact ⟨h₁, h₂, fun b hb hm ↦ hne b hm b hb rfl⟩
  · rintro ⟨h₁, h₂, hoff⟩
    exact ⟨h₁, h₂, fun a ha b hb he ↦ hoff b hb (he ▸ ha)⟩

/-! ### The two edits -/

/-- A new node behind a node of a chain. -/
theorem Chain.insert {h : Heap α δ} {p a : α} {as bs : List α} {c : Cell α δ} {d : δ}
    (hc : h.Chain p (as ++ bs)) (hnd : (p :: (as ++ bs)).Nodup) (ha : a ∉ p :: (as ++ bs))
    (hq : h (as.getLastD p) = some c) :
    ((h.set a ⟨d, c.next⟩).set (as.getLastD p) { c with next := some a }).Chain p
      (as ++ a :: bs) := by
  obtain ⟨hpath, hrest⟩ := chain_append.mp hc
  have hmem : as.getLastD p ∈ p :: as := getLastD_mem p as
  have hap : a ∉ p :: as := fun hm ↦ ha (List.cons_append ▸ List.mem_append_left bs hm)
  have haq : a ≠ as.getLastD p := fun he ↦ hap (he ▸ hmem)
  refine chain_append.mpr ⟨?_, ?_⟩
  · exact (hpath.update hap _).update_last (nodup_cut.mp hnd).1 _
  · refine chain_cons.mpr ⟨⟨c.data, set_self ..⟩, ?_⟩
    cases bs with
    | nil =>
      obtain ⟨e, he⟩ := chain_nil.mp hrest
      rw [hq] at he
      cases he
      refine chain_nil.mpr ⟨d, ?_⟩
      rw [set_of_ne _ _ haq, set_self]
    | cons b bs =>
      obtain ⟨⟨e, he⟩, htail⟩ := chain_cons.mp hrest
      rw [hq] at he
      cases he
      refine chain_cons.mpr ⟨⟨d, ?_⟩, ?_⟩
      · rw [set_of_ne _ _ haq, set_self]
      · have hab : a ∉ b :: bs := fun hm ↦
          ha (List.mem_cons_of_mem p (List.mem_append_right as hm))
        have hqb : as.getLastD p ∉ b :: bs := fun hm ↦ (nodup_cut.mp hnd).2.2 _ hm hmem
        exact (htail.update hab _).update hqb _

/-- A chain without the node behind one of its nodes. -/
theorem Chain.remove {h : Heap α δ} {p a : α} {as bs : List α} {e : Cell α δ} (c : Cell α δ)
    (hc : h.Chain p (as ++ a :: bs)) (hnd : (p :: (as ++ a :: bs)).Nodup) (he : h a = some e) :
    ((h.set (as.getLastD p) { c with next := e.next }).free a).Chain p (as ++ bs) := by
  obtain ⟨hpath, hrest⟩ := chain_append.mp hc
  have hmem : as.getLastD p ∈ p :: as := getLastD_mem p as
  obtain ⟨hfront, hback, hoff⟩ := nodup_cut.mp hnd
  have hap : a ∉ p :: as := hoff a List.mem_cons_self
  have hqa : as.getLastD p ≠ a := fun h ↦ hap (h ▸ hmem)
  have hqbs : as.getLastD p ∉ bs := fun hm ↦ hoff _ (List.mem_cons_of_mem a hm) hmem
  refine chain_append.mpr ⟨?_, ?_⟩
  · exact (hpath.update_last hfront _).update hap _
  · obtain ⟨-, hafter⟩ := chain_cons.mp hrest
    obtain ⟨d, hd⟩ := hafter.start
    rw [he] at hd
    cases hd
    cases bs with
    | nil =>
      refine chain_nil.mpr ⟨c.data, ?_⟩
      rw [free_of_ne _ hqa, set_self]
      rfl
    | cons b bs =>
      refine chain_cons.mpr ⟨⟨c.data, ?_⟩, ?_⟩
      · rw [free_of_ne _ hqa, set_self]
        rfl
      · exact ((chain_cons.mp hafter).2.update hqbs _).update (List.nodup_cons.mp hback).1 _

end Heap

end OpenWrtCompile.Base
