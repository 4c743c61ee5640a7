import OpenWrtCompile.Base.NodeChain
import OpenWrtCompile.Base.Run
import OpenWrtCompile.Obfs.Tls12Ticket
import Mathlib.Data.List.Nodup

/-!
# The list of client ids

`shadowsocksr-libev/src/server/list.c`: the linked list in which the TLS ticket plugin keeps the
ids it has seen. Nodes and data blocks live in memory, and every access to memory that is not
allocated ends the run. What `malloc` answers is part of the call, `none` being `NULL`.
-/

namespace OpenWrtCompile.Server
open OpenWrtCompile.Base

/-- `struct clist` with the memory behind it. A node carries the address of its data block, the
node at `head` carries none. `mallocs` counts the nodes ever added. -/
structure Clist where
  nodes : Heap Nat (Option Nat)
  blocks : Nat → Option Bytes
  mallocs : Nat
  head : Nat
  tail : Nat
  size : Nat
  dataSize : Nat

/-- `list_init`, with the head node at `head`. -/
def listInit (dataSize head : Nat) : Clist where
  nodes := Heap.set (fun _ ↦ none) head ⟨none, none⟩
  blocks := fun _ ↦ none
  mallocs := 0
  head := head
  tail := head
  size := 0
  dataSize := dataSize

/-- The `n` bytes that `memcpy` takes from a block. -/
def copied (src : Bytes) (n : Nat) : Option Bytes :=
  if n ≤ src.length then some (src.take n) else none

/-- `list_add_back`. -/
def listAddBack (l : Clist) (node block : Option Nat) (data : Bytes) : Option (Clist × Bool) :=
  match node with
  | none => some (l, false)
  | some a => do
    let b ← block
    let bytes ← copied data l.dataSize
    let nodes ← (l.nodes.set a ⟨some b, none⟩).setNext l.tail (some a)
    some ({ l with
      nodes := nodes
      blocks := Function.update l.blocks b (some bytes)
      mallocs := l.mallocs + 1
      tail := a
      size := (l.size + 1) % 2 ^ 32 }, true)

/-- `list_add_front`. -/
def listAddFront (l : Clist) (node block : Option Nat) (data : Bytes) : Option (Clist × Bool) :=
  match node with
  | none => some (l, false)
  | some a => do
    let b ← block
    let bytes ← copied data l.dataSize
    let head ← l.nodes l.head
    let nodes ← (l.nodes.set a ⟨some b, head.next⟩).setNext l.head (some a)
    some ({ l with
      nodes := nodes
      blocks := Function.update l.blocks b (some bytes)
      mallocs := l.mallocs + 1
      tail := if l.size = 0 then a else l.tail
      size := (l.size + 1) % 2 ^ 32 }, true)

/-- `free` of a data block. -/
def freeBlock (blocks : Nat → Option Bytes) : Option Nat → Option (Nat → Option Bytes)
  | none => some blocks
  | some b => (blocks b).map fun _ ↦ Function.update blocks b none

/-- The end of both deletions: `tail` has its new value, `prev->next = prev->next->next`, the node
and its data are given back. -/
def unlink (l : Clist) (tail prev curr : Nat) : Option Clist := do
  let p ← l.nodes prev
  let q ← p.next
  let n ← l.nodes q
  let nodes ← l.nodes.setNext prev n.next
  let c ← nodes curr
  let blocks ← freeBlock l.blocks c.data
  some { l with
    nodes := nodes.free curr
    blocks := blocks
    tail := tail
    size := (l.size + (2 ^ 32 - 1)) % 2 ^ 32 }

/-- The loop of `list_delete_node`. -/
def deleteLoop (l : Clist) (pfunc : Bytes → Bool) : Nat → Nat → Option Nat → Option (Clist × Bool)
  | 0, _, _ => none
  | _ + 1, _, none => some (l, false)
  | fuel + 1, prev, some curr => do
    let n ← l.nodes curr
    let data ← n.data
    let bytes ← l.blocks data
    if pfunc bytes then
      let l' ← unlink l (if curr = l.tail then prev else l.tail) prev curr
      some (l', true)
    else
      let p ← l.nodes prev
      let next ← p.next
      deleteLoop l pfunc fuel next n.next

/-- `list_delete_node`, `pfunc` with its second argument. -/
def listDeleteNode (l : Clist) (pfunc : Bytes → Bool) : Option (Clist × Bool) := do
  let head ← l.nodes l.head
  deleteLoop l pfunc (l.mallocs + 1) l.head head.next

/-- The loop of `list_delete_at`: `prev` and `curr` after `index` steps. -/
def deleteAtLoop (l : Clist) : Nat → Nat → Option Nat → Option (Nat × Option Nat)
  | 0, prev, curr => some (prev, curr)
  | k + 1, prev, curr => do
    let p ← l.nodes prev
    let next ← p.next
    let c ← curr
    let n ← l.nodes c
    deleteAtLoop l k next n.next

/-- `list_delete_at`. -/
def listDeleteAt (l : Clist) (index : Nat) : Option (Clist × Bool) :=
  if index < l.size then do
    let head ← l.nodes l.head
    let found ← deleteAtLoop l index l.head head.next
    let curr ← found.2
    let l' ← unlink l (if index = l.size - 1 then found.1 else l.tail) found.1 curr
    some (l', true)
  else some (l, false)

/-- The loop of `list_modify_at`: `curr` after `index` steps. -/
def modifyAtLoop (l : Clist) : Nat → Option Nat → Option (Option Nat)
  | 0, curr => some curr
  | k + 1, curr => do
    let c ← curr
    let n ← l.nodes c
    modifyAtLoop l k n.next

/-- `list_modify_at`. -/
def listModifyAt (l : Clist) (index : Nat) (newData : Bytes) : Option (Clist × Bool) :=
  if index < l.size then do
    let head ← l.nodes l.head
    let found ← modifyAtLoop l index head.next
    let curr ← found
    let n ← l.nodes curr
    let data ← n.data
    let old ← l.blocks data
    let bytes ← copied newData l.dataSize
    if l.dataSize ≤ old.length then
      some ({ l with blocks := Function.update l.blocks data (some (store old 0 bytes)) }, true)
    else none
  else some (l, false)

/-- The loop of `list_clear`: the memory after everything from `curr` on is given back. -/
def clearLoop (nodes : Heap Nat (Option Nat)) (blocks : Nat → Option Bytes) :
    Nat → Option Nat → Option (Heap Nat (Option Nat) × (Nat → Option Bytes))
  | 0, _ => none
  | _ + 1, none => some (nodes, blocks)
  | fuel + 1, some curr => do
    let n ← nodes curr
    let rest ← freeBlock blocks n.data
    clearLoop (nodes.free curr) rest fuel n.next

/-- `list_clear`. -/
def listClear (l : Clist) : Option Clist := do
  let head ← l.nodes l.head
  let cleared ← clearLoop l.nodes l.blocks (l.mallocs + 1) head.next
  let nodes ← cleared.1.setNext l.head none
  some { l with nodes := nodes, blocks := cleared.2, tail := l.head, size := 0 }

/-- The loop of both searches: the first node whose data passes `test` ends it. -/
def haveSameLoop (l : Clist) (test : Bytes → Option Bool) : Nat → Option Nat → Option Bool
  | 0, _ => none
  | _ + 1, none => some false
  | fuel + 1, some curr => do
    let n ← l.nodes curr
    let data ← n.data
    let bytes ← l.blocks data
    let found ← test bytes
    if found then some true else haveSameLoop l test fuel n.next

/-- `list_have_same`. -/
def listHaveSame (l : Clist) (pfunc : Bytes → Bool) : Option Bool := do
  let head ← l.nodes l.head
  haveSameLoop l (fun bytes ↦ some (pfunc bytes)) (l.mallocs + 1) head.next

/-- `memcmp(a, b, n) != 0`. -/
def memcmpNe (a b : Bytes) (n : Nat) : Option Bool :=
  if n ≤ a.length ∧ n ≤ b.length then some (decide (a.take n ≠ b.take n)) else none

/-- `list_have_same_cmp`. -/
def listHaveSameCmp (l : Clist) (data : Bytes) : Option Bool := do
  let head ← l.nodes l.head
  haveSameLoop l (fun bytes ↦ memcmpNe bytes data l.dataSize) (l.mallocs + 1) head.next

/-- A call that changes the list. -/
inductive ListOp where
  | addBack (node block : Option Nat) (data : Bytes)
  | addFront (node block : Option Nat) (data : Bytes)
  | deleteNode (pfunc : Bytes → Bool)
  | deleteAt (index : Nat)
  | modifyAt (index : Nat) (newData : Bytes)
  | clear

/-- One call. -/
def listStep (l : Clist) : ListOp → Option Clist
  | .addBack node block data => (listAddBack l node block data).map Prod.fst
  | .addFront node block data => (listAddFront l node block data).map Prod.fst
  | .deleteNode pfunc => (listDeleteNode l pfunc).map Prod.fst
  | .deleteAt index => (listDeleteAt l index).map Prod.fst
  | .modifyAt index newData => (listModifyAt l index newData).map Prod.fst
  | .clear => listClear l

/-- What `malloc` and the caller promise an addition: the addresses are new, the data is there, and
the count stays below what an `unsigned int` holds. Only the node is checked for `NULL`. -/
def AddFits (l : Clist) (node block : Option Nat) (data : Bytes) : Prop :=
  ∀ a, node = some a → l.nodes a = none ∧ (∃ b, block = some b ∧ l.blocks b = none) ∧
    l.dataSize ≤ data.length ∧ l.size + 1 < 2 ^ 32

/-- What a call needs. -/
def OpFits (l : Clist) : ListOp → Prop
  | .addBack node block data => AddFits l node block data
  | .addFront node block data => AddFits l node block data
  | .modifyAt _ newData => l.dataSize ≤ newData.length
  | _ => True

/-- What the call means for the elements, `n` bytes each. -/
def elementsStep (n : Nat) (xs : List Bytes) : ListOp → List Bytes
  | .addBack node _ data => if node.isSome then xs ++ [data.take n] else xs
  | .addFront node _ data => if node.isSome then data.take n :: xs else xs
  | .deleteNode pfunc => xs.eraseP pfunc
  | .deleteAt index => xs.eraseIdx index
  | .modifyAt index newData => xs.set index (newData.take n)
  | .clear => []

/-- The elements after these calls. -/
def elements (n : Nat) (ops : List ListOp) : List Bytes := ops.foldl (elementsStep n) []

/-! ### The shape of a list in memory -/

/-- A node of the list, its data block and what that holds. -/
structure Entry where
  node : Nat
  block : Nat
  bytes : Bytes

/-- The list in memory has exactly these entries. -/
structure Shape (l : Clist) (es : List Entry) : Prop where
  chain : l.nodes.Chain l.head (es.map Entry.node)
  nodup : (l.head :: es.map Entry.node).Nodup
  datas : ∀ e ∈ es, (l.nodes e.node).map Cell.data = some (some e.block)
  blocks_nodup : (es.map Entry.block).Nodup
  stored : ∀ e ∈ es, l.blocks e.block = some e.bytes
  lengths : ∀ e ∈ es, e.bytes.length = l.dataSize
  tail : l.tail = (es.map Entry.node).getLastD l.head
  size : l.size = es.length
  mallocs : es.length ≤ l.mallocs
  bound : es.length < 2 ^ 32

/-- The list in memory holds these elements. -/
def ListHolds (l : Clist) (xs : List Bytes) : Prop := ∃ es, Shape l es ∧ es.map Entry.bytes = xs

/-- The node in front of an entry. -/
def prevNode (l : Clist) (es : List Entry) : Nat := (es.map Entry.node).getLastD l.head

namespace Shape
variable {l : Clist} {es es₁ es₂ : List Entry} {e : Entry}

/-- The node in front of some entries leads to the first of them. -/
theorem prev_at (h : Shape l (es₁ ++ es₂)) :
    ∃ d, l.nodes (prevNode l es₁) = some ⟨d, es₂.head?.map Entry.node⟩ := by
  have hc := h.chain
  rw [List.map_append] at hc
  obtain ⟨d, hd⟩ := (Heap.chain_append.mp hc).2.start
  exact ⟨d, by rw [← List.head?_map]; exact hd⟩

/-- The node of an entry. -/
theorem node_at (h : Shape l (es₁ ++ e :: es₂)) :
    l.nodes e.node = some ⟨some e.block, es₂.head?.map Entry.node⟩ := by
  have hc := h.chain
  rw [List.map_append, List.map_cons] at hc
  obtain ⟨d, hd⟩ := (Heap.chain_cons.mp (Heap.chain_append.mp hc).2).2.start
  have hdata := h.datas e (by simp)
  rw [hd] at hdata
  rw [hd, ← List.head?_map]
  cases hdata
  rfl

/-- The nodes of the list are allocated. -/
theorem nodes_ne_none (h : Shape l es) {p : Nat} (hp : p ∈ l.head :: es.map Entry.node) :
    l.nodes p ≠ none := by
  rcases List.mem_cons.mp hp with rfl | hp
  · obtain ⟨d, hd⟩ := h.chain.start
    simp [hd]
  · obtain ⟨e, he, rfl⟩ := List.mem_map.mp hp
    intro hnone
    have := h.datas e he
    simp [hnone] at this

theorem prevNode_mem : prevNode l es₁ ∈ l.head :: (es₁ ++ es₂).map Entry.node := by
  rw [List.map_append, ← List.cons_append]
  exact List.mem_append_left _ (Heap.getLastD_mem ..)

/-- What stands behind an entry decides the last node. -/
theorem getLastD_ite (p : Nat) (e : Entry) (es : List Entry) :
    ((e :: es).map Entry.node).getLastD p =
      if es = [] then e.node else (es.map Entry.node).getLastD p := by
  cases es <;> rfl

/-- A list with one more entry. -/
theorem insert (h : Shape l (es₁ ++ es₂)) {a b : Nat} (tail : Nat) {bytes : Bytes}
    {c : Cell Nat (Option Nat)} (ha : l.nodes a = none) (hb : l.blocks b = none)
    (hc : l.nodes (prevNode l es₁) = some c) (hlen : bytes.length = l.dataSize)
    (hbound : l.size + 1 < 2 ^ 32) (htail : tail = if es₂ = [] then a else l.tail) :
    Shape { l with
      nodes := (l.nodes.set a ⟨some b, c.next⟩).set (prevNode l es₁) { c with next := some a }
      blocks := Function.update l.blocks b (some bytes)
      mallocs := l.mallocs + 1
      tail := tail
      size := (l.size + 1) % 2 ^ 32 } (es₁ ++ ⟨a, b, bytes⟩ :: es₂) := by
  have hnew : a ∉ l.head :: (es₁ ++ es₂).map Entry.node := fun hm ↦ h.nodes_ne_none hm ha
  have hfresh : b ∉ (es₁ ++ es₂).map Entry.block := by
    intro hm
    obtain ⟨e, he, rfl⟩ := List.mem_map.mp hm
    rw [h.stored e he] at hb
    contradiction
  have hchain := h.chain
  have hnd := h.nodup
  have hndb := h.blocks_nodup
  have hsize := h.size
  have hmem (e : Entry) : e ∈ es₁ ++ (⟨a, b, bytes⟩ : Entry) :: es₂ ↔
      e = ⟨a, b, bytes⟩ ∨ e ∈ es₁ ++ es₂ := by simp only [List.mem_append, List.mem_cons]; tauto
  have hlength : (es₁ ++ (⟨a, b, bytes⟩ : Entry) :: es₂).length = (es₁ ++ es₂).length + 1 := by
    simp only [List.length_append, List.length_cons]
    omega
  rw [List.map_append] at hchain hnd hnew hndb hfresh
  constructor
  · simp only [List.map_append, List.map_cons]
    exact hchain.insert hnd hnew hc
  · simp only [List.map_append, List.map_cons]
    rw [← List.cons_append, List.nodup_middle, List.cons_append, List.nodup_cons]
    exact ⟨hnew, hnd⟩
  · intro e he
    have hap : a ≠ prevNode l es₁ := fun hp ↦ h.nodes_ne_none prevNode_mem (hp ▸ ha)
    rcases (hmem e).mp he with rfl | he
    · show ((l.nodes.set a _).set _ _ a).map Cell.data = _
      rw [Heap.set_of_ne _ _ hap, Heap.set_self]
      rfl
    · have hea : e.node ≠ a := by
        intro hea
        have := h.datas e he
        simp [hea, ha] at this
      by_cases hep : e.node = prevNode l es₁
      · have := h.datas e he
        rw [hep, hc] at this
        simpa [hep] using this
      · show ((l.nodes.set a _).set _ _ e.node).map Cell.data = _
        rw [Heap.set_of_ne _ _ hep, Heap.set_of_ne _ _ hea]
        exact h.datas e he
  · simp only [List.map_append, List.map_cons]
    rw [List.nodup_middle, List.nodup_cons]
    exact ⟨hfresh, hndb⟩
  · intro e he
    rcases (hmem e).mp he with rfl | he
    · exact Function.update_self ..
    · have heb : e.block ≠ b := by
        intro heb
        rw [← heb, h.stored e he] at hb
        contradiction
      show Function.update l.blocks b _ e.block = _
      rw [Function.update_of_ne heb]
      exact h.stored e he
  · intro e he
    rcases (hmem e).mp he with rfl | he
    · exact hlen
    · exact h.lengths e he
  · simp only [List.map_append]
    rw [Heap.getLastD_append, getLastD_ite, htail]
    have := h.tail
    rw [List.map_append, Heap.getLastD_append] at this
    split
    · rfl
    · exact this
  · show (l.size + 1) % 2 ^ 32 = _
    rw [Nat.mod_eq_of_lt hbound, hlength, hsize]
  · show _ ≤ l.mallocs + 1
    rw [hlength]
    have := h.mallocs
    omega
  · rw [hlength, ← hsize]
    exact hbound

/-- The entries around one are entries of the list. -/
theorem mem_of_mem_rest {x : Entry} (hx : x ∈ es₁ ++ es₂) : x ∈ es₁ ++ e :: es₂ := by
  simp only [List.mem_append, List.mem_cons] at hx ⊢
  tauto

/-- The entries around one have other nodes. -/
theorem node_ne (h : Shape l (es₁ ++ e :: es₂)) {x : Entry} (hx : x ∈ es₁ ++ es₂) :
    x.node ≠ e.node := by
  have hnd := (List.nodup_cons.mp h.nodup).2
  rw [List.map_append, List.map_cons, List.nodup_middle, List.nodup_cons, ← List.map_append] at hnd
  intro he
  exact hnd.1 (he ▸ List.mem_map_of_mem hx)

/-- The entries around one have other blocks. -/
theorem block_ne (h : Shape l (es₁ ++ e :: es₂)) {x : Entry} (hx : x ∈ es₁ ++ es₂) :
    x.block ≠ e.block := by
  have hnd := h.blocks_nodup
  rw [List.map_append, List.map_cons, List.nodup_middle, List.nodup_cons, ← List.map_append] at hnd
  intro he
  exact hnd.1 (he ▸ List.mem_map_of_mem hx)

/-- A list with one entry less. -/
theorem remove (h : Shape l (es₁ ++ e :: es₂)) {tail : Nat} {c : Cell Nat (Option Nat)}
    (hc : l.nodes (prevNode l es₁) = some c)
    (htail : tail = if es₂ = [] then prevNode l es₁ else l.tail) :
    Shape { l with
      nodes := (l.nodes.set (prevNode l es₁)
        { c with next := es₂.head?.map Entry.node }).free e.node
      blocks := Function.update l.blocks e.block none
      tail := tail
      size := (l.size + (2 ^ 32 - 1)) % 2 ^ 32 } (es₁ ++ es₂) := by
  have hnode := h.node_at
  have hchain := h.chain
  have hnd := h.nodup
  have hndb := h.blocks_nodup
  have hlength : (es₁ ++ e :: es₂).length = (es₁ ++ es₂).length + 1 := by
    simp only [List.length_append, List.length_cons]
    omega
  have hbound := h.bound
  have hsize := h.size
  rw [hlength] at hbound hsize
  simp only [List.map_append, List.map_cons] at hchain hnd hndb
  have hnd' := hnd
  rw [← List.cons_append, List.nodup_middle, List.cons_append, List.nodup_cons] at hnd'
  rw [List.nodup_middle, List.nodup_cons] at hndb
  constructor
  · simp only [List.map_append]
    exact hchain.remove c hnd hnode
  · simp only [List.map_append]
    exact hnd'.2
  · intro x hx
    show ((Heap.set _ _ _).free _ x.node).map Cell.data = _
    rw [Heap.free_of_ne _ (h.node_ne hx)]
    have hdata := h.datas x (mem_of_mem_rest hx)
    by_cases hxp : x.node = prevNode l es₁
    · rw [hxp, hc] at hdata
      rw [hxp, Heap.set_self]
      exact hdata
    · rw [Heap.set_of_ne _ _ hxp]
      exact hdata
  · simp only [List.map_append]
    exact hndb.2
  · intro x hx
    show Function.update l.blocks _ _ x.block = _
    rw [Function.update_of_ne (h.block_ne hx)]
    exact h.stored x (mem_of_mem_rest hx)
  · exact fun x hx ↦ h.lengths x (mem_of_mem_rest hx)
  · have hlast := h.tail
    simp only [List.map_append, List.map_cons] at hlast ⊢
    rw [Heap.getLastD_append, List.getLastD_cons] at hlast
    rw [Heap.getLastD_append, htail]
    cases es₂ with
    | nil => rfl
    | cons x es₂ => exact hlast
  · show (l.size + (2 ^ 32 - 1)) % 2 ^ 32 = _
    omega
  · have := h.mallocs
    show _ ≤ l.mallocs
    omega
  · omega

/-- Taking an entry out is allowed and leaves the others. -/
theorem unlink (h : Shape l (es₁ ++ e :: es₂)) (tail : Nat)
    (htail : tail = if es₂ = [] then prevNode l es₁ else l.tail) :
    ∃ l', unlink l tail (prevNode l es₁) e.node = some l' ∧ Shape l' (es₁ ++ es₂) ∧
      l'.dataSize = l.dataSize := by
  obtain ⟨d, hprev⟩ := h.prev_at
  have hne : e.node ≠ prevNode l es₁ := by
    intro he
    have hnd := h.nodup
    rw [List.map_append, Heap.nodup_cut] at hnd
    exact hnd.2.2 e.node (by simp) (he ▸ Heap.getLastD_mem ..)
  refine ⟨_, ?_, h.remove hprev htail, rfl⟩
  unfold Server.unlink
  rw [hprev]
  simp only [Option.bind_eq_bind, Option.bind_some, List.head?_cons, Option.map_some, h.node_at,
    Heap.setNext_of_some hprev, Heap.set_of_ne _ _ hne, freeBlock, h.stored e (by simp)]

/-- An entry is at the tail exactly when nothing follows it. -/
theorem node_eq_tail_iff (h : Shape l (es₁ ++ e :: es₂)) : e.node = l.tail ↔ es₂ = [] := by
  have htail := h.tail
  rw [List.map_append, Heap.getLastD_append, List.map_cons, List.getLastD_cons] at htail
  rw [htail]
  cases es₂ with
  | nil => simp
  | cons x es₂ =>
    have hnd := h.nodup
    simp only [List.map_append, List.map_cons] at hnd
    have hback := (Heap.nodup_cut.mp hnd).2.1
    rw [List.nodup_cons] at hback
    rw [List.map_cons, List.getLastD_cons]
    simp only [reduceCtorEq, iff_false]
    exact fun he ↦ hback.1 (he ▸ Heap.getLastD_mem ..)

/-- The empty list in memory. -/
theorem of_head {l : Clist} (hhead : ∃ d, l.nodes l.head = some ⟨d, none⟩) (htail : l.tail = l.head)
    (hsize : l.size = 0) : Shape l [] where
  chain := Heap.chain_nil.mpr hhead
  nodup := List.nodup_singleton _
  datas := by simp
  blocks_nodup := List.nodup_nil
  stored := by simp
  lengths := by simp
  tail := htail
  size := hsize
  mallocs := Nat.zero_le _
  bound := by simp

/-- New data in the block of one entry. -/
theorem modify (h : Shape l (es₁ ++ e :: es₂)) {bytes : Bytes} (hlen : bytes.length = l.dataSize) :
    Shape { l with blocks := Function.update l.blocks e.block (some bytes) }
      (es₁ ++ { e with bytes := bytes } :: es₂) := by
  have hnodes : (es₁ ++ { e with bytes := bytes } :: es₂).map Entry.node =
      (es₁ ++ e :: es₂).map Entry.node := by simp
  have hblocks : (es₁ ++ { e with bytes := bytes } :: es₂).map Entry.block =
      (es₁ ++ e :: es₂).map Entry.block := by simp
  have hlength : (es₁ ++ { e with bytes := bytes } :: es₂).length = (es₁ ++ e :: es₂).length := by
    simp
  have hmem (x : Entry) (hx : x ∈ es₁ ++ { e with bytes := bytes } :: es₂) :
      x = { e with bytes := bytes } ∨ x ∈ es₁ ++ es₂ := by
    simp only [List.mem_append, List.mem_cons] at hx ⊢
    tauto
  constructor
  · rw [hnodes]
    exact h.chain
  · rw [hnodes]
    exact h.nodup
  · intro x hx
    rcases hmem x hx with rfl | hx
    · exact h.datas e (by simp)
    · exact h.datas x (mem_of_mem_rest hx)
  · rw [hblocks]
    exact h.blocks_nodup
  · intro x hx
    rcases hmem x hx with rfl | hx
    · exact Function.update_self ..
    · show Function.update l.blocks _ _ x.block = _
      rw [Function.update_of_ne (h.block_ne hx)]
      exact h.stored x (mem_of_mem_rest hx)
  · intro x hx
    rcases hmem x hx with rfl | hx
    · exact hlen
    · exact h.lengths x (mem_of_mem_rest hx)
  · rw [hnodes]
    exact h.tail
  · rw [hlength]
    exact h.size
  · rw [hlength]
    exact h.mallocs
  · rw [hlength]
    exact h.bound

end Shape

theorem prevNode_concat (l : Clist) (es : List Entry) (e : Entry) :
    prevNode l (es ++ [e]) = e.node := by
  rw [prevNode, List.map_append, Heap.getLastD_append]
  rfl

/-! ### What each call does -/

section calls
variable {l : Clist} {xs : List Bytes}

/-- The call is carried out and changes the elements as it should. -/
def Meets (l : Clist) (xs : List Bytes) (op : ListOp) : Prop :=
  ∃ l', listStep l op = some l' ∧ ListHolds l' (elementsStep l.dataSize xs op) ∧
    l'.dataSize = l.dataSize

theorem copied_of_le {src : Bytes} {n : Nat} (h : n ≤ src.length) :
    copied src n = some (src.take n) := if_pos h

theorem addBack_meets {node block : Option Nat} {data : Bytes} (h : ListHolds l xs)
    (hfits : AddFits l node block data) : Meets l xs (.addBack node block data) := by
  obtain ⟨es, hs, rfl⟩ := h
  cases node with
  | none => exact ⟨l, rfl, ⟨es, hs, rfl⟩, rfl⟩
  | some a =>
    obtain ⟨ha, ⟨b, rfl, hb⟩, hlen, hbound⟩ := hfits a rfl
    have hs' : Shape l (es ++ []) := by rwa [List.append_nil]
    obtain ⟨d, hprev⟩ := hs'.prev_at
    have htail : l.tail = prevNode l es := hs.tail
    have hne : prevNode l es ≠ a := fun he ↦ hs'.nodes_ne_none Shape.prevNode_mem (he ▸ ha)
    have hset : (l.nodes.set a ⟨some b, none⟩).setNext l.tail (some a) =
        some ((l.nodes.set a ⟨some b, none⟩).set (prevNode l es) ⟨d, some a⟩) := by
      rw [htail]
      exact Heap.setNext_of_some ((Heap.set_of_ne _ _ hne).trans hprev) _
    refine ⟨_, ?_, ⟨_, hs'.insert a ha hb hprev
      (List.length_take_of_le hlen) hbound rfl, ?_⟩, rfl⟩
    · simp only [listStep, listAddBack, Option.bind_eq_bind, Option.bind_some, copied_of_le hlen,
        hset, Option.map_some]
      rfl
    · simp [elementsStep]

theorem addFront_meets {node block : Option Nat} {data : Bytes} (h : ListHolds l xs)
    (hfits : AddFits l node block data) : Meets l xs (.addFront node block data) := by
  obtain ⟨es, hs, rfl⟩ := h
  cases node with
  | none => exact ⟨l, rfl, ⟨es, hs, rfl⟩, rfl⟩
  | some a =>
    obtain ⟨ha, ⟨b, rfl, hb⟩, hlen, hbound⟩ := hfits a rfl
    have hs' : Shape l ([] ++ es) := hs
    obtain ⟨d, hprev⟩ := hs'.prev_at
    have hhead : l.nodes l.head = some ⟨d, es.head?.map Entry.node⟩ := hprev
    have hne : l.head ≠ a := fun he ↦ hs.nodes_ne_none List.mem_cons_self (he ▸ ha)
    have hset : (l.nodes.set a ⟨some b, es.head?.map Entry.node⟩).setNext l.head (some a) =
        some ((l.nodes.set a ⟨some b, es.head?.map Entry.node⟩).set l.head ⟨d, some a⟩) :=
      Heap.setNext_of_some ((Heap.set_of_ne _ _ hne).trans hhead) _
    refine ⟨_, ?_, ⟨_, hs'.insert (if l.size = 0 then a else l.tail) ha hb hprev
      (List.length_take_of_le hlen) hbound ?_, ?_⟩, rfl⟩
    · simp only [listStep, listAddFront, Option.bind_eq_bind, Option.bind_some, copied_of_le hlen,
        hhead, hset, Option.map_some]
      rfl
    · rw [hs.size]
      simp only [List.length_eq_zero_iff]
    · simp [elementsStep]

/-- The loop of `list_delete_node` takes out the first match. -/
theorem deleteLoop_spec {es₁ es₂ : List Entry} (pfunc : Bytes → Bool) {fuel : Nat}
    (hs : Shape l (es₁ ++ es₂)) (hf : es₂.length < fuel) :
    ∃ r es, deleteLoop l pfunc fuel (prevNode l es₁) (es₂.head?.map Entry.node) = some r ∧
      Shape r.1 es ∧
      es.map Entry.bytes = es₁.map Entry.bytes ++ (es₂.map Entry.bytes).eraseP pfunc ∧
      r.1.dataSize = l.dataSize := by
  induction es₂ generalizing es₁ fuel with
  | nil =>
    obtain ⟨fuel, rfl⟩ := Nat.exists_eq_succ_of_ne_zero (show fuel ≠ 0 by omega)
    exact ⟨(l, false), es₁ ++ [], rfl, hs, by simp, rfl⟩
  | cons e es₂ ih =>
    obtain ⟨fuel, rfl⟩ := Nat.exists_eq_succ_of_ne_zero (show fuel ≠ 0 by omega)
    rw [List.length_cons] at hf
    simp only [List.head?_cons, Option.map_some, deleteLoop, hs.node_at, Option.bind_eq_bind,
      Option.bind_some, hs.stored e (by simp)]
    by_cases hp : pfunc e.bytes = true
    · obtain ⟨l', hl', hshape, hsize⟩ := hs.unlink
        (if e.node = l.tail then prevNode l es₁ else l.tail) (by simp only [hs.node_eq_tail_iff])
      rw [if_pos hp, hl']
      exact ⟨(l', true), es₁ ++ es₂, rfl, hshape, by simp [hp], hsize⟩
    · obtain ⟨d, hprev⟩ := hs.prev_at
      rw [if_neg hp, hprev]
      have hs' : Shape l ((es₁ ++ [e]) ++ es₂) := by simpa using hs
      have hf' : es₂.length < fuel := by omega
      obtain ⟨r, es, hr, hshape, hbytes, hsize⟩ := ih hs' hf'
      rw [prevNode_concat] at hr
      exact ⟨r, es, hr, hshape, by simpa [hp] using hbytes, hsize⟩

theorem deleteNode_meets (pfunc : Bytes → Bool) (h : ListHolds l xs) :
    Meets l xs (.deleteNode pfunc) := by
  obtain ⟨es, hs, rfl⟩ := h
  have hs' : Shape l ([] ++ es) := hs
  obtain ⟨d, hhead⟩ := hs'.prev_at
  have hfuel : es.length < l.mallocs + 1 := Nat.lt_succ_of_le hs.mallocs
  obtain ⟨r, es', hr, hshape, hbytes, hsize⟩ := deleteLoop_spec pfunc hs' hfuel
  refine ⟨r.1, ?_, ⟨es', hshape, hbytes⟩, hsize⟩
  have hhead' : l.nodes l.head = some ⟨d, es.head?.map Entry.node⟩ := hhead
  have hr' : deleteLoop l pfunc (l.mallocs + 1) l.head (es.head?.map Entry.node) = some r := hr
  simp only [listStep, listDeleteNode, hhead', Option.bind_eq_bind, Option.bind_some, hr',
    Option.map_some]

/-- The loop of `list_delete_at` stops in front of the entry with that index. -/
theorem deleteAtLoop_spec {es₁ es₂ : List Entry} {k : Nat} (hs : Shape l (es₁ ++ es₂))
    (hk : k ≤ es₂.length) :
    deleteAtLoop l k (prevNode l es₁) (es₂.head?.map Entry.node) =
      some (prevNode l (es₁ ++ es₂.take k), (es₂.drop k).head?.map Entry.node) := by
  induction k generalizing es₁ es₂ with
  | zero => simp [deleteAtLoop]
  | succ k ih =>
    cases es₂ with
    | nil => simp at hk
    | cons e es₂ =>
      obtain ⟨d, hprev⟩ := hs.prev_at
      have hs' : Shape l ((es₁ ++ [e]) ++ es₂) := by simpa using hs
      have hrest := ih hs' (by simpa using hk)
      rw [prevNode_concat] at hrest
      simp only [List.head?_cons, Option.map_some] at hprev
      simp only [List.head?_cons, Option.map_some, deleteAtLoop, hprev, Option.bind_eq_bind,
        Option.bind_some, hs.node_at, hrest, List.take_succ_cons, List.drop_succ_cons,
        List.append_assoc, List.singleton_append]

theorem deleteAt_meets (index : Nat) (h : ListHolds l xs) : Meets l xs (.deleteAt index) := by
  obtain ⟨es, hs, rfl⟩ := h
  by_cases hi : index < l.size
  · have hie : index < es.length := hs.size ▸ hi
    have hs' : Shape l ([] ++ es) := hs
    obtain ⟨d, hhead⟩ := hs'.prev_at
    have hhead' : l.nodes l.head = some ⟨d, es.head?.map Entry.node⟩ := hhead
    have hloop := deleteAtLoop_spec hs' hie.le
    have hcut : es = es.take index ++ es[index] :: es.drop (index + 1) := by
      rw [List.getElem_cons_drop, List.take_append_drop]
    have hshape := hs
    rw [hcut] at hshape
    obtain ⟨l', hl', hshape', hsize⟩ := hshape.unlink
      (if index = l.size - 1 then prevNode l (es.take index) else l.tail) (by
        have : (index = l.size - 1) ↔ es.drop (index + 1) = [] := by
          rw [List.drop_eq_nil_iff, hs.size]
          omega
        simp only [this])
    refine ⟨l', ?_, ⟨_, hshape', ?_⟩, hsize⟩
    · have hloop' : deleteAtLoop l index l.head (es.head?.map Entry.node) =
          some (prevNode l (es.take index), some es[index].node) := by
        rw [List.drop_eq_getElem_cons hie] at hloop
        exact hloop
      simp only [listStep, listDeleteAt, if_pos hi, hhead', Option.bind_eq_bind, Option.bind_some,
        hloop', hl', Option.map_some]
    · rw [elementsStep, List.eraseIdx_eq_take_drop_succ, List.map_append, List.map_take,
        List.map_drop]
  · refine ⟨l, by simp [listStep, listDeleteAt, hi], ⟨es, hs, ?_⟩, rfl⟩
    rw [elementsStep, List.eraseIdx_of_length_le]
    rw [List.length_map, ← hs.size]
    omega

/-- The loop of `list_modify_at` stops at the entry with that index. -/
theorem modifyAtLoop_spec {es₁ es₂ : List Entry} {k : Nat} (hs : Shape l (es₁ ++ es₂))
    (hk : k ≤ es₂.length) :
    modifyAtLoop l k (es₂.head?.map Entry.node) = some ((es₂.drop k).head?.map Entry.node) := by
  induction k generalizing es₁ es₂ with
  | zero => simp [modifyAtLoop]
  | succ k ih =>
    cases es₂ with
    | nil => simp at hk
    | cons e es₂ =>
      have hs' : Shape l ((es₁ ++ [e]) ++ es₂) := by simpa using hs
      have hrest := ih hs' (by simpa using hk)
      simp only [List.head?_cons, Option.map_some, modifyAtLoop, Option.bind_eq_bind,
        Option.bind_some, hs.node_at, hrest, List.drop_succ_cons]

theorem modifyAt_meets {newData : Bytes} (index : Nat) (h : ListHolds l xs)
    (hlen : l.dataSize ≤ newData.length) : Meets l xs (.modifyAt index newData) := by
  obtain ⟨es, hs, rfl⟩ := h
  by_cases hi : index < l.size
  · have hie : index < es.length := hs.size ▸ hi
    have hs' : Shape l ([] ++ es) := hs
    obtain ⟨d, hhead⟩ := hs'.prev_at
    have hhead' : l.nodes l.head = some ⟨d, es.head?.map Entry.node⟩ := hhead
    have hloop := modifyAtLoop_spec hs' hie.le
    rw [List.drop_eq_getElem_cons hie] at hloop
    have hcut : es = es.take index ++ es[index] :: es.drop (index + 1) := by
      rw [List.getElem_cons_drop, List.take_append_drop]
    have hshape := hs
    rw [hcut] at hshape
    have hold : es[index].bytes.length = l.dataSize := hs.lengths _ (List.getElem_mem hie)
    have hnew : (newData.take l.dataSize).length = l.dataSize := List.length_take_of_le hlen
    have hstore : store es[index].bytes 0 (newData.take l.dataSize) = newData.take l.dataSize := by
      unfold store
      rw [List.take_zero, List.nil_append, List.drop_of_length_le (by omega), List.append_nil]
    refine ⟨_, ?_, ⟨_, hshape.modify hnew, ?_⟩, rfl⟩
    · simp only [listStep, listModifyAt, if_pos hi, hhead', Option.bind_eq_bind, Option.bind_some,
        hloop, List.head?_cons, Option.map_some, hshape.node_at,
        hs.stored _ (List.getElem_mem hie), copied_of_le hlen, hold, le_refl, if_true, hstore]
    · rw [elementsStep, List.set_eq_take_append_cons_drop, if_pos (by simpa using hie),
        List.map_append, List.map_cons, List.map_take, List.map_drop]
  · refine ⟨l, by simp [listStep, listModifyAt, hi], ⟨es, hs, ?_⟩, rfl⟩
    rw [elementsStep, List.set_eq_of_length_le]
    rw [List.length_map, ← hs.size]
    omega

/-- The loop of `list_clear` gives every node back and touches no other. -/
theorem clearLoop_spec (nodes : Heap Nat (Option Nat)) (blocks : Nat → Option Bytes)
    {es : List Entry} {fuel : Nat} (hf : es.length < fuel)
    (hn : ∀ es₁ e es₂, es = es₁ ++ e :: es₂ →
      nodes e.node = some ⟨some e.block, es₂.head?.map Entry.node⟩)
    (hb : ∀ e ∈ es, (blocks e.block).isSome) (hnd : (es.map Entry.node).Nodup)
    (hndb : (es.map Entry.block).Nodup) :
    ∃ r, clearLoop nodes blocks fuel (es.head?.map Entry.node) = some r ∧
      ∀ p ∉ es.map Entry.node, r.1 p = nodes p := by
  induction es generalizing nodes blocks fuel with
  | nil =>
    obtain ⟨fuel, rfl⟩ := Nat.exists_eq_succ_of_ne_zero (show fuel ≠ 0 by omega)
    exact ⟨(nodes, blocks), rfl, fun _ _ ↦ rfl⟩
  | cons e es ih =>
    obtain ⟨fuel, rfl⟩ := Nat.exists_eq_succ_of_ne_zero (show fuel ≠ 0 by omega)
    rw [List.length_cons] at hf
    rw [List.map_cons, List.nodup_cons] at hnd hndb
    obtain ⟨bytes, hbytes⟩ := Option.isSome_iff_exists.mp (hb e List.mem_cons_self)
    have hf' : es.length < fuel := by omega
    obtain ⟨r, hr, hframe⟩ := ih (nodes.free e.node)
      (Function.update blocks e.block none) hf' (fun es₁ x es₂ hes ↦ by
        have hne : x.node ≠ e.node := fun he ↦ hnd.1 (he ▸ List.mem_map_of_mem (by simp [hes]))
        rw [Heap.free_of_ne _ hne]
        exact hn (e :: es₁) x es₂ (by rw [hes]; rfl))
      (fun x hx ↦ by
        have hne : x.block ≠ e.block := fun he ↦ hndb.1 (he ▸ List.mem_map_of_mem hx)
        rw [Function.update_of_ne hne]
        exact hb x (List.mem_cons_of_mem e hx)) hnd.2 hndb.2
    refine ⟨r, ?_, fun p hp ↦ ?_⟩
    · simp only [List.head?_cons, Option.map_some, clearLoop, hn [] e es rfl, Option.bind_eq_bind,
        Option.bind_some, freeBlock, hbytes, hr]
    · rw [List.map_cons, List.mem_cons, not_or] at hp
      rw [hframe p hp.2, Heap.free_of_ne _ hp.1]

theorem clear_meets (h : ListHolds l xs) : Meets l xs .clear := by
  obtain ⟨es, hs, rfl⟩ := h
  have hs' : Shape l ([] ++ es) := hs
  obtain ⟨d, hhead⟩ := hs'.prev_at
  have hhead' : l.nodes l.head = some ⟨d, es.head?.map Entry.node⟩ := hhead
  have hnd := List.nodup_cons.mp hs.nodup
  have hblocks : ∀ e ∈ es, (l.blocks e.block).isSome := by
    intro e he
    rw [hs.stored e he]
    rfl
  obtain ⟨r, hr, hframe⟩ := clearLoop_spec l.nodes l.blocks (Nat.lt_succ_of_le hs.mallocs)
    (fun es₁ e es₂ hes ↦ Shape.node_at (hes ▸ hs)) hblocks hnd.2 hs.blocks_nodup
  have hset := Heap.setNext_of_some ((hframe l.head hnd.1).trans hhead') none
  refine ⟨{ l with
    nodes := r.1.set l.head ⟨d, none⟩
    blocks := r.2
    tail := l.head
    size := 0 }, ?_, ⟨[], .of_head ⟨d, Heap.set_self ..⟩ rfl rfl, rfl⟩, rfl⟩
  simp only [listStep, listClear, hhead', Option.bind_eq_bind, Option.bind_some, hr, hset]

/-- Every call that fits is carried out and changes the elements as it should. -/
theorem listStep_meets (op : ListOp) (h : ListHolds l xs) (hfits : OpFits l op) :
    Meets l xs op := by
  cases op with
  | addBack node block data => exact addBack_meets h hfits
  | addFront node block data => exact addFront_meets h hfits
  | deleteNode pfunc => exact deleteNode_meets pfunc h
  | deleteAt index => exact deleteAt_meets index h
  | modifyAt index newData => exact modifyAt_meets index h hfits
  | clear => exact clear_meets h

/-- Both searches run through the elements up to the first hit. -/
theorem haveSameLoop_spec (test : Bytes → Option Bool) (t : Bytes → Bool) {es₁ es₂ : List Entry}
    {fuel : Nat} (hs : Shape l (es₁ ++ es₂)) (hf : es₂.length < fuel)
    (ht : ∀ e ∈ es₂, test e.bytes = some (t e.bytes)) :
    haveSameLoop l test fuel (es₂.head?.map Entry.node) =
      some ((es₂.map Entry.bytes).any t) := by
  induction es₂ generalizing es₁ fuel with
  | nil =>
    obtain ⟨fuel, rfl⟩ := Nat.exists_eq_succ_of_ne_zero (show fuel ≠ 0 by omega)
    rfl
  | cons e es₂ ih =>
    obtain ⟨fuel, rfl⟩ := Nat.exists_eq_succ_of_ne_zero (show fuel ≠ 0 by omega)
    rw [List.length_cons] at hf
    have hs' : Shape l ((es₁ ++ [e]) ++ es₂) := by simpa using hs
    have hf' : es₂.length < fuel := by omega
    have hrest := ih hs' hf' fun x hx ↦ ht x (List.mem_cons_of_mem e hx)
    simp only [List.head?_cons, Option.map_some, haveSameLoop, hs.node_at, Option.bind_eq_bind,
      Option.bind_some, hs.stored e (by simp), ht e List.mem_cons_self, hrest, List.map_cons,
      List.any_cons]
    cases t e.bytes <;> rfl

/-- The search with a predicate finds an element that satisfies it. -/
theorem listHaveSame_eq (pfunc : Bytes → Bool) (h : ListHolds l xs) :
    listHaveSame l pfunc = some (xs.any pfunc) := by
  obtain ⟨es, hs, rfl⟩ := h
  have hs' : Shape l ([] ++ es) := hs
  obtain ⟨d, hhead⟩ := hs'.prev_at
  have hhead' : l.nodes l.head = some ⟨d, es.head?.map Entry.node⟩ := hhead
  have hloop := haveSameLoop_spec (fun b ↦ some (pfunc b)) pfunc hs'
    (Nat.lt_succ_of_le hs.mallocs) fun _ _ ↦ rfl
  simp only [listHaveSame, hhead', Option.bind_eq_bind, Option.bind_some]
  exact hloop

/-- The search by `memcmp` finds an element that differs, as the list of byte strings of the
handshake has it. -/
theorem listHaveSameCmp_eq {data : Bytes} (h : ListHolds l xs) (hlen : l.dataSize ≤ data.length) :
    listHaveSameCmp l data = some (Obfs.listHaveSameCmp xs (data.take l.dataSize)) := by
  obtain ⟨es, hs, rfl⟩ := h
  have hs' : Shape l ([] ++ es) := hs
  obtain ⟨d, hhead⟩ := hs'.prev_at
  have hhead' : l.nodes l.head = some ⟨d, es.head?.map Entry.node⟩ := hhead
  have hloop := haveSameLoop_spec (fun b ↦ memcmpNe b data l.dataSize)
    (fun b ↦ b ≠ data.take l.dataSize) hs' (Nat.lt_succ_of_le hs.mallocs) (fun e he ↦ by
      have hb := hs.lengths e he
      rw [memcmpNe, if_pos ⟨hb.ge, hlen⟩, ← hb, List.take_length])
  simp only [listHaveSameCmp, hhead', Option.bind_eq_bind, Option.bind_some]
  exact hloop

end calls

/-! ### Histories -/

/-- A fresh list is empty. -/
theorem listInit_holds (dataSize head : Nat) : ListHolds (listInit dataSize head) [] := by
  have hhead : (listInit dataSize head).nodes head = some ⟨none, none⟩ := by
    simp only [listInit, Heap.set_self]
  exact ⟨[], .of_head ⟨none, hhead⟩ rfl rfl, rfl⟩

/-- Calls that fit lead to a list with the elements they stand for. -/
theorem run_listStep {l : Clist} {xs : List Bytes} (ops : List ListOp) (h : ListHolds l xs)
    (hfits : Along listStep OpFits l ops) :
    ∃ l', run listStep l ops = some l' ∧ ListHolds l' (ops.foldl (elementsStep l.dataSize) xs) ∧
      l'.dataSize = l.dataSize := by
  induction ops generalizing l xs with
  | nil => exact ⟨l, rfl, h, rfl⟩
  | cons op ops ih =>
    obtain ⟨l₁, hl₁, hh₁, hsize₁⟩ := listStep_meets op h hfits.1
    obtain ⟨l₂, hl₂, hh₂, hsize₂⟩ := ih hh₁ (hfits.2 l₁ hl₁)
    rw [hsize₁] at hh₂ hsize₂
    exact ⟨l₂, (run_cons_of_some listStep ops hl₁).trans hl₂, hh₂, hsize₂⟩

/-- After any calls that fit, `list_have_same_cmp` answers as a membership test exactly when the
list is empty or holds both the key and something else: it reports an element that differs. -/
theorem listHaveSameCmp_iff (dataSize head : Nat) (ops : List ListOp)
    (hfits : Along listStep OpFits (listInit dataSize head) ops) :
    ∃ l, run listStep (listInit dataSize head) ops = some l ∧
      ∀ data : Bytes, dataSize ≤ data.length →
        ∃ found, listHaveSameCmp l data = some found ∧
          ((found = true ↔ data.take dataSize ∈ elements dataSize ops) ↔
            (elements dataSize ops = [] ∨
              (data.take dataSize ∈ elements dataSize ops ∧
                ∃ d ∈ elements dataSize ops, d ≠ data.take dataSize))) := by
  obtain ⟨l, hl, hh, hsize⟩ := run_listStep ops (listInit_holds dataSize head) hfits
  have hh' : ListHolds l (elements dataSize ops) := hh
  have hsize' : l.dataSize = dataSize := hsize
  refine ⟨l, hl, fun data hdata ↦ ⟨_, listHaveSameCmp_eq hh' (hsize' ▸ hdata), ?_⟩⟩
  rw [hsize']
  generalize elements dataSize ops = xs
  have hdiff : Obfs.listHaveSameCmp xs (data.take dataSize) = true ↔
      ∃ d ∈ xs, d ≠ data.take dataSize := by simp [Obfs.listHaveSameCmp]
  rw [hdiff]
  cases xs with
  | nil => simp
  | cons x xs =>
    by_cases hx : x = data.take dataSize
    · simp [hx]
    · simp [hx, Ne.symm hx]

/-- Two additions, at the back and at the front. -/
def twoAdditions : List ListOp :=
  [.addBack (some 1) (some 2) [0xAA, 0xBB], .addFront (some 3) (some 4) [0xCC, 0xDD]]

theorem listHaveSameCmp_iff_twoAdditions :
    ∃ l, run listStep (listInit 2 0) twoAdditions = some l ∧
      ∀ data : Bytes, 2 ≤ data.length →
        ∃ found, listHaveSameCmp l data = some found ∧
          ((found = true ↔ data.take 2 ∈ elements 2 twoAdditions) ↔
            (elements 2 twoAdditions = [] ∨
              (data.take 2 ∈ elements 2 twoAdditions ∧
                ∃ d ∈ elements 2 twoAdditions, d ≠ data.take 2))) := by
  refine listHaveSameCmp_iff 2 0 twoAdditions ⟨?_, fun t ht ↦ ⟨?_, fun _ _ ↦ trivial⟩⟩
  · rintro a ⟨⟩
    exact ⟨rfl, ⟨2, rfl, rfl⟩, by decide, by decide⟩
  · cases ht
    rintro a ⟨⟩
    exact ⟨by decide, ⟨4, rfl, by decide⟩, by decide, by decide⟩

/-- An id that was never stored is reported as soon as another one is. -/
theorem listHaveSameCmp_reports_unseen :
    (run listStep (listInit 2 0) [.addBack (some 1) (some 2) [0xAA, 0xBB]]).bind
        (listHaveSameCmp · [0xCC, 0xDD]) = some true ∧
      [0xCC, 0xDD] ∉ elements 2 [.addBack (some 1) (some 2) [0xAA, 0xBB]] := by
  decide

end OpenWrtCompile.Server
