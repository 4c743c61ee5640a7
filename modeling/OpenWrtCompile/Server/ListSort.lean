import OpenWrtCompile.Base.Selection
import OpenWrtCompile.Server.ClientList

/-!
# Sorting the list, and any calls at all

`list_sort` of `shadowsocksr-libev/src/server/list.c`, a selection sort that exchanges the data of nodes
and leaves the nodes where they are; then runs of all the calls that change a list.
-/

namespace OpenWrtCompile.Server
open OpenWrtCompile.Base

/-- What `p->data` points to. -/
def nodeBytes (l : Clist) (p : Nat) : Option Bytes := do
  let n ← l.nodes p
  let data ← n.data
  l.blocks data

/-- The inner loop of `list_sort`. -/
def minLoop (l : Clist) (pfunc : Bytes → Bytes → Bool) : Nat → Nat → Option Nat → Option Nat
  | 0, _, _ => none
  | _ + 1, min, none => some min
  | fuel + 1, min, some jcurr => do
    let least ← nodeBytes l min
    let bytes ← nodeBytes l jcurr
    let n ← l.nodes jcurr
    minLoop l pfunc fuel (if pfunc least bytes then jcurr else min) n.next

/-- `swap_data`. -/
def swapData (l : Clist) (n₁ n₂ : Nat) : Option Clist := do
  let c₂ ← l.nodes n₂
  let c₁ ← l.nodes n₁
  let nodes ← l.nodes.setData n₂ c₁.data
  let nodes ← nodes.setData n₁ c₂.data
  some { l with nodes := nodes }

/-- The outer loop of `list_sort`. -/
def sortLoop (pfunc : Bytes → Bytes → Bool) : Nat → Clist → Option Nat → Option Clist
  | 0, _, _ => none
  | _ + 1, l, none => some l
  | fuel + 1, l, some icurr => do
    let n ← l.nodes icurr
    let min ← minLoop l pfunc (l.mallocs + 1) icurr n.next
    let l' ← (if min = icurr then some l else swapData l min icurr)
    let n' ← l'.nodes icurr
    sortLoop pfunc fuel l' n'.next

/-- `list_sort`. -/
def listSort (l : Clist) (pfunc : Bytes → Bytes → Bool) : Option Clist := do
  let head ← l.nodes l.head
  sortLoop pfunc (l.mallocs + 1) l head.next

/-- A call that changes the list, sorting included. -/
inductive ListCall where
  | op (op : ListOp)
  | sort (pfunc : Bytes → Bytes → Bool)

/-- One call. -/
def callStep (l : Clist) : ListCall → Option Clist
  | .op op => listStep l op
  | .sort pfunc => listSort l pfunc

/-- What a call needs: sorting needs nothing. -/
def CallFits (l : Clist) : ListCall → Prop
  | .op op => OpFits l op
  | .sort _ => True

/-- `pfunc a b` says that `b` goes in front of `a`, in a strict order. -/
structure StrictOrder (pfunc : Bytes → Bytes → Bool) : Prop where
  irrefl : ∀ a, pfunc a a = false
  trans : ∀ a b c, pfunc a b = true → pfunc b c = true → pfunc a c = true

/-- `ys` is `xs` permuted, and in order if there is an order. -/
def Sorts (pfunc : Bytes → Bytes → Bool) (xs ys : List Bytes) : Prop :=
  ys.Perm xs ∧ (StrictOrder pfunc → ys.Pairwise fun x y ↦ pfunc x y = false)

/-- What the call means for the elements, `n` bytes each. -/
def Effect (n : Nat) (xs : List Bytes) : ListCall → List Bytes → Prop
  | .op op, ys => ys = elementsStep n xs op
  | .sort pfunc, ys => Sorts pfunc xs ys

/-- What the calls mean for the elements. -/
def Effects (n : Nat) : List Bytes → List ListCall → List Bytes → Prop
  | xs, [], ys => ys = xs
  | xs, call :: calls, ys => ∃ zs, Effect n xs call zs ∧ Effects n zs calls ys

/-- The nodes reachable from `head` carry the elements, `size` counts them, and `tail` is the last of
them, or `head`. -/
def Represents (l : Clist) (xs : List Bytes) : Prop :=
  ∃ reached, l.nodes.Chain l.head reached ∧ reached.Nodup ∧ l.size = reached.length ∧
    l.tail = reached.getLastD l.head ∧ reached.map (nodeBytes l) = xs.map some

/-! ### One pass of the sort -/

section Pass
variable {l : Clist} (pfunc : Bytes → Bytes → Bool)

/-- The bytes of an entry. -/
theorem Shape.nodeBytes_eq {es : List Entry} (h : Shape l es) {e : Entry} (he : e ∈ es) :
    nodeBytes l e.node = some e.bytes := by
  have hdata := h.datas e he
  unfold nodeBytes
  cases hn : l.nodes e.node with
  | none =>
    rw [hn] at hdata
    cases hdata
  | some n =>
    rw [hn] at hdata
    have hblock : n.data = some e.block := Option.some.inj hdata
    show n.data.bind l.blocks = _
    rw [hblock]
    exact h.stored e he

/-- An entry goes in front of another. -/
def entryBefore (pfunc : Bytes → Bytes → Bool) (a b : Entry) : Bool := pfunc a.bytes b.bytes

/-- The inner loop ends at the entry that is selected. -/
theorem minLoop_spec {es₁ es₂ : List Entry} {m : Entry} {fuel : Nat} (h : Shape l (es₁ ++ es₂))
    (hm : m ∈ es₁ ++ es₂) (hfuel : es₂.length < fuel) :
    minLoop l pfunc fuel m.node (es₂.head?.map Entry.node) =
      some (select (entryBefore pfunc) m es₂).node := by
  induction es₂ generalizing es₁ m fuel with
  | nil =>
    obtain ⟨fuel, rfl⟩ := Nat.exists_eq_succ_of_ne_zero (show fuel ≠ 0 by omega)
    rfl
  | cons e es₂ ih =>
    obtain ⟨fuel, rfl⟩ := Nat.exists_eq_succ_of_ne_zero (show fuel ≠ 0 by omega)
    rw [List.length_cons] at hfuel
    have he : e ∈ es₁ ++ e :: es₂ := List.mem_append_right es₁ List.mem_cons_self
    have happend : es₁ ++ e :: es₂ = es₁ ++ [e] ++ es₂ := by
      rw [List.append_assoc, List.singleton_append]
    have hnext : (if entryBefore pfunc m e then e else m) ∈ es₁ ++ [e] ++ es₂ := by
      rw [← happend]
      split
      · exact he
      · exact hm
    have hrest := ih (happend ▸ h) hnext (by omega : es₂.length < fuel)
    rw [apply_ite Entry.node] at hrest
    simp only [List.head?_cons, Option.map_some, minLoop, h.nodeBytes_eq hm, h.nodeBytes_eq he,
      h.node_at, Option.bind_eq_bind, Option.bind_some]
    exact hrest

/-- A list in which two nodes carry each other's data. -/
theorem Shape.exchange {done pre post : List Entry} {e m : Entry} {nodes : Heap Nat (Option Nat)}
    (h : Shape l (done ++ e :: (pre ++ m :: post)))
    (hnext : ∀ p, (nodes p).map Cell.next = (l.nodes p).map Cell.next)
    (he : (nodes e.node).map Cell.data = some (some m.block))
    (hm : (nodes m.node).map Cell.data = some (some e.block))
    (hoff : ∀ p, p ≠ e.node → p ≠ m.node → nodes p = l.nodes p) :
    Shape { l with nodes := nodes } (done ++ ⟨e.node, m.block, m.bytes⟩ ::
      (pre ++ ⟨m.node, e.block, e.bytes⟩ :: post)) := by
  have hcut : done ++ e :: (pre ++ m :: post) = (done ++ e :: pre) ++ m :: post := by
    rw [List.append_assoc, List.cons_append]
  have hmem : ∀ x, x ∈ done ++ (⟨e.node, m.block, m.bytes⟩ : Entry) ::
      (pre ++ (⟨m.node, e.block, e.bytes⟩ : Entry) :: post) →
      x = ⟨e.node, m.block, m.bytes⟩ ∨ x = ⟨m.node, e.block, e.bytes⟩ ∨
        x ∈ done ++ (pre ++ post) := by
    intro x hx
    simp only [List.mem_append, List.mem_cons] at hx ⊢
    tauto
  have hold : ∀ x ∈ done ++ (pre ++ post), x ∈ done ++ e :: (pre ++ m :: post) ∧
      x.node ≠ e.node ∧ x.node ≠ m.node := by
    intro x hx
    refine ⟨?_, h.node_ne ?_, (hcut ▸ h).node_ne ?_⟩ <;>
    · simp only [List.mem_append, List.mem_cons] at hx ⊢
      tauto
  have hmaps : (done ++ (⟨e.node, m.block, m.bytes⟩ : Entry) ::
      (pre ++ (⟨m.node, e.block, e.bytes⟩ : Entry) :: post)).map Entry.node =
      (done ++ e :: (pre ++ m :: post)).map Entry.node := by
    simp only [List.map_append, List.map_cons]
  have hlength : (done ++ (⟨e.node, m.block, m.bytes⟩ : Entry) ::
      (pre ++ (⟨m.node, e.block, e.bytes⟩ : Entry) :: post)).length =
      (done ++ e :: (pre ++ m :: post)).length := by
    simp only [List.length_append, List.length_cons]
  have heMem : e ∈ done ++ e :: (pre ++ m :: post) := List.mem_append_right _ List.mem_cons_self
  have hmMem : m ∈ done ++ e :: (pre ++ m :: post) := by
    rw [hcut]
    exact List.mem_append_right _ List.mem_cons_self
  constructor
  · rw [hmaps]
    exact h.chain.congr hnext
  · rw [hmaps]
    exact h.nodup
  · intro x hx
    obtain rfl | rfl | hx := hmem x hx
    · exact he
    · exact hm
    · obtain ⟨hxMem, hxe, hxm⟩ := hold x hx
      show (nodes x.node).map Cell.data = _
      rw [hoff x.node hxe hxm]
      exact h.datas x hxMem
  · have hperm : ((done ++ (⟨e.node, m.block, m.bytes⟩ : Entry) ::
        (pre ++ (⟨m.node, e.block, e.bytes⟩ : Entry) :: post)).map Entry.block).Perm
        ((done ++ e :: (pre ++ m :: post)).map Entry.block) := by
      simp only [List.map_append, List.map_cons]
      exact (exchange_perm m.block e.block _ _).append_left _
    exact hperm.nodup_iff.mpr h.blocks_nodup
  · intro x hx
    obtain rfl | rfl | hx := hmem x hx
    · exact h.stored m hmMem
    · exact h.stored e heMem
    · exact h.stored x (hold x hx).1
  · intro x hx
    obtain rfl | rfl | hx := hmem x hx
    · exact h.lengths m hmMem
    · exact h.lengths e heMem
    · exact h.lengths x (hold x hx).1
  · rw [hmaps]
    exact h.tail
  · rw [hlength]
    exact h.size
  · rw [hlength]
    exact h.mallocs
  · rw [hlength]
    exact h.bound

/-- `swap_data` exchanges the data of two entries. -/
theorem swapData_shape {done pre post : List Entry} {e m : Entry}
    (h : Shape l (done ++ e :: (pre ++ m :: post))) :
    ∃ nodes, swapData l m.node e.node = some { l with nodes := nodes } ∧
      Shape { l with nodes := nodes } (done ++ ⟨e.node, m.block, m.bytes⟩ ::
        (pre ++ ⟨m.node, e.block, e.bytes⟩ :: post)) := by
  have hcut : done ++ e :: (pre ++ m :: post) = (done ++ e :: pre) ++ m :: post := by
    rw [List.append_assoc, List.cons_append]
  have hne : m.node ≠ e.node :=
    h.node_ne (List.mem_append_right done (List.mem_append_right pre List.mem_cons_self))
  have he := h.node_at
  have hm := (hcut ▸ h).node_at
  have hm' : l.nodes.set e.node ⟨some m.block, (pre ++ m :: post).head?.map Entry.node⟩ m.node =
      some ⟨some m.block, post.head?.map Entry.node⟩ := by
    rw [Heap.set_of_ne _ _ hne, hm]
  have hset : swapData l m.node e.node = some { l with
      nodes := (l.nodes.set e.node ⟨some m.block, (pre ++ m :: post).head?.map Entry.node⟩).set
        m.node ⟨some e.block, post.head?.map Entry.node⟩ } := by
    simp only [swapData, he, hm, Heap.setData_of_some he, Heap.setData_of_some hm',
      Option.bind_eq_bind, Option.bind_some]
  refine ⟨_, hset, h.exchange ?_ ?_ ?_ ?_⟩
  · intro p
    exact (Heap.next_set_data hm' _ p).trans (Heap.next_set_data he _ p)
  · rw [Heap.set_of_ne _ _ hne.symm, Heap.set_self]
    rfl
  · rw [Heap.set_self]
    rfl
  · intro p hpe hpm
    rw [Heap.set_of_ne _ _ hpm, Heap.set_of_ne _ _ hpe]

/-- One pass of the outer loop brings the entry that is selected to the front of the rest. -/
theorem pass_shape {done rest : List Entry} {e : Entry} (h : Shape l (done ++ e :: rest)) :
    ∃ nodes e' rest',
      (if (select (entryBefore pfunc) e rest).node = e.node then some l
        else swapData l (select (entryBefore pfunc) e rest).node e.node) =
        some { l with nodes := nodes } ∧
      Shape { l with nodes := nodes } (done ++ e' :: rest') ∧ e'.node = e.node ∧
      e'.bytes = (select (entryBefore pfunc) e rest).bytes ∧ rest'.length = rest.length ∧
      ((e' :: rest').map Entry.bytes).Perm ((e :: rest).map Entry.bytes) := by
  obtain hself | hrest := List.mem_cons.mp (select_mem (entryBefore pfunc) e rest)
  · refine ⟨l.nodes, e, rest, ?_, h, rfl, ?_, rfl, List.Perm.refl _⟩
    · rw [hself, if_pos rfl]
    · rw [hself]
  · generalize select (entryBefore pfunc) e rest = m at hrest ⊢
    obtain ⟨pre, post, rfl⟩ := List.append_of_mem hrest
    have hne : m.node ≠ e.node :=
      h.node_ne (List.mem_append_right done (List.mem_append_right pre List.mem_cons_self))
    obtain ⟨nodes, hswap, hshape⟩ := swapData_shape h
    refine ⟨nodes, ⟨e.node, m.block, m.bytes⟩, _, ?_, hshape, rfl, rfl, ?_, ?_⟩
    · rw [if_neg hne]
      exact hswap
    · simp only [List.length_append, List.length_cons]
    · simp only [List.map_cons, List.map_append]
      exact exchange_perm m.bytes e.bytes _ _

/-- In a strict order no entry goes in front of the one that is selected. -/
theorem select_bytes {pfunc : Bytes → Bytes → Bool} (hstrict : StrictOrder pfunc) (e : Entry) (rest : List Entry) :
    ∀ b ∈ (e :: rest).map Entry.bytes,
      pfunc (select (entryBefore pfunc) e rest).bytes b = false := by
  intro b hb
  obtain ⟨x, hx, rfl⟩ := List.mem_map.mp hb
  exact select_least (fun a ↦ hstrict.irrefl a.bytes)
    (fun a b c ↦ hstrict.trans a.bytes b.bytes c.bytes) e rest x hx

/-- The outer loop sorts the entries that are left. -/
theorem sortLoop_spec {done rest : List Entry} {fuel : Nat} (h : Shape l (done ++ rest))
    (hfuel : rest.length < fuel) :
    ∃ nodes rest', sortLoop pfunc fuel l (rest.head?.map Entry.node) =
        some { l with nodes := nodes } ∧
      Shape { l with nodes := nodes } (done ++ rest') ∧
      Sorts pfunc (rest.map Entry.bytes) (rest'.map Entry.bytes) := by
  induction fuel generalizing l done rest with
  | zero => omega
  | succ fuel ih =>
    cases rest with
    | nil => exact ⟨l.nodes, [], rfl, h, List.Perm.refl _, fun _ ↦ List.Pairwise.nil⟩
    | cons e rest =>
      rw [List.length_cons] at hfuel
      have happend : ∀ (x : Entry) (xs : List Entry), done ++ x :: xs = done ++ [x] ++ xs := by
        intro x xs
        rw [List.append_assoc, List.singleton_append]
      have hmallocs : rest.length < l.mallocs + 1 := by
        have := h.mallocs
        rw [List.length_append, List.length_cons] at this
        omega
      have hmin := minLoop_spec pfunc (m := e) (happend e rest ▸ h)
        (List.mem_append_left rest (List.mem_append_right done (List.mem_singleton_self e)))
        hmallocs
      obtain ⟨nodes, e', rest', hswap, hshape, hnode, hbytes, hlength, hperm⟩ :=
        pass_shape pfunc h
      have hat : nodes e.node = some ⟨some e'.block, rest'.head?.map Entry.node⟩ :=
        hnode ▸ hshape.node_at
      obtain ⟨nodes', rest'', hloop, hshape', hsorts⟩ := ih (happend e' rest' ▸ hshape)
        (hlength ▸ by omega)
      refine ⟨nodes', e' :: rest'', ?_, (happend e' rest'').symm ▸ hshape', ?_, ?_⟩
      · simp only [List.head?_cons, Option.map_some, sortLoop, h.node_at, hmin, hswap,
          Option.bind_eq_bind, Option.bind_some, hat]
        exact hloop
      · rw [List.map_cons]
        exact (hsorts.1.cons _).trans hperm
      · intro hstrict
        rw [List.map_cons]
        refine List.Pairwise.cons ?_ (hsorts.2 hstrict)
        intro b hb
        have hold : b ∈ (e :: rest).map Entry.bytes :=
          hperm.mem_iff.mp (List.mem_cons_of_mem _ (hsorts.1.mem_iff.mp hb))
        rw [hbytes]
        exact select_bytes hstrict e rest b hold

/-- `list_sort` permutes the elements, into order if there is one. -/
theorem listSort_holds {xs : List Bytes} (h : ListHolds l xs) :
    ∃ l' ys, listSort l pfunc = some l' ∧ ListHolds l' ys ∧ Sorts pfunc xs ys ∧
      l'.dataSize = l.dataSize := by
  obtain ⟨es, hs, rfl⟩ := h
  have hs' : Shape l ([] ++ es) := hs
  obtain ⟨d, hhead⟩ := hs'.prev_at
  have hhead' : l.nodes l.head = some ⟨d, es.head?.map Entry.node⟩ := hhead
  obtain ⟨nodes, es', hloop, hshape, hsorts⟩ :=
    sortLoop_spec pfunc hs' (Nat.lt_succ_of_le hs.mallocs)
  refine ⟨_, es'.map Entry.bytes, ?_, ⟨es', hshape, rfl⟩, hsorts, rfl⟩
  simp only [listSort, hhead', Option.bind_eq_bind, Option.bind_some]
  exact hloop

end Pass

/-! ### Runs -/

/-- What holds its elements represents them. -/
theorem represents_of_holds {l : Clist} {xs : List Bytes} (h : ListHolds l xs) :
    Represents l xs := by
  obtain ⟨es, hs, rfl⟩ := h
  refine ⟨es.map Entry.node, hs.chain, (List.nodup_cons.mp hs.nodup).2, ?_, hs.tail, ?_⟩
  · rw [List.length_map]
    exact hs.size
  · rw [List.map_map, List.map_map]
    exact List.map_congr_left fun e he ↦ hs.nodeBytes_eq he

/-- Every call that fits is carried out and has its effect. -/
theorem callStep_holds {l : Clist} {xs : List Bytes} (call : ListCall) (h : ListHolds l xs)
    (hfits : CallFits l call) :
    ∃ l' ys, callStep l call = some l' ∧ ListHolds l' ys ∧ Effect l.dataSize xs call ys ∧
      l'.dataSize = l.dataSize := by
  cases call with
  | op op =>
    obtain ⟨l', hl', hholds, hsize⟩ := listStep_meets op h hfits
    exact ⟨l', _, hl', hholds, rfl, hsize⟩
  | sort pfunc => exact listSort_holds pfunc h

/-- So is every sequence of such calls. -/
theorem run_callStep {l : Clist} {xs : List Bytes} (calls : List ListCall) (h : ListHolds l xs)
    (hfits : Along callStep CallFits l calls) :
    ∃ l' ys, run callStep l calls = some l' ∧ ListHolds l' ys ∧
      Effects l.dataSize xs calls ys := by
  induction calls generalizing l xs with
  | nil => exact ⟨l, xs, rfl, h, rfl⟩
  | cons call calls ih =>
    obtain ⟨l₁, ys, hl₁, hholds, heffect, hsize⟩ := callStep_holds call h hfits.1
    obtain ⟨l₂, zs, hl₂, hholds₂, heffects⟩ := ih hholds (hfits.2 l₁ hl₁)
    rw [hsize] at heffects
    exact ⟨l₂, zs, (run_cons_of_some callStep calls hl₁).trans hl₂, hholds₂, ys, heffect, heffects⟩

/-- After any calls that fit, the list represents what the calls stand for. -/
theorem run_list_represents (dataSize head : Nat) (calls : List ListCall)
    (hfits : Along callStep CallFits (listInit dataSize head) calls) :
    ∃ l xs, run callStep (listInit dataSize head) calls = some l ∧ Represents l xs ∧
      Effects dataSize [] calls xs := by
  obtain ⟨l, xs, hl, hholds, heffects⟩ :=
    run_callStep calls (listInit_holds dataSize head) hfits
  exact ⟨l, xs, hl, represents_of_holds hholds, heffects⟩

/-- Two elements, sorted. -/
theorem run_list_represents_two :
    ∃ l xs, run callStep (listInit 1 0) [.op (.addBack (some 1) (some 2) [7]),
        .op (.addFront (some 3) (some 4) [9]), .sort fun a b ↦ decide (b.headD 0 < a.headD 0)] =
          some l ∧ Represents l xs ∧
      Effects 1 [] [.op (.addBack (some 1) (some 2) [7]), .op (.addFront (some 3) (some 4) [9]),
        .sort fun a b ↦ decide (b.headD 0 < a.headD 0)] xs := by
  refine run_list_represents 1 0 _ ⟨?_, fun t ht ↦ ⟨?_, fun _ _ ↦ ⟨trivial, fun _ _ ↦ trivial⟩⟩⟩
  · rintro a ⟨⟩
    exact ⟨rfl, ⟨2, rfl, rfl⟩, by decide, by decide⟩
  · cases ht
    rintro a ⟨⟩
    exact ⟨by decide, ⟨4, rfl, by decide⟩, by decide, by decide⟩

/-! ### More additions than `size` counts -/

/-- Additions at the back, with a new node and a new block each. -/
def additions (n : Nat) : List ListCall :=
  (List.range n).map fun i ↦ .op (.addBack (some (i + 1)) (some i) [0])

/-- An addition at the back of a list whose last node is allocated. -/
theorem listAddBack_eq {l : Clist} {a b : Nat} {data : Bytes} {c : Cell Nat (Option Nat)}
    (hlen : l.dataSize ≤ data.length) (htail : l.nodes l.tail = some c) (ha : l.tail ≠ a) :
    listAddBack l (some a) (some b) data = some ({ l with
      nodes := (l.nodes.set a ⟨some b, none⟩).set l.tail { c with next := some a }
      blocks := Function.update l.blocks b (some (data.take l.dataSize))
      mallocs := l.mallocs + 1
      tail := a
      size := (l.size + 1) % 2 ^ 32 }, true) := by
  have hset : l.nodes.set a ⟨some b, none⟩ l.tail = some c := by rw [Heap.set_of_ne _ _ ha, htail]
  simp only [listAddBack, copied_of_le hlen, Heap.setNext_of_some hset, Option.bind_eq_bind,
    Option.bind_some]

/-- The list after so many additions. -/
structure Added (n : Nat) (l : Clist) : Prop where
  holds : ListHolds l (List.replicate n [0])
  head : l.head = 0
  tail : l.tail = n
  dataSize : l.dataSize = 1
  nodes : ∀ p, n < p → l.nodes p = none
  blocks : ∀ b, n ≤ b → l.blocks b = none

/-- The last node of a list is allocated. -/
theorem tail_allocated {l : Clist} {xs : List Bytes} (h : ListHolds l xs) :
    ∃ c, l.nodes l.tail = some c := by
  obtain ⟨es, hs, rfl⟩ := h
  obtain ⟨d, hd⟩ := hs.chain.2
  rw [hs.tail]
  exact ⟨_, hd⟩

/-- The list has as many elements as it says. -/
theorem size_of_holds {l : Clist} {xs : List Bytes} (h : ListHolds l xs) : l.size = xs.length := by
  obtain ⟨es, hs, rfl⟩ := h
  rw [hs.size, List.length_map]

/-- One addition more. -/
theorem added_succ {n : Nat} {l : Clist} (h : Added n l) (hn : n + 1 < 2 ^ 32) :
    ∃ l', callStep l (.op (.addBack (some (n + 1)) (some n) [0])) = some l' ∧ Added (n + 1) l' := by
  obtain ⟨c, hc⟩ := tail_allocated h.holds
  have hsize := size_of_holds h.holds
  rw [List.length_replicate] at hsize
  have hlen : l.dataSize ≤ [(0 : UInt8)].length := by rw [h.dataSize]; exact Nat.le_refl 1
  have hfits : AddFits l (some (n + 1)) (some n) [0] := by
    rintro a ⟨⟩
    exact ⟨h.nodes _ (Nat.lt_succ_self n), ⟨n, rfl, h.blocks n (Nat.le_refl n)⟩, hlen,
      by rw [hsize]; exact hn⟩
  have htail : l.tail ≠ n + 1 := by rw [h.tail]; omega
  obtain ⟨l', hl', hholds, hsize'⟩ := addBack_meets h.holds hfits
  have hstep := listAddBack_eq (b := n) hlen hc htail
  refine ⟨l', hl', ?_⟩
  rw [listStep, hstep] at hl'
  rw [h.dataSize] at hholds hsize'
  have helements : elementsStep 1 (List.replicate n [0]) (.addBack (some (n + 1)) (some n) [0]) =
      List.replicate (n + 1) [0] := by
    rw [List.replicate_succ']
    rfl
  rw [helements] at hholds
  cases hl'
  refine ⟨hholds, h.head, rfl, hsize', ?_, ?_⟩
  · intro p hp
    show (l.nodes.set (n + 1) _).set l.tail _ p = none
    rw [Heap.set_of_ne _ _ (by rw [h.tail]; omega), Heap.set_of_ne _ _ (by omega)]
    exact h.nodes p (by omega)
  · intro b hb
    show Function.update l.blocks n _ b = none
    rw [Function.update_of_ne (by omega)]
    exact h.blocks b (by omega)

/-- A run with one call more at its end. -/
theorem run_concat {l l' : Clist} (calls : List ListCall) {call : ListCall} {s : Clist}
    (h : run callStep s calls = some l) (hl : callStep l call = some l') :
    run callStep s (calls ++ [call]) = some l' := by
  induction calls generalizing s with
  | nil =>
    rw [← Option.some.inj h] at hl
    rw [List.nil_append, run_cons_of_some callStep [] hl, run_nil]
  | cons first calls ih =>
    obtain ⟨t, ht, hrest⟩ := (run_cons_eq_some callStep).mp h
    rw [List.cons_append, run_cons_of_some callStep _ ht]
    exact ih hrest

/-- Additions as far as `size` counts. -/
theorem run_additions {n : Nat} (hn : n < 2 ^ 32) :
    ∃ l, run callStep (listInit 1 0) (additions n) = some l ∧ Added n l := by
  induction n with
  | zero =>
    refine ⟨listInit 1 0, rfl, listInit_holds 1 0, rfl, rfl, rfl, ?_, fun _ _ ↦ rfl⟩
    intro p hp
    exact Heap.set_of_ne (fun _ ↦ none) ⟨none, none⟩ (by omega)
  | succ n ih =>
    obtain ⟨l, hl, hadded⟩ := ih (by omega)
    obtain ⟨l', hl', hadded'⟩ := added_succ hadded hn
    refine ⟨l', ?_, hadded'⟩
    rw [additions, List.range_succ, List.map_append]
    exact run_concat _ hl hl'

/-- The addition with which `size` wraps leaves a list that is not empty and says it is. -/
theorem not_represents_of_wrap {n : Nat} {l : Clist} (h : Added n l) (hn : n + 1 = 2 ^ 32) :
    ∃ l', callStep l (.op (.addBack (some (n + 1)) (some n) [0])) = some l' ∧
      ¬ ∃ xs, Represents l' xs := by
  obtain ⟨c, hc⟩ := tail_allocated h.holds
  have hsize := size_of_holds h.holds
  rw [List.length_replicate] at hsize
  have hlen : l.dataSize ≤ [(0 : UInt8)].length := by rw [h.dataSize]; exact Nat.le_refl 1
  have htail : l.tail ≠ n + 1 := by rw [h.tail]; omega
  have hstep := listAddBack_eq (b := n) hlen hc htail
  refine ⟨_, congrArg (Option.map Prod.fst) hstep, ?_⟩
  rintro ⟨xs, reached, hchain, -, hcount, -, -⟩
  have hzero : reached.length = 0 := by
    rw [← hcount]
    show (l.size + 1) % 2 ^ 32 = 0
    rw [hsize, hn, Nat.mod_self]
  rw [List.length_eq_zero_iff.mp hzero] at hchain
  obtain ⟨d, hd⟩ := Heap.chain_nil.mp hchain
  have hd : (l.nodes.set (n + 1) ⟨some n, none⟩).set l.tail { c with next := some (n + 1) } l.head =
      some ⟨d, none⟩ := hd
  have hne : l.head ≠ l.tail := by rw [h.head, h.tail]; omega
  rw [Heap.set_of_ne _ _ hne, Heap.set_of_ne _ _ (by rw [h.head]; omega)] at hd
  obtain ⟨es, hs, hes⟩ := h.holds
  have hpos : 0 < es.length := by rw [← hs.size, hsize]; omega
  obtain ⟨d', hd'⟩ := hs.chain.start
  obtain ⟨e, es, rfl⟩ := List.exists_cons_of_length_pos hpos
  rw [hd'] at hd
  cases hd

/-- With one addition more than `size` counts it is 0 for a list that is not empty; and a block that
`malloc` refuses is written to. -/
theorem additions_not_represents :
    (∃ l, run callStep (listInit 1 0) (additions (2 ^ 32)) = some l ∧ ¬ ∃ xs, Represents l xs) ∧
      run callStep (listInit 1 0) [.op (.addBack (some 1) none [0])] = none := by
  refine ⟨?_, rfl⟩
  obtain ⟨n, hn⟩ : ∃ n, n + 1 = 2 ^ 32 := ⟨2 ^ 32 - 1, by omega⟩
  obtain ⟨l, hl, hadded⟩ := run_additions (by omega : n < 2 ^ 32)
  obtain ⟨l', hl', hnot⟩ := not_represents_of_wrap hadded hn
  refine ⟨l', ?_, hnot⟩
  rw [← hn, additions, List.range_succ, List.map_append]
  exact run_concat _ hl hl'

end OpenWrtCompile.Server
