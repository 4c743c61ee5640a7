import OpenWrtCompile.Server.JsonPasses

/-!
# Open and complete values

What holds of the memory that grows between two bytes of a text
(`shadowsocksr-libev/src/server/json.c:232–889`): a value above `top` is open and waits for the one below
it, and every other one is complete.
-/

namespace OpenWrtCompile.Server.JsonParser
open OpenWrtCompile.Base

/-! ## Between two bytes -/

/-- The names of members, each with the byte 0 behind it. -/
def nameBytes (members : List (Bytes × Option Nat)) : Bytes := members.flatMap fun m ↦ m.1 ++ [0]

/-- One more name. -/
theorem nameBytes_append (members : List (Bytes × Option Nat)) (m : Bytes × Option Nat) :
    nameBytes (members ++ [m]) = nameBytes members ++ (m.1 ++ [0]) := by
  rw [nameBytes, nameBytes, List.flatMap_append, List.flatMap_singleton]

namespace Node

/-- The lengths of a value are those of what it holds. `read` is what is read of a string or a name, and
`waiting` members have a name and no value. -/
structure Holds (n : Node) (read : Option Bytes) (waiting : Nat) : Prop where
  text : n.text = read
  items : n.type = .array → n.items.length = n.length
  members : n.type = .object → n.members.length = n.length + waiting
  names : n.type = .object → n.names = (nameBytes n.members).length
  bytes : n.type = .string → read = none → n.bytes.length = n.length

/-- A value that waits for the next one. -/
def Waiting (n : Node) : Prop :=
  n.type = .array ∧ n.Holds none 0 ∨ n.type = .object ∧ n.Holds none 1

/-- A string or a name of which some bytes are read. -/
def Reading (n : Node) (length : Nat) : Prop :=
  ∃ text, text.length = length ∧ n.Holds (some text) 0 ∧ (n.type = .string ∨ n.type = .object)

/-- A new value holds nothing. -/
theorem holds_zero (type : JsonType) : (zero type).Holds (zero type).text 0 :=
  ⟨rfl, fun _ ↦ rfl, fun _ ↦ rfl, fun _ ↦ rfl, fun _ _ ↦ rfl⟩

/-- The last item is changed. -/
theorem modify_last {α : Type} (f : α → α) (l : List α) (a : α) :
    (l ++ [a]).modify l.length f = l ++ [f a] := by
  induction l with
  | nil => rfl
  | cons b l ih => rw [List.cons_append, List.length_cons, List.modify_succ_cons, ih, List.cons_append]

/-- The member that waits gets its value. -/
theorem exists_members {n : Node} (h : n.Holds none 1) (htype : n.type = .object) :
    ∃ ms m, n.members = ms ++ [m] ∧ ms.length = n.length ∧
      ∀ k, (n.attach k).members = ms ++ [(m.1, some k)] := by
  have hlen := h.members htype
  rcases List.eq_nil_or_concat' n.members with hnil | ⟨ms, m, hms⟩
  · rw [hnil] at hlen
    exact absurd hlen.symm (Nat.succ_ne_zero _)
  · rw [hms, List.length_append, List.length_singleton] at hlen
    have hcount : ms.length = n.length := Nat.succ.inj hlen
    refine ⟨ms, m, hms, hcount, fun k ↦ ?_⟩
    rw [attach, if_pos htype, hms, ← hcount, modify_last]

/-- Names stay as they are. -/
theorem nameBytes_attach {n : Node} (h : n.Waiting) (k : Nat) :
    nameBytes (n.attach k).members = nameBytes n.members := by
  rcases h with ⟨htype, -⟩ | ⟨htype, hholds⟩
  · simp only [attach, htype, reduceCtorEq, if_false]
  · obtain ⟨ms, m, hms, -, hattach⟩ := exists_members hholds htype
    rw [hattach, hms, nameBytes_append, nameBytes_append]

/-- The next value of an array or an object. -/
theorem holds_attach {n : Node} (h : n.Waiting) (k : Nat) : (n.attach k).Holds none 0 := by
  have hnames := nameBytes_attach h k
  rcases h with ⟨htype, hholds⟩ | ⟨htype, hholds⟩
  · have hne : n.type ≠ .object := by rw [htype]; exact nofun
    have hstring : n.type ≠ .string := by rw [htype]; exact nofun
    refine ⟨hholds.text, fun _ ↦ ?_, fun h ↦ absurd h hne, fun h ↦ absurd h hne,
      fun h ↦ absurd h hstring⟩
    simp only [attach, Counted.attach, if_pos htype, List.length_append, List.length_singleton,
      hholds.items htype]
  · have hne : n.type ≠ .array := by rw [htype]; exact nofun
    have hstring : n.type ≠ .string := by rw [htype]; exact nofun
    refine ⟨hholds.text, fun h ↦ absurd h hne, fun _ ↦ ?_, fun _ ↦ ?_, fun h ↦ absurd h hstring⟩
    · simp only [attach, Counted.attach, if_pos htype, List.length_modify, hholds.members htype]
    · rw [hnames]
      exact hholds.names htype

end Node

/-- What holds of the value at `top` in a mode. -/
def Mode.Top : Mode → Node → Prop
  | .inside, n => n.Holds none 0 ∧ (n.type = .object ∨ n.type.IsNumber)
  | .seeking _, n => n.Waiting
  | .reading length, n => n.Reading length
  | .done, n => n.Holds none 0

/-- Values that are not open are complete, and those above `top` wait for the one below. -/
structure Sound (P : Node → Prop) (g : Grown) : Prop where
  path : g.path.Pairwise (· > ·)
  bound : ∀ k ∈ g.path, k < g.nodes.length
  closed : ∀ k n, g.nodes[k]? = some n → k ∉ g.path → n.Holds none 0
  parents : ∀ k ∈ g.path.tail, ∀ n, g.nodes[k]? = some n → n.Waiting
  top : ∀ k ∈ g.path.head?, ∀ n, g.nodes[k]? = some n → P n

section Sound

variable {P Q : Node → Prop} {g : Grown}

/-- The value at `top` is changed. -/
theorem Sound.modify (h : Sound P g) {k : Nat} {path : List Nat} (hpath : g.path = k :: path)
    {f : Node → Node} (hf : ∀ n, P n → Q (f n)) :
    Sound Q { g with nodes := g.nodes.modify k f } where
  path := h.path
  bound i hi := by
    rw [List.length_modify]
    exact h.bound i hi
  closed i n hn hi := by
    have hne : k ≠ i := by
      rintro rfl
      exact hi (by rw [hpath]; exact List.mem_cons_self)
    replace hn := (List.getElem?_modify_ne _ _ hne).symm.trans hn
    exact h.closed i n hn hi
  parents i hi n hn := by
    have hne : k ≠ i := by
      rintro rfl
      have hdown := h.path
      rw [hpath] at hdown hi
      exact absurd ((List.pairwise_cons.mp hdown).1 k hi) (Nat.lt_irrefl k)
    replace hn := (List.getElem?_modify_ne _ _ hne).symm.trans hn
    exact h.parents i hi n hn
  top i hi n hn := by
    have hk : k = i := by
      rw [hpath] at hi
      exact Option.some.inj hi
    subst hk
    replace hn := (List.getElem?_modify_eq ..).symm.trans hn
    obtain ⟨n', hn', rfl⟩ := Option.map_eq_some_iff.mp hn
    exact hf n' (h.top k hi n' hn')

/-- A new value in front of which `top` waits. -/
theorem Sound.push (h : Sound Node.Waiting g) {n : Node} (hn : Q n) :
    Sound Q ⟨g.nodes ++ [n], g.nodes.length :: g.path⟩ where
  path := List.pairwise_cons.mpr ⟨h.bound, h.path⟩
  bound k hk := by
    rw [List.length_append, List.length_singleton]
    rcases List.mem_cons.mp hk with rfl | hk
    · exact Nat.lt_succ_self _
    · exact Nat.lt_succ_of_lt (h.bound k hk)
  closed k m hm hk := by
    rw [List.mem_cons, not_or] at hk
    have hlt : k < g.nodes.length := by
      have hlen := (List.getElem?_eq_some_iff.mp hm).1
      rw [List.length_append, List.length_singleton] at hlen
      omega
    rw [List.getElem?_append_left hlt] at hm
    exact h.closed k m hm hk.2
  parents k hk m hm := by
    rw [List.getElem?_append_left (h.bound k hk)] at hm
    cases hpath : g.path with
    | nil =>
      rw [List.tail_cons, hpath] at hk
      cases hk
    | cons j path =>
      rw [List.tail_cons, hpath] at hk
      rcases List.mem_cons.mp hk with rfl | hk
      · exact h.top k (by rw [hpath]; rfl) m hm
      · exact h.parents k (by rw [hpath]; exact hk) m hm
  top k hk m hm := by
    cases hk
    rw [List.getElem?_append_right (Nat.le_refl _), Nat.sub_self] at hm
    cases hm
    exact hn

/-- A complete value becomes the next one of its parent. -/
theorem Sound.attach (h : Sound (·.Holds none 0) g) {k p : Nat} {path : List Nat}
    (hpath : g.path = k :: p :: path) (hQ : ∀ n, n.Waiting → g.nodes[p]? = some n → Q (n.attach k)) :
    Sound Q ⟨g.nodes.modify p (·.attach k), p :: path⟩ := by
  have hdown := h.path
  rw [hpath] at hdown
  obtain ⟨hk, hdown⟩ := List.pairwise_cons.mp hdown
  have hwait (n : Node) (hn : g.nodes[p]? = some n) : n.Waiting :=
    h.parents p (by rw [hpath]; exact List.mem_cons_self) n hn
  refine ⟨hdown, fun i hi ↦ ?_, fun i n hn hi ↦ ?_, fun i hi n hn ↦ ?_, fun i hi n hn ↦ ?_⟩
  · rw [List.length_modify]
    exact h.bound i (by rw [hpath]; exact List.mem_cons_of_mem k hi)
  · have hne : p ≠ i := by
      rintro rfl
      exact hi List.mem_cons_self
    replace hn := (List.getElem?_modify_ne _ _ hne).symm.trans hn
    by_cases hik : i = k
    · exact h.top i (by rw [hpath, hik]; rfl) n hn
    · refine h.closed i n hn ?_
      rw [hpath, List.mem_cons, not_or]
      exact ⟨hik, hi⟩
  · have hne : p ≠ i := by
      rintro rfl
      exact absurd ((List.pairwise_cons.mp hdown).1 p hi) (Nat.lt_irrefl p)
    replace hn := (List.getElem?_modify_ne _ _ hne).symm.trans hn
    exact h.parents i (by rw [hpath]; exact List.mem_cons_of_mem p hi) n hn
  · cases hi
    replace hn := (List.getElem?_modify_eq ..).symm.trans hn
    obtain ⟨n', hn', rfl⟩ := Option.map_eq_some_iff.mp hn
    exact hQ n' (hwait n' hn') hn'

/-- Another property of `top`. -/
theorem Sound.mono (h : Sound P g) (hQ : ∀ n, P n → Q n) : Sound Q g :=
  ⟨h.path, h.bound, h.closed, h.parents, fun k hk n hn ↦ hQ n (h.top k hk n hn)⟩

/-- The value at `top`. -/
theorem Sound.node (h : Sound P g) {k : Nat} {path : List Nat} (hpath : g.path = k :: path) :
    ∃ n, g.nodes[k]? = some n ∧ P n := by
  have hlt := h.bound k (by rw [hpath]; exact List.mem_cons_self)
  exact ⟨_, List.getElem?_eq_getElem hlt, h.top k (by rw [hpath]; rfl) _ (List.getElem?_eq_getElem hlt)⟩

end Sound

end OpenWrtCompile.Server.JsonParser
