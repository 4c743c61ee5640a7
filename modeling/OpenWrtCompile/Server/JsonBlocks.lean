import OpenWrtCompile.Server.JsonSound

/-!
# The blocks of the second pass

How the lists of the memory that grows lie in the blocks that `new_value` allocates
(`shadowsocksr-libev/src/server/json.c:122–196`). The values from the first pass say how long each list
is going to be, so that every write of the second pass is inside its block.
-/

namespace OpenWrtCompile.Server.JsonParser
open OpenWrtCompile.Base

/-! ## Values that grow -/

namespace Node

/-- The bytes of a string so far. -/
def stringSize (n : Node) : Nat := (n.text.getD n.bytes).length

/-- The bytes of the names so far, with the byte 0 behind each. -/
def nameSize (n : Node) : Nat := (nameBytes n.members).length + (n.text.map (·.length + 1)).getD 0

/-- A value may grow into another one. -/
structure Le (n f : Node) : Prop where
  type : n.type = f.type ∨ n.type.IsNumber ∧ f.type.IsNumber
  string : n.type = .string → n.stringSize ≤ f.stringSize
  names : n.type = .object → n.nameSize ≤ f.nameSize
  members : n.members.length ≤ f.members.length
  items : n.items.length ≤ f.items.length
  boolean : n.boolean = true → f.boolean = true

variable {n m f : Node}

/-- A value has grown into itself. -/
theorem Le.refl (n : Node) : n.Le n :=
  ⟨.inl rfl, fun _ ↦ Nat.le_refl _, fun _ ↦ Nat.le_refl _, Nat.le_refl _, Nat.le_refl _, id⟩

/-- The type of a value that is no number is final. -/
theorem Le.type_eq (h : n.Le f) {type : JsonType} (hn : n.type = type) (htype : ¬ type.IsNumber) :
    f.type = type := by
  rcases h.type with heq | hnumber
  · exact heq.symm.trans hn
  · exact absurd (hn ▸ hnumber.1) htype

/-- Growing on. -/
theorem Le.trans (h : n.Le m) (h' : m.Le f) : n.Le f where
  type := by
    rcases h.type with heq | hnumber
    · rw [heq]
      exact h'.type
    · rcases h'.type with heq | hnumber'
      · exact .inr ⟨hnumber.1, heq ▸ hnumber.2⟩
      · exact .inr ⟨hnumber.1, hnumber'.2⟩
  string hn := (h.string hn).trans (h'.string (h.type_eq hn (by rintro (h | h) <;> cases h)))
  names hn := (h.names hn).trans (h'.names (h.type_eq hn (by rintro (h | h) <;> cases h)))
  members := h.members.trans h'.members
  items := h.items.trans h'.items
  boolean hn := h'.boolean (h.boolean hn)

end Node

/-- Every value may grow into the one at its index. -/
def Grown.Le (g F : Grown) : Prop :=
  ∀ (k : Nat) (n : Node), g.nodes[k]? = some n → ∃ f, F.nodes[k]? = some f ∧ n.Le f

namespace Grown

variable {g F : Grown}

/-- Growing on. -/
theorem Le.trans {g' : Grown} (h : g.Le g') (h' : g'.Le F) : g.Le F := fun k n hn ↦ by
  obtain ⟨m, hm, hle⟩ := h k n hn
  obtain ⟨f, hf, hle'⟩ := h' k m hm
  exact ⟨f, hf, hle.trans hle'⟩

/-- Nothing has changed. -/
theorem Le.refl (g : Grown) : g.Le g := fun _ n hn ↦ ⟨n, hn, .refl n⟩

/-- One value has grown. -/
theorem le_modify {k : Nat} {f : Node → Node} (hf : ∀ n, g.nodes[k]? = some n → n.Le (f n)) :
    g.Le { g with nodes := g.nodes.modify k f } := fun i n hn ↦ by
  by_cases hik : k = i
  · subst hik
    exact ⟨f n, by rw [List.getElem?_modify_eq, hn]; rfl, hf n hn⟩
  · exact ⟨n, by rw [List.getElem?_modify_ne _ _ hik]; exact hn, .refl n⟩

/-- There is one more value. -/
theorem le_push (g : Grown) (n : Node) (path : List Nat) : g.Le ⟨g.nodes ++ [n], path⟩ := fun k m hm ↦
  ⟨m, by rw [List.getElem?_append_left (List.getElem?_eq_some_iff.mp hm).1]; exact hm, .refl m⟩

/-- The names of an object take a number of bytes at most. -/
def NamesLe (g : Grown) (size : Nat) : Prop := ∀ n ∈ g.nodes, n.type = .object → n.nameSize ≤ size

/-- One value has got longer names. -/
theorem namesLe_modify {size d k : Nat} {f : Node → Node} (h : g.NamesLe size)
    (hf : ∀ n, g.nodes[k]? = some n → (f n).type = .object → n.type = .object ∧
      (f n).nameSize ≤ n.nameSize + d) : NamesLe { g with nodes := g.nodes.modify k f } (size + d) := by
  intro n hn htype
  obtain ⟨i, hi⟩ := List.mem_iff_getElem?.mp hn
  by_cases hik : k = i
  · subst hik
    replace hi := (List.getElem?_modify_eq ..).symm.trans hi
    obtain ⟨n', hn', rfl⟩ := Option.map_eq_some_iff.mp hi
    obtain ⟨htype', hsize⟩ := hf n' hn' htype
    exact hsize.trans (Nat.add_le_add_right (h n' (List.mem_of_getElem? hn') htype') d)
  · replace hi := (List.getElem?_modify_ne _ _ hik).symm.trans hi
    exact (h n (List.mem_of_getElem? hi) htype).trans (Nat.le_add_right ..)

end Grown

/-! ## Lists in blocks -/

/-- The members as they lie in their block, the first name being at an offset. -/
def layout : Nat → List (Bytes × Option Nat) → List Member
  | _, [] => []
  | off, m :: ms => ⟨off, m.1.length, m.2⟩ :: layout (off + (m.1.length + 1)) ms

/-- One more member. -/
theorem layout_append (off : Nat) (members : List (Bytes × Option Nat)) (m : Bytes × Option Nat) :
    layout off (members ++ [m]) =
      layout off members ++ [⟨off + (nameBytes members).length, m.1.length, m.2⟩] := by
  induction members generalizing off with
  | nil => rfl
  | cons a members ih =>
    rw [List.cons_append, layout, layout, ih, List.cons_append]
    simp only [nameBytes, List.flatMap_cons, List.length_append, List.length_singleton, Nat.add_assoc]

/-- A member takes one cell. -/
theorem length_layout (off : Nat) (members : List (Bytes × Option Nat)) :
    (layout off members).length = members.length := by
  induction members generalizing off with
  | nil => rfl
  | cons m members ih => rw [layout, List.length_cons, List.length_cons, ih]

/-- What a string has written. -/
def Node.cells (n : Node) : Bytes := n.text.getD (n.bytes ++ [0])

/-- A value in the blocks of what it grows into. -/
def place (f n : Node) : Value :=
  match f.type with
  | .array => ⟨.array, n.length, f.integer, f.boolean, [], .filled n.items f.length, [], [], 0⟩
  | .object =>
    ⟨.object, n.length, f.integer, f.boolean, [], [], .filled (layout 0 n.members) f.length,
      .filled (nameBytes n.members ++ n.text.getD []) f.names, (nameBytes n.members).length⟩
  | .string =>
    ⟨.string, n.length, f.integer, f.boolean, .filled n.cells (f.length + 1), [], [], [], 0⟩
  | type => ⟨type, f.length, f.integer, f.boolean, [], [], [], [], 0⟩

/-- Where the string or the name that is read lies. -/
def Node.pointer (n : Node) (k : Nat) : Option Pointer :=
  n.text.map fun _ ↦ if n.type = .string then .string k else .names k (nameBytes n.members).length

/-- The pointer of the value at `top`. -/
def Grown.pointer (g : Grown) : Option Pointer :=
  match g.path with
  | [] => none
  | k :: _ => (g.nodes[k]?).bind (·.pointer k)

/-- The second pass where the values so far have grown, in the blocks of what they grow into. -/
def build (F g : Grown) : SecondPass where
  chain := (F.nodes.drop g.nodes.length).map Node.toCounted
  values := List.zipWith place F.nodes g.nodes
  path := g.path
  string := g.pointer

/-- What the first pass has counted is what is held, and the members of an object take less than 2 GiB. -/
structure Fits (F : Grown) : Prop where
  holds : ∀ f ∈ F.nodes, f.Holds none 0
  small : ∀ f ∈ F.nodes, f.type = .object → 24 * f.length < 2 ^ 31

section Build

variable {F g : Grown} {k : Nat} {n f : Node}

/-- A value and its blocks. -/
theorem build_value (hf : F.nodes[k]? = some f) (hn : g.nodes[k]? = some n) :
    (build F g).values[k]? = some (place f n) := by
  rw [build, List.getElem?_zipWith, hf, hn]

/-- A value that has grown in its blocks. -/
theorem build_modify (hf : F.nodes[k]? = some f) (hn : g.nodes[k]? = some n) (h : Node → Node)
    (path : List Nat) : build F ⟨g.nodes.modify k h, path⟩ =
      ⟨(build F g).chain, (build F g).values.set k (place f (h n)), path,
        (Grown.mk (g.nodes.modify k h) path).pointer⟩ := by
  have hvalues : List.zipWith place F.nodes (g.nodes.modify k h) =
      (List.zipWith place F.nodes g.nodes).set k (place f (h n)) := by
    apply List.ext_getElem?
    intro i
    by_cases hik : k = i
    · subst hik
      have hlt : k < (List.zipWith place F.nodes g.nodes).length := by
        rw [List.length_zipWith]
        exact Nat.lt_min.mpr
          ⟨(List.getElem?_eq_some_iff.mp hf).1, (List.getElem?_eq_some_iff.mp hn).1⟩
      rw [List.getElem?_zipWith, List.getElem?_modify_eq, hf, hn, List.getElem?_set_self hlt]
      rfl
    · rw [List.getElem?_zipWith, List.getElem?_modify_ne _ _ hik, List.getElem?_set_ne hik,
        List.getElem?_zipWith]
  rw [build, hvalues, List.length_modify]
  rfl

end Build

/-! ## Actions -/

/-- The second pass does not read numbers. -/
def Action.numeric : Action → Bool
  | .digit _ | .toDouble | .negate => true
  | _ => false

/-- What the second pass writes. -/
def written (as : List Action) : List Action := as.filter (!·.numeric)

/-- What actions do to the values, with a number of bytes of the text. -/
structure Grows (as : List Action) (k : Nat) (g g' : Grown) : Prop where
  le : g.Le g'
  names : ∀ size, g.NamesLe size → g'.NamesLe (size + k)
  sync : ∀ F, Fits F → g'.Le F → secondPass.acts (written as) (build F g) = .ok (build F g')

/-- Actions one after the other. -/
theorem acts_append {M : Type} (mem : Memory M) (as bs : List Action) (m : M) :
    mem.acts (as ++ bs) m =
      match mem.acts as m with
      | .ok m => mem.acts bs m
      | .tooLong => .tooLong
      | .undefined => .undefined := by
  induction as generalizing m with
  | nil => rfl
  | cons a as ih =>
    rw [List.cons_append, Memory.acts, Memory.acts]
    cases mem.act a m with
    | ok m' => exact ih m'
    | tooLong | undefined => rfl

/-- Actions that both succeed. -/
theorem acts_append_ok {M : Type} {mem : Memory M} {as bs : List Action} {m m' m'' : M}
    (h : mem.acts as m = .ok m') (h' : mem.acts bs m' = .ok m'') :
    mem.acts (as ++ bs) m = .ok m'' := by
  rw [acts_append, h]
  exact h'

/-- Where actions go that succeed. -/
theorem exists_of_acts_append {M : Type} {mem : Memory M} {as bs : List Action} {m m'' : M}
    (h : mem.acts (as ++ bs) m = .ok m'') : ∃ m', mem.acts as m = .ok m' ∧ mem.acts bs m' = .ok m'' := by
  rw [acts_append] at h
  split at h
  · next m' hm' => exact ⟨m', hm', h⟩
  · cases h
  · cases h

/-- Where the first of the actions goes. -/
theorem exists_of_acts_cons {M : Type} {mem : Memory M} {a : Action} {as : List Action} {m m'' : M}
    (h : mem.acts (a :: as) m = .ok m'') : ∃ m', mem.act a m = .ok m' ∧ mem.acts as m' = .ok m'' := by
  rw [Memory.acts] at h
  split at h
  · next m' hm' => exact ⟨m', hm', h⟩
  · cases h
  · cases h

namespace Grows

variable {as bs : List Action} {i j : Nat} {g g' g'' : Grown}

/-- No action. -/
theorem refl (g : Grown) : Grows [] 0 g g := ⟨.refl g, fun _ h ↦ h, fun _ _ _ ↦ rfl⟩

/-- Actions one after the other. -/
theorem trans (h : Grows as i g g') (h' : Grows bs j g' g'') : Grows (as ++ bs) (i + j) g g'' where
  le := h.le.trans h'.le
  names size hsize := by
    rw [← Nat.add_assoc]
    exact h'.names _ (h.names _ hsize)
  sync F hF hle := by
    rw [written, List.filter_append]
    exact acts_append_ok (h.sync F hF (h'.le.trans hle)) (h'.sync F hF hle)

/-- More bytes of the text. -/
theorem mono (h : Grows as i g g') (hij : i ≤ j) : Grows as j g g' :=
  ⟨h.le, fun size hsize n hn htype ↦ (h.names size hsize n hn htype).trans (Nat.add_le_add_left hij size),
    h.sync⟩

end Grows

/-- A change of the value at `top`, in both memories. -/
theorem grows_edit {a : Action} {P : Node → Prop} {g : Grown} {k d : Nat} {path : List Nat}
    {h : Node → Node} (hsound : Sound P g) (hpath : g.path = k :: path)
    (hnode : ∀ n, P n → n.Le (h n) ∧
      ((h n).type = .object → n.type = .object ∧ (h n).nameSize ≤ n.nameSize + d))
    (hsync : ∀ n f (m : SecondPass), P n → f.Holds none 0 → (h n).Le f → m.path = k :: path →
      m.values[k]? = some (place f n) → m.string = n.pointer k → secondPass.acts (written [a]) m =
        .ok ⟨m.chain, m.values.set k (place f (h n)), m.path, (h n).pointer k⟩) :
    Grows [a] d g { g with nodes := g.nodes.modify k h } where
  le := Grown.le_modify fun n hn ↦ (hnode n (hsound.top k (by rw [hpath]; rfl) n hn)).1
  names size hsize := Grown.namesLe_modify hsize fun n hn ↦
    (hnode n (hsound.top k (by rw [hpath]; rfl) n hn)).2
  sync F hF hle := by
    obtain ⟨n, hn, hP⟩ := hsound.node hpath
    have hn' : (g.nodes.modify k h)[k]? = some (h n) := by
      rw [List.getElem?_modify_eq, hn]
      rfl
    obtain ⟨f, hf, hnf⟩ := hle k (h n) hn'
    rw [build_modify hf hn]
    have hpointer : (Grown.mk (g.nodes.modify k h) g.path).pointer = (h n).pointer k := by
      simp only [Grown.pointer, hpath, hn', Option.bind_some]
    rw [hpointer]
    refine hsync n f _ hP (hF.holds f (List.mem_of_getElem? hf)) hnf hpath (build_value hf hn) ?_
    simp only [build, Grown.pointer, hpath, hn, Option.bind_some]

/-- A value that is written as it is. -/
theorem set_same {V : Type} {values : List V} {k : Nat} {v : V} (h : values[k]? = some v) :
    values.set k v = values := by
  obtain ⟨hlt, rfl⟩ := List.getElem?_eq_some_iff.mp h
  exact List.set_getElem_self hlt

/-- An action that both passes have. -/
theorem acts_one {a : Action} (ha : a.numeric = false) (m : SecondPass) :
    secondPass.acts (written [a]) m = secondPass.act a m := by
  have hwritten : written [a] = [a] := by
    rw [written, List.filter_cons_of_pos (by rw [ha]; rfl), List.filter_nil]
  rw [hwritten, Memory.acts]
  cases secondPass.act a m <;> rfl

section Changes

variable {m : SecondPass} {k : Nat} {path : List Nat} {u v w : Value} {φ ψ : Value → Option Value}

/-- A change of a value. -/
theorem modify_ok (hu : m.values[k]? = some u) (hφ : φ u = some v) :
    m.modify k φ = .ok ⟨m.chain, m.values.set k v, m.path, m.string⟩ := by
  rw [SecondPass.modify, hu, Option.bind_some, hφ]

/-- A change of the value at `top`. -/
theorem modifyTop_ok (hpath : m.path = k :: path) (hu : m.values[k]? = some u) (hφ : φ u = some v) :
    m.modifyTop φ = .ok ⟨m.chain, m.values.set k v, m.path, m.string⟩ := by
  rw [← modify_ok hu hφ, SecondPass.modifyTop, hpath]

/-- The value at `top` is changed again. -/
theorem modifyTop_again (hpath : m.path = k :: path) (hu : m.values[k]? = some u) (hψ : ψ v = some w)
    (string : Option Pointer) :
    SecondPass.modifyTop ⟨m.chain, m.values.set k v, m.path, string⟩ ψ =
      .ok ⟨m.chain, m.values.set k w, m.path, string⟩ := by
  have hlt := (List.getElem?_eq_some_iff.mp hu).1
  have hv := modifyTop_ok (m := ⟨m.chain, m.values.set k v, m.path, string⟩) hpath
    (List.getElem?_set_self hlt) hψ
  rw [hv, List.set_set]

end Changes

section Edits

variable {P : Node → Prop} {g g' : Grown}

/-- `top->u.boolean = 1`. -/
theorem setTrue_grows (hsound : Sound P g) (hP : ∀ n, P n → n.type = .boolean ∧ n.text = none)
    (hg : growing.act .setTrue g = .ok g') : Grows [.setTrue] 0 g g' := by
  simp only [growing, Grown.modifyTop] at hg
  split at hg
  · cases hg
  · next k path hpath =>
    cases hg
    refine grows_edit hsound hpath (fun n hn ↦ ?_) fun n f m hn _ hle hm hv hs ↦ ?_
    · obtain ⟨htype, -⟩ := hP n hn
      refine ⟨⟨.inl rfl, fun _ ↦ Nat.le_refl _, fun _ ↦ Nat.le_refl _, Nat.le_refl _, Nat.le_refl _,
        fun _ ↦ rfl⟩, fun h ↦ ?_⟩
      cases htype.symm.trans h
    · obtain ⟨htype, htext⟩ := hP n hn
      have hftype : f.type = .boolean := hle.type_eq htype (by rintro (h | h) <;> cases h)
      have hplace : place f { n with boolean := true } = { place f n with boolean := true } := by
        simp only [place, hftype, hle.boolean rfl]
      have hpointer : Node.pointer { n with boolean := true } k = m.string := hs.symm
      rw [hplace, hpointer, acts_one rfl]
      exact modifyTop_ok hm hv rfl

/-- What a number does to the value at `top`. -/
theorem exists_numeric {a : Action} (ha : a = .negate ∨ a = .toDouble ∨ ∃ d, a = .digit d) :
    ∃ h : Node → Node, (∀ n, (h n).text = n.text ∧ (h n).members = n.members ∧
      (h n).items = n.items ∧ (h n).boolean = n.boolean ∧ (n.type.IsNumber → (h n).type.IsNumber)) ∧
      ∀ g, growing.act a g = g.modifyTop h := by
  rcases ha with rfl | rfl | ⟨d, rfl⟩
  · exact ⟨fun n ↦ { n with integer := wrap (-n.integer) }, fun n ↦ ⟨rfl, rfl, rfl, rfl, id⟩,
      fun _ ↦ rfl⟩
  · exact ⟨fun n ↦ { n with type := .double }, fun n ↦ ⟨rfl, rfl, rfl, rfl, fun _ ↦ .inr rfl⟩,
      fun _ ↦ rfl⟩
  · exact ⟨fun n ↦ { n with integer := wrap (n.integer * 10 + d) },
      fun n ↦ ⟨rfl, rfl, rfl, rfl, id⟩, fun _ ↦ rfl⟩

/-- A number is read in the first pass only. -/
theorem numeric_grows {a : Action} (ha : a = .negate ∨ a = .toDouble ∨ ∃ d, a = .digit d)
    (hsound : Sound P g) (hP : ∀ n, P n → n.type.IsNumber ∧ n.text = none)
    (hg : growing.act a g = .ok g') : Grows [a] 0 g g' := by
  obtain ⟨h, hh, hact⟩ := exists_numeric ha
  rw [hact] at hg
  unfold Grown.modifyTop at hg
  split at hg
  · cases hg
  · next k path hpath =>
    cases hg
    refine grows_edit hsound hpath (fun n hn ↦ ?_) fun n f m hn _ hle hm hv hs ↦ ?_
    · obtain ⟨hnumber, -⟩ := hP n hn
      obtain ⟨-, hmembers, hitems, hboolean, htype⟩ := hh n
      refine ⟨⟨.inr ⟨hnumber, htype hnumber⟩, fun h ↦ ?_, fun h ↦ ?_, hmembers ▸ Nat.le_refl _,
        hitems ▸ Nat.le_refl _, fun hb ↦ hboolean.trans hb⟩, fun h ↦ ?_⟩
      · rw [h] at hnumber
        rcases hnumber with h | h <;> cases h
      · rw [h] at hnumber
        rcases hnumber with h | h <;> cases h
      · have hnumber' := htype hnumber
        rw [h] at hnumber'
        rcases hnumber' with h | h <;> cases h
    · obtain ⟨hnumber, htext⟩ := hP n hn
      obtain ⟨htext', -, -, -, htype⟩ := hh n
      have hftype : f.type.IsNumber := by
        rcases hle.type with heq | hnumber'
        · exact heq ▸ htype hnumber
        · exact hnumber'.2
      have hplace : place f (h n) = place f n := by
        rcases hftype with hf | hf <;> simp only [place, hf]
      have hwritten : written [a] = [] := by
        rcases ha with rfl | rfl | ⟨d, rfl⟩ <;> rfl
      have hpointer : (h n).pointer k = n.pointer k := by
        rw [Node.pointer, Node.pointer, htext', htext]
        rfl
      rw [hplace, set_same hv, hpointer, ← hs, hwritten]
      rfl

/-- `string = top->_reserved.object_mem`. -/
theorem beginName_grows (hsound : Sound P g)
    (hP : ∀ n, P n → n.type = .object ∧ n.text = none)
    (hg : growing.act .beginName g = .ok g') (hne : g.path ≠ []) : Grows [.beginName] 1 g g' := by
  simp only [growing, Grown.edit] at hg
  split at hg
  · next hnil => exact absurd hnil hne
  · next k path hpath =>
    cases hg
    refine grows_edit hsound hpath (fun n hn ↦ ?_) fun n f m hn _ hle hm hv hs ↦ ?_
    · obtain ⟨htype, htext⟩ := hP n hn
      have hsize : Node.nameSize { n with text := some [] } = n.nameSize + 1 := by
        simp only [Node.nameSize, htext, Option.map_some, Option.map_none, Option.getD_some,
          Option.getD_none, List.length_nil, Nat.zero_add, Nat.add_zero]
      refine ⟨⟨.inl rfl, fun h ↦ ?_, fun _ ↦ ?_, Nat.le_refl _, Nat.le_refl _, id⟩,
        fun _ ↦ ⟨htype, Nat.le_of_eq hsize⟩⟩
      · cases htype.symm.trans h
      · rw [hsize]
        exact Nat.le_add_right _ 1
    · obtain ⟨htype, htext⟩ := hP n hn
      have hftype : f.type = .object := hle.type_eq htype (by rintro (h | h) <;> cases h)
      have hplace : place f { n with text := some [] } = place f n := by
        simp only [place, hftype, htext, Option.getD_some, Option.getD_none]
      have hmem : (place f n).objectMem = (nameBytes n.members).length := by
        simp only [place, hftype]
      have hpointer : Node.pointer { n with text := some [] } k =
          some (.names k (nameBytes n.members).length) := by
        simp only [Node.pointer, htype, Option.map_some, reduceCtorEq, if_false]
      rw [hplace, set_same hv, hpointer, ← hmem, acts_one rfl]
      simp only [secondPass, SecondPass.point, hm, hv]

/-- The cell of a string that is written next. -/
theorem place_string {n f : Node} (hf : f.type = .string) :
    place f n =
      ⟨.string, n.length, f.integer, f.boolean, .filled n.cells (f.length + 1), [], [], [], 0⟩ := by
  simp only [place, hf]

/-- An object in its blocks. -/
theorem place_object {n f : Node} (hf : f.type = .object) :
    place f n = ⟨.object, n.length, f.integer, f.boolean, [], [], .filled (layout 0 n.members) f.length,
      .filled (nameBytes n.members ++ n.text.getD []) f.names, (nameBytes n.members).length⟩ := by
  simp only [place, hf]

/-- `string[at] = b`. -/
theorem add_grows {i : Nat} {b : UInt8} (hsound : Sound (·.Reading i) g)
    (hg : growing.act (.add i b) g = .ok g') (hne : g.path ≠ []) : Grows [.add i b] 1 g g' := by
  simp only [growing, Grown.edit] at hg
  split at hg
  · next hnil => exact absurd hnil hne
  · next k path hpath =>
    cases hg
    refine grows_edit hsound hpath (fun n hn ↦ ?_) fun n f m hn hf hle hm hv hs ↦ ?_
    · obtain ⟨t, hlen, hholds, htype⟩ := hn
      have hsize : Node.nameSize { n with text := n.text.map (· ++ [b]) } = n.nameSize + 1 := by
        simp only [Node.nameSize, hholds.text, Option.map_some, Option.getD_some, List.length_append,
          List.length_singleton, Nat.add_assoc]
      refine ⟨⟨.inl rfl, fun _ ↦ ?_, fun _ ↦ ?_, Nat.le_refl _, Nat.le_refl _, id⟩,
        fun htype ↦ ⟨htype, Nat.le_of_eq hsize⟩⟩
      · simp only [Node.stringSize, hholds.text, Option.map_some, Option.getD_some, List.length_append]
        exact Nat.le_add_right ..
      · rw [hsize]
        exact Nat.le_add_right _ 1
    · obtain ⟨t, rfl, hholds, htype⟩ := hn
      have htext := hholds.text
      rcases htype with htype | htype
      · have hftype : f.type = .string := hle.type_eq htype (by rintro (h | h) <;> cases h)
        have hlt : t.length < f.length + 1 := by
          have hsize := hle.string htype
          simp only [Node.stringSize, htext, hf.text, Option.map_some, Option.getD_some, Option.getD_none,
            hf.bytes hftype rfl, List.length_append, List.length_singleton] at hsize
          exact Nat.lt_succ_of_lt hsize
        have hstring : m.string = some (.string k) := by
          rw [hs, Node.pointer, htext, Option.map_some, if_pos htype]
        have hpointer : Node.pointer { n with text := n.text.map (· ++ [b]) } k = some (.string k) := by
          simp only [Node.pointer, htext, Option.map_some, htype, if_true]
        rw [hpointer, ← hstring, place_string hftype]
        rw [place_string hftype] at hv
        simp only [Node.cells, htext, Option.map_some, Option.getD_some] at hv ⊢
        have hput := modify_ok
          (φ := fun v ↦ (v.string.write t.length b).map ({ v with string := · })) hv
          (by rw [Block.write_filled hlt, Option.map_some])
        rw [acts_one rfl, ← hput]
        simp only [secondPass, SecondPass.put, hstring]
      · have hftype : f.type = .object := hle.type_eq htype (by rintro (h | h) <;> cases h)
        have hlt : (nameBytes n.members ++ t).length < f.names := by
          have hsize := hle.names htype
          simp only [Node.nameSize, htext, hf.text, Option.map_some, Option.map_none, Option.getD_some,
            Option.getD_none, ← hf.names hftype, List.length_append, List.length_singleton] at hsize ⊢
          omega
        have hne' : ¬ n.type = .string := by
          rw [htype]
          rintro ⟨⟩
        have hstring : m.string = some (.names k (nameBytes n.members).length) := by
          rw [hs, Node.pointer, htext, Option.map_some, if_neg hne']
        have hpointer : Node.pointer { n with text := n.text.map (· ++ [b]) } k =
            some (.names k (nameBytes n.members).length) := by
          simp only [Node.pointer, htext, Option.map_some, htype, reduceCtorEq, if_false]
        rw [hpointer, ← hstring, place_object hftype]
        rw [place_object hftype] at hv
        simp only [htext, Option.map_some, Option.getD_some] at hv ⊢
        have hput := modify_ok (φ := fun v ↦
          (v.names.write ((nameBytes n.members).length + t.length) b).map ({ v with names := · })) hv
          (by rw [← List.length_append, Block.write_filled hlt, Option.map_some, List.append_assoc])
        rw [acts_one rfl, ← hput]
        simp only [secondPass, SecondPass.put, hstring]

/-- The end of a string. -/
theorem endString_grows {i : Nat} (hsound : Sound (fun n ↦ n.Reading i ∧ n.type = .string) g)
    (hg : growing.act (.endString i) g = .ok g') : Grows [.endString i] 0 g g' := by
  simp only [growing, Grown.modifyTop] at hg
  split at hg
  · cases hg
  · next k path hpath =>
    cases hg
    refine grows_edit hsound hpath (fun n hn ↦ ?_) fun n f m hn hf hle hm hv hs ↦ ?_
    · obtain ⟨⟨t, hlen, hholds, -⟩, htype⟩ := hn
      refine ⟨⟨.inl rfl, fun _ ↦ ?_, fun h ↦ ?_, Nat.le_refl _, Nat.le_refl _, id⟩, fun h ↦ ?_⟩
      · simp only [Node.stringSize, hholds.text, Option.getD_some, Option.getD_none]
        exact Nat.le_refl _
      · cases htype.symm.trans h
      · cases htype.symm.trans h
    · obtain ⟨⟨t, rfl, hholds, -⟩, htype⟩ := hn
      have htext := hholds.text
      have hftype : f.type = .string := hle.type_eq htype (by rintro (h | h) <;> cases h)
      have hlt : t.length < f.length + 1 := by
        have hsize := hle.string htype
        simp only [Node.stringSize, htext, hf.text, Option.getD_some, Option.getD_none,
          hf.bytes hftype rfl] at hsize
        exact Nat.lt_succ_of_le hsize
      have hstring : m.string = some (.string k) := by
        rw [hs, Node.pointer, htext, Option.map_some, if_pos htype]
      have hpointer :
          Node.pointer { n with length := t.length, bytes := n.text.getD [], text := none } k = none :=
        rfl
      rw [hpointer, place_string hftype]
      rw [place_string hftype] at hv
      simp only [Node.cells, htext, Option.getD_some, Option.getD_none] at hv ⊢
      have hput : (Block.filled t (f.length + 1)).write t.length 0 =
          some (Block.filled (t ++ [0]) (f.length + 1)) := Block.write_filled hlt 0
      have hfirst := modify_ok (φ := fun v ↦ (v.string.write t.length 0).map ({ v with string := · })) hv
        (by rw [hput, Option.map_some])
      rw [acts_one rfl]
      simp only [secondPass, SecondPass.put, hstring, hfirst]
      exact modifyTop_again (ψ := fun v ↦ some { v with length := t.length }) hm hv rfl none

/-- The end of a name. -/
theorem endName_grows {i : Nat} (hsound : Sound (fun n ↦ n.Reading i ∧ n.type = .object) g)
    (hg : growing.act (.endName i) g = .ok g') : Grows [.endName i] 0 g g' := by
  simp only [growing, Grown.modifyTop] at hg
  split at hg
  · cases hg
  · next k path hpath =>
    cases hg
    refine grows_edit hsound hpath (fun n hn ↦ ?_) fun n f m hn hf hle hm hv hs ↦ ?_
    · obtain ⟨⟨t, hlen, hholds, -⟩, htype⟩ := hn
      have hsize : Node.nameSize { n with
          names := n.names + (i + 1), members := n.members ++ [(n.text.getD [], none)], text := none } =
          n.nameSize := by
        simp only [Node.nameSize, hholds.text, nameBytes_append, Option.map_some, Option.map_none,
          Option.getD_some, Option.getD_none, List.length_append, List.length_singleton, Nat.add_zero]
      refine ⟨⟨.inl rfl, fun h ↦ ?_, fun _ ↦ Nat.le_of_eq hsize.symm, ?_, Nat.le_refl _, id⟩,
        fun _ ↦ ⟨htype, Nat.le_of_eq hsize⟩⟩
      · cases htype.symm.trans h
      · rw [List.length_append]
        exact Nat.le_add_right ..
    · obtain ⟨⟨t, rfl, hholds, -⟩, htype⟩ := hn
      have htext := hholds.text
      have hftype : f.type = .object := hle.type_eq htype (by rintro (h | h) <;> cases h)
      have hlt : (nameBytes n.members ++ t).length < f.names := by
        have hsize := hle.names htype
        simp only [Node.nameSize, htext, hf.text, nameBytes_append, Option.map_none, Option.getD_some,
          Option.getD_none, ← hf.names hftype, List.length_append, List.length_singleton] at hsize ⊢
        omega
      have hcount : (layout 0 n.members).length = n.length := by
        rw [length_layout, hholds.members htype, Nat.add_zero]
      have hroom : (layout 0 n.members).length < f.length := by
        have hsize := hle.members
        rw [hf.members hftype, List.length_append, List.length_singleton] at hsize
        rw [length_layout]
        exact hsize
      have hne : ¬ n.type = .string := by
        rw [htype]
        rintro ⟨⟩
      have hstring : m.string = some (.names k (nameBytes n.members).length) := by
        rw [hs, Node.pointer, htext, Option.map_some, if_neg hne]
      have hpointer : Node.pointer { n with
          names := n.names + (t.length + 1), members := n.members ++ [(n.text.getD [], none)],
          text := none } k = none := rfl
      rw [hpointer, place_object hftype]
      rw [place_object hftype] at hv
      simp only [htext, Option.getD_some, Option.getD_none] at hv ⊢
      have hput : (Block.filled (nameBytes n.members ++ t) f.names).write
          ((nameBytes n.members).length + t.length) 0 =
          some (Block.filled (nameBytes n.members ++ t ++ [0]) f.names) := by
        rw [← List.length_append]
        exact Block.write_filled hlt 0
      have hmember := Block.write_filled hroom ⟨(nameBytes n.members).length, t.length, none⟩
      rw [hcount] at hmember
      have hfirst := modify_ok (φ := fun v ↦
        (v.names.write ((nameBytes n.members).length + t.length) 0).map ({ v with names := · })) hv
        (by rw [hput, Option.map_some])
      rw [acts_one rfl]
      simp only [secondPass, SecondPass.put, hstring, hfirst]
      refine modifyTop_again hm hv ?_ none
      rw [Value.setName, hmember, Option.map_some]
      simp only [layout_append, nameBytes_append, List.length_append, List.length_singleton,
        List.append_assoc, List.append_nil, Nat.zero_add]

end Edits

section Values

variable {g g' : Grown}

/-- The value that `new_value` makes of what was counted. -/
theorem alloc_place {type : JsonType} {f : Node} (h : (Node.zero type).Le f)
    (hsmall : f.type = .object → 24 * f.length < 2 ^ 31) :
    f.toCounted.alloc = some (place f (.zero type)) := by
  have hnumber (hn : type.IsNumber) : f.type.IsNumber := by
    rcases h.type with heq | hnumber
    · exact heq ▸ hn
    · exact hnumber.2
  cases type with
  | array =>
    have hf : f.type = .array := h.type_eq rfl (by rintro (h | h) <;> cases h)
    simp only [Counted.alloc, place, hf]
    rfl
  | object =>
    have hf : f.type = .object := h.type_eq rfl (by rintro (h | h) <;> cases h)
    simp only [Counted.alloc, place, hf, hsmall hf, if_true]
    rfl
  | string =>
    have hf : f.type = .string := h.type_eq rfl (by rintro (h | h) <;> cases h)
    simp only [Counted.alloc, place, hf]
    rfl
  | boolean =>
    have hf : f.type = .boolean := h.type_eq rfl (by rintro (h | h) <;> cases h)
    simp only [Counted.alloc, place, hf]
  | null =>
    have hf : f.type = .null := h.type_eq rfl (by rintro (h | h) <;> cases h)
    simp only [Counted.alloc, place, hf]
  | integer => rcases hnumber (.inl rfl) with hf | hf <;> simp only [Counted.alloc, place, hf]
  | double => rcases hnumber (.inr rfl) with hf | hf <;> simp only [Counted.alloc, place, hf]

/-- One more value of two lists. -/
theorem zipWith_push {α β γ : Type} (f : α → β → γ) {as : List α} {bs : List β} {a : α}
    (ha : as[bs.length]? = some a) (b : β) :
    List.zipWith f as (bs ++ [b]) = List.zipWith f as bs ++ [f a b] := by
  induction bs generalizing as with
  | nil =>
    cases as with
    | nil => cases ha
    | cons a' as =>
      cases ha
      rw [List.nil_append, List.zipWith_cons_cons, List.zipWith_nil_right, List.zipWith_nil_right,
        List.nil_append]
  | cons b' bs ih =>
    cases as with
    | nil => cases ha
    | cons a' as =>
      rw [List.cons_append, List.zipWith_cons_cons, List.zipWith_cons_cons, ih ha, List.cons_append]

/-- The pointer of the value at `top`. -/
theorem pointer_cons (nodes : List Node) (k : Nat) (path : List Nat) :
    (Grown.mk nodes (k :: path)).pointer = (nodes[k]?).bind (·.pointer k) := rfl

/-- The next value of the list at `_reserved.next_alloc` gets its blocks. -/
theorem newValue_sync {type : JsonType} {F : Grown} (hF : Fits F)
    (hle : Grown.Le ⟨g.nodes ++ [.zero type], g.nodes.length :: g.path⟩ F) :
    secondPass.act (.newValue type) (build F g) =
      .ok { build F ⟨g.nodes ++ [.zero type], g.nodes.length :: g.path⟩ with string := g.pointer } := by
  obtain ⟨f, hf, hnf⟩ := hle g.nodes.length (.zero type) List.getElem?_concat_length
  obtain ⟨hlt, hget⟩ := List.getElem?_eq_some_iff.mp hf
  have hmem := List.mem_of_getElem? hf
  have hchain : (build F g).chain =
      f.toCounted :: (F.nodes.drop (g.nodes.length + 1)).map Node.toCounted := by
    rw [build, List.drop_eq_getElem_cons hlt, List.map_cons, hget]
  have hlen : (List.zipWith place F.nodes g.nodes).length = g.nodes.length := by
    rw [List.length_zipWith, Nat.min_eq_right (Nat.le_of_lt hlt)]
  have hvalues := zipWith_push place hf (.zero type)
  simp only [secondPass, hchain, alloc_place hnf (hF.small f hmem)]
  simp only [build, hvalues, hlen, List.length_append, List.length_singleton]

/-- A new value that is no string. -/
theorem newValue_grows {type : JsonType} (htype : type ≠ .string) (hsound : Sound Node.Waiting g)
    (hg : growing.act (.newValue type) g = .ok g') :
    Sound (· = .zero type) g' ∧ Grows [.newValue type] 0 g g' := by
  cases hg
  refine ⟨hsound.push rfl, Grown.le_push g _ _, fun size hsize n hn hobject ↦ ?_, fun F hF hle ↦ ?_⟩
  · rcases List.mem_append.mp hn with hn | hn
    · exact hsize n hn hobject
    · rw [List.mem_singleton.mp hn, Node.nameSize, Node.zero, if_neg htype]
      exact Nat.zero_le _
  · have hpointer : g.pointer = none := by
      unfold Grown.pointer
      split
      · rfl
      · next k path hpath =>
        obtain ⟨n, hn, hwait⟩ := hsound.node hpath
        have htext : n.text = none := by
          rcases hwait with ⟨-, hholds⟩ | ⟨-, hholds⟩ <;> exact hholds.text
        rw [hn, Option.bind_some, Node.pointer, htext, Option.map_none]
    have hpointer' : (Grown.mk (g.nodes ++ [.zero type]) (g.nodes.length :: g.path)).pointer = none := by
      rw [pointer_cons, List.getElem?_concat_length, Option.bind_some, Node.pointer, Node.zero,
        if_neg htype, Option.map_none]
    rw [acts_one rfl, newValue_sync hF hle, hpointer, ← hpointer']
    rfl

/-- A new string. -/
theorem newString_grows (hsound : Sound Node.Waiting g)
    (hg : growing.acts [.newValue .string, .beginString] g = .ok g') :
    Sound (·.Reading 0) g' ∧ Grows [.newValue .string, .beginString] 0 g g' := by
  cases hg
  refine ⟨hsound.push ⟨[], rfl, Node.holds_zero .string, .inl rfl⟩, Grown.le_push g _ _,
    fun size hsize n hn hobject ↦ ?_, fun F hF hle ↦ ?_⟩
  · rcases List.mem_append.mp hn with hn | hn
    · exact hsize n hn hobject
    · rw [List.mem_singleton.mp hn] at hobject
      cases hobject
  · obtain ⟨f, hf, -⟩ := hle g.nodes.length (.zero .string) List.getElem?_concat_length
    have hvalue := build_value (g := ⟨g.nodes ++ [.zero .string], g.nodes.length :: g.path⟩) hf
      List.getElem?_concat_length
    have hpointer : (Grown.mk (g.nodes ++ [.zero .string]) (g.nodes.length :: g.path)).pointer =
        some (.string g.nodes.length) := by
      rw [pointer_cons, List.getElem?_concat_length]
      rfl
    have hpath : (build F ⟨g.nodes ++ [.zero .string], g.nodes.length :: g.path⟩).path =
        g.nodes.length :: g.path := rfl
    change secondPass.acts [.newValue .string, .beginString] (build F g) = _
    rw [Memory.acts, newValue_sync hF hle]
    simp only [Memory.acts, secondPass, SecondPass.point, hpath, hvalue, ← hpointer]
    rfl

/-- The names of the parent of a value. -/
theorem Node.nameSize_attach {n : Node} (h : n.Waiting) (k : Nat) :
    (n.attach k).nameSize = n.nameSize := by
  rw [nameSize, nameBytes_attach h]
  rfl

/-- The parent of a value grows. -/
theorem Node.le_attach {n : Node} (h : n.Waiting) (k : Nat) : n.Le (n.attach k) := by
  refine ⟨.inl rfl, fun _ ↦ Nat.le_refl _, fun _ ↦ Nat.le_of_eq (nameSize_attach h k).symm, ?_, ?_, id⟩
  · unfold attach
    dsimp only
    split
    · rw [List.length_modify]
    · exact Nat.le_refl _
  · unfold attach
    dsimp only
    split
    · rw [List.length_append]
      exact Nat.le_add_right ..
    · exact Nat.le_refl _

/-- The length that is counted in the parent. -/
theorem length_place {n f : Node} {k : Nat} (h : n.Waiting) (hle : (n.attach k).Le f) :
    (place f (n.attach k)).length = n.length + 1 := by
  rcases h with ⟨htype, -⟩ | ⟨htype, -⟩
  · have hf : f.type = .array := hle.type_eq htype (by rintro (h | h) <;> cases h)
    simp only [place, hf]
    rfl
  · have hf : f.type = .object := hle.type_eq htype (by rintro (h | h) <;> cases h)
    simp only [place, hf]
    rfl

/-- A value is the next one of its parent, in the blocks of the parent. -/
theorem attach_place {n f : Node} {k : Nat} (h : n.Waiting) (hf : f.Holds none 0)
    (hle : (n.attach k).Le f) : (place f n).attach k = some (place f (n.attach k)) := by
  rcases h with ⟨htype, hholds⟩ | ⟨htype, hholds⟩
  · have hftype : f.type = .array := hle.type_eq htype (by rintro (h | h) <;> cases h)
    have hitems : (n.attach k).items = n.items ++ [k] := by
      simp only [Node.attach, htype, if_true]
    have hlt : n.items.length < f.length := by
      have hsize := hle.items
      rw [hitems, List.length_append, List.length_singleton, hf.items hftype] at hsize
      exact hsize
    have hwrite := Block.write_filled hlt k
    rw [hholds.items htype] at hwrite
    simp only [place, hftype, Value.attach, hwrite, Option.map_some, hitems]
    rfl
  · have hftype : f.type = .object := hle.type_eq htype (by rintro (h | h) <;> cases h)
    obtain ⟨ms, m, hms, hcount, hattach⟩ := Node.exists_members hholds htype
    have hlt : (layout 0 (ms ++ [m])).length ≤ f.length := by
      have hsize := hle.members
      rw [hattach, hf.members hftype, List.length_append, List.length_singleton] at hsize
      rw [length_layout, List.length_append, List.length_singleton]
      exact hsize
    have hlen : (layout 0 ms).length = n.length := by rw [length_layout, hcount]
    rw [layout_append] at hlt
    have hget := Block.getElem?_last (layout 0 ms) ⟨0 + (nameBytes ms).length, m.1.length, m.2⟩ f.length
    have hwrite := Block.write_last hlt ⟨0 + (nameBytes ms).length, m.1.length, some k⟩
    rw [hlen] at hget hwrite
    have hnames := Node.nameBytes_attach (.inr ⟨htype, hholds⟩) k
    have htext : (n.attach k).text = n.text := rfl
    rw [hattach] at hnames
    simp only [place, hftype, Value.attach, hms, layout_append, hget, hwrite, Option.map_some, hattach,
      hnames, htext]
    rfl

/-- A complete value becomes the next one of its parent. -/
theorem attach_grows (hsound : Sound (·.Holds none 0) g) (hg : growing.act .attach g = .ok g') :
    Grows [.attach] 0 g g' := by
  simp only [growing] at hg
  split at hg
  · next k p path hpath =>
    split at hg
    · cases hg
    · next hover =>
      cases hg
      have hwait (n : Node) (hn : g.nodes[p]? = some n) : n.Waiting :=
        hsound.parents p (by rw [hpath]; exact List.mem_cons_self) n hn
      refine ⟨Grown.le_modify fun n hn ↦ Node.le_attach (hwait n hn) k, fun size hs ↦ ?_,
        fun F hF hle ↦ ?_⟩
      · exact Grown.namesLe_modify (d := 0) hs fun n hn htype ↦
          ⟨htype, Nat.le_of_eq (Node.nameSize_attach (hwait n hn) k)⟩
      · have hlt := hsound.bound p (by rw [hpath]; exact List.mem_cons_of_mem k List.mem_cons_self)
        have hn : g.nodes[p]? = some g.nodes[p] := List.getElem?_eq_getElem hlt
        have hn' : (g.nodes.modify p (·.attach k))[p]? = some (g.nodes[p].attach k) := by
          rw [List.getElem?_modify_eq, hn]
          rfl
        obtain ⟨f, hf, hnf⟩ := hle p _ hn'
        have hholds := hF.holds f (List.mem_of_getElem? hf)
        have hv := build_value hf hn
        have hmodify := modify_ok (φ := (·.attach k)) hv (attach_place (hwait _ hn) hholds hnf)
        have hlt' := (List.getElem?_eq_some_iff.mp hv).1
        have hlength : (place f (g.nodes[p].attach k)).length = g.nodes[p].length + 1 :=
          length_place (hwait _ hn) hnf
        have hover' : ¬ uintMax < g.nodes[p].length + 1 := by
          rw [hn] at hover
          exact hover
        have hpointer {n : Node} (hn : n.text = none) (i : Nat) : n.pointer i = none := by
          rw [Node.pointer, hn, Option.map_none]
        obtain ⟨n, hnk, htop⟩ := hsound.node hpath
        have hstring : (build F g).string = none := by
          simp only [build, Grown.pointer, hpath, hnk, Option.bind_some]
          exact hpointer htop.text k
        rw [acts_one rfl, build_modify hf hn]
        simp only [secondPass, show (build F g).path = k :: p :: path from hpath, hmodify,
          List.getElem?_set_self hlt', Option.map_some, Option.getD_some, hlength, if_neg hover', hstring,
          pointer_cons, hn', Option.bind_some]
        rw [hpointer (Node.holds_attach (hwait _ hn) k).text]
  · cases hg

end Values

end OpenWrtCompile.Server.JsonParser
