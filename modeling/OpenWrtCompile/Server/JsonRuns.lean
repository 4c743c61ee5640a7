import OpenWrtCompile.Server.JsonBlocks

/-!
# The runs of the parser

Every move of the first pass (`shadowsocksr-libev/src/server/json.c:277–884`) keeps what holds between
two bytes. So the loop ends where the value of the text is complete, and it does end.
-/

namespace OpenWrtCompile.Server.JsonParser
open OpenWrtCompile.Base

/-! ## Moves -/

/-- What holds between two bytes. -/
structure Inv (m : Mode) (g : Grown) : Prop where
  sound : Sound m.Top g
  root : m = .done → g.path.tail = []
  start : g.path = [] → ∃ comma, m = .seeking comma

/-- While a value is open, the loop is not at the start. -/
theorem Inv.of_open {m : Mode} {g : Grown} (hsound : Sound m.Top g) (hpath : g.path ≠ [])
    (hm : m ≠ .done) : Inv m g :=
  ⟨hsound, fun h ↦ absurd h hm, fun h ↦ absurd h hpath⟩

section Views

variable {g : Grown} {P : Node → Prop}

/-- The type of the value at `top`. -/
theorem view_top {type : JsonType} (h : (growing.view g).top = some type) :
    ∃ k path n, g.path = k :: path ∧ g.nodes[k]? = some n ∧ n.type = type := by
  cases hpath : g.path with
  | nil =>
    simp only [growing, hpath, typeAt, List.getElem?_nil, Option.bind_none, Option.map_none,
      reduceCtorEq] at h
  | cons k path =>
    simp only [growing, hpath, typeAt, List.getElem?_cons_zero, Option.bind_some] at h
    obtain ⟨n, hn, htype⟩ := Option.map_eq_some_iff.mp h
    exact ⟨k, path, n, rfl, hn, htype⟩

/-- The type of the value at `top` is known. -/
theorem Sound.typed {type : JsonType} (hsound : Sound P g) (h : (growing.view g).top = some type) :
    Sound (fun n ↦ P n ∧ n.type = type) g := by
  obtain ⟨k, path, n, hpath, hn, htype⟩ := view_top h
  refine ⟨hsound.path, hsound.bound, hsound.closed, hsound.parents, fun i hi m hm ↦ ?_⟩
  have hik : k = i := by
    rw [hpath] at hi
    exact Option.some.inj hi
  subst hik
  obtain rfl : n = m := Option.some.inj (hn.symm.trans hm)
  exact ⟨hsound.top k hi n hn, htype⟩

/-- The type of the parent. -/
theorem view_parent (hsound : Sound P g) {k : Nat} {path : List Nat} (hpath : g.path = k :: path) :
    path = [] ∧ (growing.view g).parent = none ∨
      ∃ p rest n, path = p :: rest ∧ g.nodes[p]? = some n ∧ (growing.view g).parent = some n.type := by
  cases path with
  | nil =>
    refine .inl ⟨rfl, ?_⟩
    simp only [growing, hpath, typeAt, List.getElem?_cons_succ, List.getElem?_nil, Option.bind_none,
      Option.map_none]
  | cons p rest =>
    have hlt := hsound.bound p (by rw [hpath]; exact List.mem_cons_of_mem k List.mem_cons_self)
    refine .inr ⟨p, rest, g.nodes[p], rfl, List.getElem?_eq_getElem hlt, ?_⟩
    simp only [growing, hpath, typeAt, List.getElem?_cons_succ, List.getElem?_cons_zero,
      Option.bind_some, List.getElem?_eq_getElem hlt, Option.map_some]

/-- The parent stays as it is where the value at `top` is changed. -/
theorem parent_modify (hsound : Sound P g) {k : Nat} {path : List Nat} (hpath : g.path = k :: path)
    (h : Node → Node) :
    (growing.view { g with nodes := g.nodes.modify k h }).parent = (growing.view g).parent := by
  cases path with
  | nil => simp only [growing, hpath, List.getElem?_cons_succ, List.getElem?_nil, typeAt, Option.bind_none]
  | cons p path =>
    have hne : k ≠ p := by
      have hdown := hsound.path
      rw [hpath] at hdown
      exact Nat.ne_of_gt ((List.pairwise_cons.mp hdown).1 p List.mem_cons_self)
    simp only [growing, hpath, List.getElem?_cons_succ, List.getElem?_cons_zero, typeAt, Option.bind_some,
      List.getElem?_modify_ne _ _ hne]

/-- The parent of a new value is the one that was at `top`. -/
theorem parent_push (hsound : Sound P g) (n : Node) :
    (growing.view ⟨g.nodes ++ [n], g.nodes.length :: g.path⟩).parent = (growing.view g).top := by
  simp only [growing, List.getElem?_cons_succ]
  cases hpath : g.path with
  | nil => rfl
  | cons k path =>
    have hlt := hsound.bound k (by rw [hpath]; exact List.mem_cons_self)
    simp only [typeAt, List.getElem?_cons_zero, Option.bind_some, List.getElem?_append_left hlt]

end Views

/-- Between the members of an object, and not in a number. -/
def Opens (m : Mode) (g : Grown) : Prop := m = .inside → (growing.view g).top = some .object

/-- The type of a new value. -/
theorem top_push (g : Grown) (n : Node) :
    (growing.view ⟨g.nodes ++ [n], g.nodes.length :: g.path⟩).top = some n.type := by
  simp only [growing, typeAt, List.getElem?_cons_zero, Option.bind_some, List.getElem?_concat_length,
    Option.map_some]

section Moves

variable {g g' : Grown}

/-- A single action. -/
theorem act_of_acts {a : Action} (h : growing.acts [a] g = .ok g') : growing.act a g = .ok g' := by
  obtain ⟨g1, hact, hnil⟩ := exists_of_acts_cons h
  cases hnil
  exact hact

/-- A complete value. -/
theorem attachTo_grows {v : Option JsonType} (hsound : Sound (·.Holds none 0) g) (hne : g.path ≠ [])
    (hv : (growing.view g).parent = v) (hacts : growing.acts (attachTo v) g = .ok g') :
    Inv (.after v) g' ∧ Grows (attachTo v) 0 g g' ∧ Opens (.after v) g' := by
  obtain ⟨k, path, hpath⟩ := List.exists_cons_of_ne_nil hne
  rcases view_parent hsound hpath with ⟨rfl, hparent⟩ | ⟨p, rest, n, rfl, hn, hparent⟩
  · obtain rfl : none = v := hparent.symm.trans hv
    cases hacts
    exact ⟨⟨hsound, fun _ ↦ by rw [hpath, List.tail_cons], fun h ↦ absurd h hne⟩, .refl g,
      by rintro ⟨⟩⟩
  · obtain rfl : some n.type = v := hparent.symm.trans hv
    have hact : growing.act .attach g = .ok g' := act_of_acts hacts
    have hgrows := attach_grows hsound hact
    simp only [growing, hpath] at hact
    split at hact
    · cases hact
    · cases hact
      have hwait : n.Waiting :=
        hsound.parents p (by rw [hpath]; exact List.mem_cons_self) n hn
      refine ⟨⟨hsound.attach hpath fun m hwait hm ↦ ?_, fun h ↦ ?_,
        fun h ↦ absurd h (List.cons_ne_nil _ _)⟩, hgrows, fun h ↦ ?_⟩
      · obtain rfl : n = m := Option.some.inj (hn.symm.trans hm)
        have hholds := Node.holds_attach hwait k
        rcases hwait with ⟨htype, -⟩ | ⟨htype, -⟩
        · rw [htype]
          exact .inl ⟨htype, hholds⟩
        · rw [htype]
          exact ⟨hholds, .inl htype⟩
      · rw [Mode.after] at h
        split at h <;> cases h
      · simp only [growing, typeAt, List.getElem?_cons_zero, Option.bind_some, List.getElem?_modify_eq, hn]
        rcases hwait with ⟨htype, -⟩ | ⟨htype, -⟩
        · rw [Mode.after, if_pos htype] at h
          cases h
        · exact congrArg some htype

/-- Bytes are added to a string. -/
theorem adds_grows (bytes : Bytes) {i : Nat} (hsound : Sound (·.Reading i) g) (hne : g.path ≠ [])
    (hacts : growing.acts (bytes.mapIdx fun j b ↦ Action.add (i + j) b) g = .ok g') :
    (Sound (·.Reading (i + bytes.length)) g' ∧ g'.path = g.path) ∧
      Grows (bytes.mapIdx fun j b ↦ Action.add (i + j) b) bytes.length g g' := by
  induction bytes generalizing i g with
  | nil =>
    cases hacts
    exact ⟨⟨hsound, rfl⟩, .refl _⟩
  | cons b bytes ih =>
    have hlist : ((b :: bytes).mapIdx fun j b ↦ Action.add (i + j) b) =
        [.add i b] ++ bytes.mapIdx fun j b ↦ .add (i + 1 + j) b := by
      rw [List.mapIdx_cons, List.singleton_append]
      simp only [Nat.add_zero, Nat.add_assoc, Nat.add_comm 1]
    rw [hlist] at hacts ⊢
    obtain ⟨g1, hadd, hrest⟩ := exists_of_acts_append hacts
    obtain ⟨k, path, hpath⟩ := List.exists_cons_of_ne_nil hne
    have hact : growing.act (.add i b) g = .ok g1 := by
      rw [← hadd]
      rfl
    have hgrows := add_grows hsound hact hne
    simp only [growing, Grown.edit, hpath] at hact
    cases hact
    have hsound' := hsound.modify (Q := (·.Reading (i + 1))) hpath
      (f := fun n ↦ { n with text := n.text.map (· ++ [b]) }) fun n hn ↦ by
        obtain ⟨t, hlen, hholds, htype⟩ := hn
        refine ⟨t ++ [b], by rw [List.length_append, hlen, List.length_singleton],
          ⟨by rw [hholds.text, Option.map_some], hholds.items, hholds.members, hholds.names, ?_⟩, htype⟩
        rintro _ ⟨⟩
    rw [hpath] at hsound'
    obtain ⟨⟨hs, hp⟩, hgrows'⟩ := ih hsound' (List.cons_ne_nil k path) hrest
    refine ⟨⟨?_, hp.trans hpath.symm⟩, ?_⟩
    · rw [List.length_cons, Nat.add_comm bytes.length, ← Nat.add_assoc]
      exact hs
    · rw [List.length_cons, Nat.add_comm bytes.length]
      exact hgrows.trans hgrows'

/-- The value at `top` is changed. -/
theorem modifyTop_sound {P Q : Node → Prop} {h : Node → Node} (hsound : Sound P g)
    (hg : g.modifyTop h = .ok g') (hQ : ∀ n, P n → Q (h n)) :
    Sound Q g' ∧ g'.path = g.path ∧ g.path ≠ [] ∧
      (growing.view g').parent = (growing.view g).parent := by
  unfold Grown.modifyTop at hg
  split at hg
  · cases hg
  · next k path hpath =>
    cases hg
    refine ⟨hsound.modify hpath hQ, rfl, ?_, parent_modify hsound hpath h⟩
    rw [hpath]
    exact List.cons_ne_nil k path

/-- A new value that is no string. -/
theorem newValue_inv {type : JsonType} {m : Mode} (htype : type ≠ .string) (hm : m ≠ .done)
    (htop : m.Top (.zero type)) (hsound : Sound Node.Waiting g)
    (hacts : growing.acts [.newValue type] g = .ok g') : Inv m g' ∧ Grows [.newValue type] 0 g g' := by
  have hact := act_of_acts hacts
  obtain ⟨hs, hgrows⟩ := newValue_grows htype hsound hact
  cases hact
  exact ⟨⟨hs.mono fun n hn ↦ hn ▸ htop, fun h ↦ absurd h hm, fun h ↦ absurd h nofun⟩, hgrows⟩

/-- A number is read on. -/
theorem numeric_inv {a : Action} (ha : a = .negate ∨ a = .toDouble ∨ ∃ d, a = .digit d)
    (hsound : Sound (fun n ↦ n.Holds none 0 ∧ n.type.IsNumber) g)
    (hacts : growing.acts [a] g = .ok g') :
    Sound (fun n ↦ n.Holds none 0 ∧ n.type.IsNumber) g' ∧ g'.path = g.path ∧ g.path ≠ [] ∧
      (growing.view g').parent = (growing.view g).parent ∧ Grows [a] 0 g g' := by
  have hact := act_of_acts hacts
  have hgrows := numeric_grows ha hsound (fun n hn ↦ ⟨hn.2, hn.1.text⟩) hact
  obtain ⟨h, hh, hedit⟩ := exists_numeric ha
  rw [hedit] at hact
  have hkeep (n : Node) (hn : n.Holds none 0 ∧ n.type.IsNumber) :
      (h n).Holds none 0 ∧ (h n).type.IsNumber := by
    have hnumber : (h n).type.IsNumber := (hh n).2.2.2.2 hn.2
    have hno {type : JsonType} (ht : ¬ type.IsNumber) : (h n).type ≠ type := fun he ↦ ht (he ▸ hnumber)
    have harray : ¬ JsonType.IsNumber .array := by rintro (h | h) <;> cases h
    have hobject : ¬ JsonType.IsNumber .object := by rintro (h | h) <;> cases h
    have hstring : ¬ JsonType.IsNumber .string := by rintro (h | h) <;> cases h
    exact ⟨⟨(hh n).1.trans hn.1.text, fun h ↦ absurd h (hno harray), fun h ↦ absurd h (hno hobject),
      fun h ↦ absurd h (hno hobject), fun h ↦ absurd h (hno hstring)⟩, hnumber⟩
  obtain ⟨hs, hpath, hne, hview⟩ :=
    modifyTop_sound (Q := fun n ↦ n.Holds none 0 ∧ n.type.IsNumber) hsound hact hkeep
  exact ⟨hs, hpath, hne, hview, hgrows⟩

/-- What a move does. -/
theorem move_grows {v : View} {m m' : Mode} {as : List Action} {k : Nat} (hmove : Move v m m' as k)
    (hv : growing.view g = v) (hinv : Inv m g) (hacts : growing.acts as g = .ok g') :
    Inv m' g' ∧ Grows as k g g' ∧
      (Opens m' g' ∨ ¬ Opens m g ∧ 0 < k ∨ as = [.newValue .integer]) := by
  subst hv
  have hsound := hinv.sound
  have hpath {type : JsonType} (h : (growing.view g).top = some type) : g.path ≠ [] := by
    obtain ⟨k, path, n, hpath, -⟩ := view_top h
    rw [hpath]
    exact List.cons_ne_nil k path
  have hzero {type : JsonType} (htype : type ≠ .string) : (Node.zero type).Holds none 0 := by
    have hholds := Node.holds_zero type
    rw [Node.zero, if_neg htype] at hholds
    rwa [Node.zero, if_neg htype]
  cases hmove with
  | quiet =>
    cases hacts
    exact ⟨hinv, (Grows.refl _).mono (Nat.zero_le 1),
      (em _).imp_right fun h ↦ .inl ⟨h, Nat.one_pos⟩⟩
  | comma =>
    cases hacts
    exact ⟨⟨hsound, by rintro ⟨⟩, fun h ↦ ⟨false, rfl⟩⟩, (Grows.refl _).mono (Nat.zero_le 1),
      .inl (by rintro ⟨⟩)⟩
  | add n bytes k hk =>
    have hne : g.path ≠ [] := fun h ↦ by
      obtain ⟨comma, h⟩ := hinv.start h
      cases h
    obtain ⟨⟨hs, hp⟩, hgrows⟩ := adds_grows bytes hsound hne hacts
    exact ⟨.of_open hs (hp ▸ hne) (by rintro ⟨⟩), hgrows.mono hk.2, .inl (by rintro ⟨⟩)⟩
  | count a type htop htype ha =>
    obtain ⟨hs, hp, hne, -, hgrows⟩ := numeric_inv (.inr ha)
      ((hsound.typed htop).mono fun n hn ↦ ⟨hn.1.1, hn.2 ▸ htype⟩) hacts
    refine ⟨.of_open (hs.mono fun n hn ↦ ⟨hn.1, .inr hn.2⟩) (hp ▸ hne) (by rintro ⟨⟩),
      hgrows.mono (Nat.zero_le 1), .inr (.inl ⟨fun h ↦ ?_, Nat.one_pos⟩)⟩
    have h := htop.symm.trans (h rfl)
    obtain rfl := Option.some.inj h
    rcases htype with h | h <;> cases h
  | object =>
    obtain ⟨hs, hgrows⟩ := newValue_inv (m := .inside) (by decide) (by rintro ⟨⟩)
      ⟨hzero (by decide), .inl rfl⟩ hsound hacts
    cases hacts
    exact ⟨hs, hgrows.mono (Nat.zero_le 1), .inl fun _ ↦ top_push g _⟩
  | array comma =>
    obtain ⟨hs, hgrows⟩ := newValue_inv (m := .seeking comma) (by decide) (by rintro ⟨⟩)
      (.inl ⟨rfl, hzero (by decide)⟩) hsound hacts
    exact ⟨hs, hgrows.mono (Nat.zero_le 1), .inl (by rintro ⟨⟩)⟩
  | string =>
    obtain ⟨hs, hgrows⟩ := newString_grows hsound hacts
    cases hacts
    exact ⟨.of_open hs (List.cons_ne_nil _ _) (by rintro ⟨⟩), hgrows.mono (Nat.zero_le 1),
      .inl (by rintro ⟨⟩)⟩
  | integer =>
    obtain ⟨hs, hgrows⟩ := newValue_inv (m := .inside) (by decide) (by rintro ⟨⟩)
      ⟨hzero (by decide), .inr (.inl rfl)⟩ hsound hacts
    exact ⟨hs, hgrows.mono (Nat.zero_le _), .inr (.inr rfl)⟩
  | word type actions k hk h =>
    have hstring : type ≠ .string := by rcases h with ⟨rfl, -⟩ | ⟨rfl | rfl, -⟩ <;> rintro ⟨⟩
    obtain ⟨g1, hact, hrest⟩ := exists_of_acts_cons hacts
    obtain ⟨hs, hgrows⟩ := newValue_grows hstring hsound hact
    have hparent : (growing.view g1).parent = (growing.view g).top := by
      cases hact
      exact parent_push hsound _
    have hne : g1.path ≠ [] := by
      cases hact
      exact List.cons_ne_nil _ _
    obtain ⟨g2, hset, hattach⟩ := exists_of_acts_append hrest
    have htrue : Sound (·.Holds none 0) g2 ∧ g2.path = g1.path ∧
        (growing.view g2).parent = (growing.view g1).parent ∧ Grows actions 0 g1 g2 := by
      rcases h with ⟨rfl, rfl⟩ | ⟨-, rfl⟩
      · have hact' := act_of_acts hset
        have hgrows' := setTrue_grows hs (fun n hn ↦ by rw [hn]; exact ⟨rfl, rfl⟩) hact'
        obtain ⟨hs', hp, -, hview⟩ := modifyTop_sound (Q := (·.Holds none 0)) hs hact' fun n hn ↦ by
          rw [hn]
          exact ⟨rfl, fun _ ↦ rfl, fun _ ↦ rfl, fun _ ↦ rfl, fun _ _ ↦ rfl⟩
        exact ⟨hs', hp, hview, hgrows'⟩
      · cases hset
        exact ⟨hs.mono fun n hn ↦ hn ▸ hzero hstring, rfl, rfl, .refl _⟩
    obtain ⟨hs', hp, hview, hgrows'⟩ := htrue
    obtain ⟨hinv', hgrows'', hopens⟩ := attachTo_grows hs' (hp ▸ hne) (hview.trans hparent) hattach
    exact ⟨hinv', (hgrows.trans (hgrows'.trans hgrows'')).mono (Nat.zero_le k), .inl hopens⟩
  | endString n htop =>
    have htyped := hsound.typed htop
    obtain ⟨g1, hact, hrest⟩ := exists_of_acts_cons hacts
    have hgrows := endString_grows htyped hact
    obtain ⟨hs, hp, hne, hview⟩ := modifyTop_sound (Q := (·.Holds none 0)) htyped hact
      fun m hm ↦ by
        obtain ⟨⟨t, hlen, hholds, _⟩, htype⟩ := hm
        refine ⟨rfl, fun h ↦ ?_, fun h ↦ ?_, fun h ↦ ?_, fun _ _ ↦ ?_⟩
        · cases htype.symm.trans h
        · cases htype.symm.trans h
        · cases htype.symm.trans h
        · simp only [hholds.text, Option.getD_some, hlen]
    obtain ⟨hinv', hgrows', hopens⟩ := attachTo_grows hs (hp ▸ hne) hview hrest
    exact ⟨hinv', (hgrows.trans hgrows').mono (Nat.zero_le 1), .inl hopens⟩
  | endName n comma htop =>
    have htyped := hsound.typed htop
    have hact := act_of_acts hacts
    obtain ⟨hs, hp, hne, -⟩ := modifyTop_sound (Q := Node.Waiting) htyped hact
      fun m hm ↦ by
        obtain ⟨⟨t, hlen, hholds, _⟩, htype⟩ := hm
        exact .inr ⟨htype, rfl, hholds.items,
          fun _ ↦ by rw [List.length_append, hholds.members htype]; rfl,
          fun _ ↦ by
            simp only [nameBytes_append, List.length_append, List.length_singleton,
              hholds.names htype, hholds.text, Option.getD_some, hlen],
          fun h ↦ by cases htype.symm.trans h⟩
    exact ⟨.of_open hs (hp ▸ hne) (by rintro ⟨⟩), (endName_grows htyped hact).mono (Nat.zero_le 1),
      .inl (by rintro ⟨⟩)⟩
  | beginName htop =>
    have hact := act_of_acts hacts
    have htyped := hsound.typed htop
    have hgrows := beginName_grows htyped (fun n hn ↦ ⟨hn.2, hn.1.1.text⟩) hact (hpath htop)
    obtain ⟨i, path, n, hp, -⟩ := view_top htop
    have hedit : g.modifyTop (fun n ↦ { n with text := some [] }) = .ok g' := by
      rw [← hact]
      simp only [growing, Grown.edit, Grown.modifyTop, hp]
    obtain ⟨hs, hp', hne, -⟩ := modifyTop_sound (Q := (·.Reading 0)) htyped hedit
      fun n hn ↦ ⟨[], rfl, ⟨rfl, hn.1.1.items, hn.1.1.members, hn.1.1.names, by rintro _ ⟨⟩⟩,
        .inr hn.2⟩
    exact ⟨.of_open hs (hp' ▸ hne) (by rintro ⟨⟩), hgrows, .inl (by rintro ⟨⟩)⟩
  | closeArray comma htop =>
    have hcomplete : Sound (·.Holds none 0) g := (hsound.typed htop).mono fun n hn ↦ by
      rcases hn.1 with ⟨-, hholds⟩ | ⟨htype, -⟩
      · exact hholds
      · cases htype.symm.trans hn.2
    obtain ⟨hinv', hgrows, hopens⟩ := attachTo_grows hcomplete (hpath htop) rfl hacts
    exact ⟨hinv', hgrows.mono (Nat.zero_le 1), .inl hopens⟩
  | closeObject htop =>
    obtain ⟨hinv', hgrows, hopens⟩ := attachTo_grows (hsound.mono fun n hn ↦ hn.1) (hpath htop) rfl hacts
    exact ⟨hinv', hgrows.mono (Nat.zero_le 1), .inl hopens⟩
  | endNumber type actions htop htype h =>
    have htyped : Sound (fun n ↦ n.Holds none 0 ∧ n.type.IsNumber) g :=
      (hsound.typed htop).mono fun n hn ↦ ⟨hn.1.1, hn.2 ▸ htype⟩
    obtain ⟨g1, hend, hrest⟩ := exists_of_acts_append hacts
    have hnegate : Sound (·.Holds none 0) g1 ∧ g1.path = g.path ∧
        (growing.view g1).parent = (growing.view g).parent ∧ Grows actions 0 g g1 := by
      rcases h with rfl | rfl
      · cases hend
        exact ⟨htyped.mono fun n hn ↦ hn.1, rfl, rfl, .refl _⟩
      · obtain ⟨hs, hp, -, hview, hgrows⟩ := numeric_inv (.inl rfl) htyped hend
        exact ⟨hs.mono fun n hn ↦ hn.1, hp, hview, hgrows⟩
    obtain ⟨hs, hp, hview, hgrows⟩ := hnegate
    obtain ⟨hinv', hgrows', hopens⟩ := attachTo_grows hs (hp ▸ hpath htop) hview hrest
    exact ⟨hinv', hgrows.trans hgrows', .inl hopens⟩

end Moves

/-! ## The first pass -/

section Runs

variable {c : Control} {g F : Grown} {fuel : Nat}

/-- The loop neither ends nor reads what is not there. -/
def Step.Lives (s : Step) : Prop := s ≠ .finished ∧ s ≠ .undefined

/-- Behind a value. -/
theorem next_lives (c : Control) (v : View) (as : List Action) : (c.next v as).Lives := by
  unfold Control.next
  split <;> exact ⟨nofun, nofun⟩

/-- At a blank. -/
theorem blank_lives (c : Control) (b : UInt8) : (c.blank b).Lives := by
  unfold Control.blank
  split <;> exact ⟨nofun, nofun⟩

/-- In a string or a name. -/
theorem stringStep_lives {v : View} (htop : v.top = some .string ∨ v.top = some .object) (c : Control)
    (b : UInt8) : (stringStep v c b).Lives := by
  have hunicode (c : Control) : (unicodeStep c).Lives := by
    unfold unicodeStep
    dsimp only
    split
    · exact ⟨nofun, nofun⟩
    · split <;> exact ⟨nofun, nofun⟩
  have hescaped (c : Control) : (escapedStep c b).Lives := by
    unfold escapedStep
    split_ifs
    iterate 5 exact ⟨nofun, nofun⟩
    · exact hunicode c
    · exact ⟨nofun, nofun⟩
  unfold stringStep
  split_ifs
  · exact ⟨nofun, nofun⟩
  · exact ⟨nofun, nofun⟩
  · exact hescaped _
  · exact ⟨nofun, nofun⟩
  · rcases htop with htop | htop
    · rw [htop]
      exact next_lives _ _ _
    · rw [htop]
      exact ⟨nofun, nofun⟩
  · exact ⟨nofun, nofun⟩

/-- In front of a value, where a closing bracket has a value to close. -/
theorem seekStep_lives {v : View} {c : Control} {b : UInt8} (h : b = 0x5D → v.top ≠ none)
    (first : Bool) :
    (seekStep first v c b).Lives := by
  have hword (c : Control) (word : Bytes) (type : JsonType) (actions : List Action) :
      (wordStep v c word type actions).Lives := by
    unfold wordStep
    split
    · exact ⟨nofun, nofun⟩
    · split
      · exact ⟨nofun, nofun⟩
      · exact next_lives _ _ _
  have hnumber (c : Control) : (numberStart first v c b).Lives := by
    unfold numberStart
    split_ifs
    · exact ⟨nofun, nofun⟩
    · exact ⟨nofun, nofun⟩
    · exact next_lives _ _ _
  have hvalue (c : Control) : (valueStep first v c b).Lives := by
    unfold valueStep
    split_ifs
    iterate 3 exact ⟨nofun, nofun⟩
    iterate 3 exact hword _ _ _ _
    · exact hnumber c
    · exact ⟨nofun, nofun⟩
  unfold seekStep
  split_ifs
  · exact blank_lives c b
  · next hb =>
    split
    · next htop => exact absurd htop (h hb)
    · exact next_lives _ _ _
    · exact ⟨nofun, nofun⟩
  iterate 4 exact ⟨nofun, nofun⟩
  · exact hvalue _

/-- In an object. -/
theorem objectStep_lives (v : View) (c : Control) (b : UInt8) : (objectStep v c b).Lives := by
  unfold objectStep
  split_ifs
  · exact blank_lives c b
  · exact ⟨nofun, nofun⟩
  · exact ⟨nofun, nofun⟩
  · exact next_lives _ _ _
  · exact ⟨nofun, nofun⟩
  · exact ⟨nofun, nofun⟩

/-- In a number. -/
theorem numberStep_lives (v : View) (c : Control) (type : JsonType) (b : UInt8) :
    (numberStep v c type b).Lives := by
  have hdigit : (digitStep c type b).Lives := by
    unfold digitStep
    dsimp only
    split_ifs <;> exact ⟨nofun, nofun⟩
  unfold numberStep
  split_ifs
  · exact hdigit
  iterate 4 exact ⟨nofun, nofun⟩
  · exact next_lives _ _ _
  · exact ⟨nofun, nofun⟩
  · exact ⟨nofun, nofun⟩
  · exact next_lives _ _ _

/-- The value at `top` in a mode that has one. -/
theorem Inv.top {m : Mode} (hinv : Inv m g) (hm : ∀ comma, m ≠ .seeking comma) :
    ∃ n, (growing.view g).top = some n.type ∧ m.Top n := by
  cases hpath : g.path with
  | nil =>
    obtain ⟨comma, h⟩ := hinv.start hpath
    exact absurd h (hm comma)
  | cons k path =>
    obtain ⟨n, hn, htop⟩ := hinv.sound.node hpath
    refine ⟨n, ?_, htop⟩
    simp only [growing, hpath, typeAt, List.getElem?_cons_zero, Option.bind_some, hn, Option.map_some]

/-- The flags of a mode. -/
theorem flags_of_mode (c : Control) :
    c.string = true ∧ c.mode = .reading c.stringLength ∨
      c.string = false ∧ c.done = true ∧ c.mode = .done ∨
      (c.string = false ∧ c.done = false) ∧
        (c.seekValue = true ∧ c.mode = .seeking c.needComma ∨ c.seekValue = false ∧ c.mode = .inside) := by
  unfold Control.mode
  cases c.string with
  | true => exact .inl ⟨rfl, rfl⟩
  | false =>
    cases c.done with
    | true => exact .inr (.inl ⟨rfl, rfl, rfl⟩)
    | false =>
      cases c.seekValue with
      | true => exact .inr (.inr ⟨⟨rfl, rfl⟩, .inl ⟨rfl, rfl⟩⟩)
      | false => exact .inr (.inr ⟨⟨rfl, rfl⟩, .inr ⟨rfl, rfl⟩⟩)

/-- The loop goes on or fails unless the value of the text is complete, or a closing bracket stands in
front of it. -/
theorem step_lives (hinv : Inv c.mode g) (hdone : c.mode ≠ .done)
    (hbracket : g.path = [] → c.rest.headD 0 ≠ 0x5D) : (step true (growing.view g) c).Lives := by
  rcases flags_of_mode c with ⟨hstring, hmode⟩ | ⟨-, -, hmode⟩ | ⟨⟨hstring, hd⟩, hseek⟩
  · rw [hmode] at hinv
    obtain ⟨n, htop, t, -, -, htype⟩ := hinv.top (by rintro _ ⟨⟩)
    rw [step_string hstring]
    refine stringStep_lives ?_ c _
    rw [htop]
    rcases htype with htype | htype <;> rw [htype]
    · exact .inl rfl
    · exact .inr rfl
  · exact absurd hmode hdone
  · rcases hseek with ⟨hseek, hmode⟩ | ⟨hseek, hmode⟩
    · rw [step_seek hstring hd hseek]
      refine seekStep_lives (fun hb htop ↦ ?_) true
      cases hpath : g.path with
      | nil => exact hbracket hpath hb
      | cons k path =>
        obtain ⟨n, hn, -⟩ := hinv.sound.node hpath
        simp only [growing, hpath, typeAt, List.getElem?_cons_zero, Option.bind_some, hn, Option.map_some,
          reduceCtorEq] at htop
    · rw [hmode] at hinv
      obtain ⟨n, htop, -, htype⟩ := hinv.top (by rintro _ ⟨⟩)
      rcases htype with htype | htype
      · rw [step_object ⟨hstring, hd, hseek⟩ (htop.trans (congrArg some htype))]
        exact objectStep_lives _ c _
      · rw [step_number ⟨hstring, hd, hseek⟩ htop htype]
        exact numberStep_lives _ c _ _

/-- A closing bracket in front of the value of the text: `top` is NULL. -/
theorem step_bracket (hinv : Inv c.mode g) (hpath : g.path = []) (hb : c.rest.headD 0 = 0x5D)
    (first : Bool) :
    step first (growing.view g) c = .undefined := by
  obtain ⟨comma, hmode⟩ := hinv.start hpath
  have htop : (growing.view g).top = none := by
    simp only [growing, hpath, typeAt, List.getElem?_nil, Option.bind_none, Option.map_none]
  rcases flags_of_mode c with ⟨-, h⟩ | ⟨-, -, h⟩ | ⟨⟨hstring, hd⟩, ⟨hseek, -⟩ | ⟨-, h⟩⟩
  · cases hmode.symm.trans h
  · cases hmode.symm.trans h
  · rw [step_seek hstring hd hseek, hb, seekStep, if_neg (by decide), if_pos rfl, htop]
  · cases hmode.symm.trans h

/-- The loop ends behind the value of the text. -/
theorem mode_of_finished (hinv : Inv c.mode g) (h : step true (growing.view g) c = .finished) :
    c.mode = .done := by
  by_contra hdone
  refine (step_lives hinv hdone fun hpath hb ↦ ?_).1 h
  cases (step_bracket hinv hpath hb true).symm.trans h

/-- Only a closing bracket in front of the value of the text is undefined. -/
theorem bracket_of_undefined (hinv : Inv c.mode g) (h : step true (growing.view g) c = .undefined) :
    g.path = [] ∧ c.rest.headD 0 = 0x5D := by
  by_contra hno
  refine (step_lives hinv (fun hdone ↦ ?_) fun hpath hb ↦ hno ⟨hpath, hb⟩).2 h
  rcases flags_of_mode c with ⟨-, h'⟩ | ⟨hstring, hd, -⟩ | ⟨-, ⟨-, h'⟩ | ⟨-, h'⟩⟩
  · cases hdone.symm.trans h'
  · rw [step_done hstring hd, doneStep] at h
    split_ifs at h
    · exact (blank_lives _ _).2 h
    · cases h
  · cases hdone.symm.trans h'
  · cases hdone.symm.trans h'

/-- A step of a run. -/
theorem loop_parsed {M : Type} {mem : Memory M} {first : Bool} {m r : M}
    (h : loop mem first (fuel + 1) c m = .parsed r) :
    step first (mem.view m) c = .finished ∧ m = r ∨
      ∃ c' as m', step first (mem.view m) c = .go c' as ∧ mem.acts as m = .ok m' ∧
        loop mem first fuel c' m' = .parsed r := by
  rw [loop] at h
  split at h
  · next hstep =>
    cases h
    exact .inl ⟨hstep, rfl⟩
  · cases h
  · cases h
  · next c' as hstep =>
    split at h
    · next m' hacts => exact .inr ⟨c', as, m', hstep, hacts, h⟩
    · cases h
    · cases h

/-- What a run keeps, and how the values grow. -/
theorem run_grows (hcalm : c.Calm) (hinv : Inv c.mode g) (h : loop growing true fuel c g = .parsed F) :
    Inv .done F ∧ g.Le F ∧ ∀ size, g.NamesLe size → F.NamesLe (size + c.rest.length) := by
  induction fuel generalizing c g with
  | zero => cases h
  | succ fuel ih =>
    rcases loop_parsed h with ⟨hstep, rfl⟩ | ⟨c', as, g', hstep, hacts, hrest⟩
    · rw [mode_of_finished hinv hstep] at hinv
      exact ⟨hinv, .refl g, fun size hsize n hn htype ↦ (hsize n hn htype).trans (Nat.le_add_right ..)⟩
    · obtain ⟨hcalm', k, hk, hmove⟩ := step_move hcalm hstep
      obtain ⟨hinv', hgrows, -⟩ := move_grows hmove rfl hinv hacts
      obtain ⟨hdone, hle, hnames⟩ := ih hcalm' hinv' hrest
      refine ⟨hdone, hgrows.le.trans hle, fun size hsize ↦ ?_⟩
      rw [← hk, Nat.add_comm c'.rest.length, ← Nat.add_assoc]
      exact hnames _ (hgrows.names size hsize)

/-- Before the first byte there is no value. -/
theorem inv_start (json : Bytes) : (Control.start json).Calm ∧ Inv (Control.start json).mode ⟨[], []⟩ :=
  ⟨nofun, ⟨⟨.nil, nofun, nofun, nofun, nofun⟩, nofun, fun _ ↦ ⟨false, rfl⟩⟩⟩

/-- Behind the last byte every value is complete. -/
theorem fits_of_done {size : Nat} (hinv : Inv .done F) (hnames : F.NamesLe size)
    (hsize : 24 * size < 2 ^ 31) : Fits F := by
  have hholds (f : Node) (hf : f ∈ F.nodes) : f.Holds none 0 := by
    obtain ⟨i, hi⟩ := List.mem_iff_getElem?.mp hf
    by_cases hpath : i ∈ F.path
    · have htail := hinv.root rfl
      cases hp : F.path with
      | nil =>
        rw [hp] at hpath
        cases hpath
      | cons k path =>
        rw [hp, List.tail_cons] at htail
        rw [hp, htail, List.mem_singleton] at hpath
        exact hinv.sound.top i (by rw [hp, hpath]; rfl) f hi
    · exact hinv.sound.closed i f hi hpath
  refine ⟨hholds, fun f hf htype ↦ ?_⟩
  have hlength : f.length ≤ f.nameSize := by
    have hmembers := (hholds f hf).members htype
    rw [Nat.add_zero] at hmembers
    have hcount (members : List (Bytes × Option Nat)) : members.length ≤ (nameBytes members).length := by
      induction members with
      | nil => exact Nat.le_refl 0
      | cons m members ih =>
        simp only [nameBytes, List.flatMap_cons, List.length_append, List.length_cons,
          List.length_nil] at ih ⊢
        omega
    rw [← hmembers, Node.nameSize]
    exact (hcount f.members).trans (Nat.le_add_right ..)
  have := hnames f hf htype
  omega

end Runs

/-! ## The loop ends -/

section Ends

variable {c : Control} {g g' : Grown} {fuel : Nat}

/-- How many passes of the loop may still come that take no byte. -/
def weight (m : Mode) (g : Grown) : Nat :=
  match m with
  | .seeking false => 2
  | .inside => if (growing.view g).top = some .object then 0 else 1
  | _ => 0

/-- The weight is small. -/
theorem weight_le (m : Mode) (g : Grown) : weight m g ≤ 2 := by
  unfold weight
  split
  · exact Nat.le_refl 2
  · split
    · exact Nat.zero_le 2
    · exact Nat.le_succ 1
  · exact Nat.zero_le 2

/-- A move takes a byte, or the weight gets smaller. -/
theorem weight_move {v : View} {m m' : Mode} {as : List Action} {k r r' : Nat} (hmove : Move v m m' as k)
    (hv : growing.view g = v) (hr : r' + k = r)
    (hopens : Opens m' g' ∨ ¬ Opens m g ∧ 0 < k ∨ as = [.newValue .integer]) :
    3 * r' + weight m' g' < 3 * r + weight m g := by
  have hle := weight_le m' g'
  cases hmove with
  | add n bytes k hk =>
    have := hk.1
    omega
  | word type actions k hk h => omega
  | integer k =>
    have hinside : weight .inside g' ≤ 1 := by
      unfold weight
      dsimp only
      split
      · exact Nat.zero_le 1
      · exact Nat.le_refl 1
    have hseeking : weight (.seeking false) g = 2 := rfl
    omega
  | endNumber type actions htop htype h =>
    have hnumber : weight .inside g = 1 := by
      unfold weight
      dsimp only
      rw [if_neg]
      rw [hv, htop, Option.some.injEq]
      rintro rfl
      rcases htype with h | h <;> cases h
    have hafter : weight (.after v.parent) g' = 0 := by
      have hopens : Opens (.after v.parent) g' := by
        rcases hopens with hopens | ⟨-, hk⟩ | has
        · exact hopens
        · exact absurd hk (Nat.lt_irrefl 0)
        · rcases h with rfl | rfl
          · cases hp : v.parent <;> rw [hp] at has <;> cases has
          · cases has
      unfold Mode.after at hopens ⊢
      split
      · rfl
      · split
        · rfl
        · next type' hp htype' =>
          rw [hp] at hopens
          simp only [htype', if_false] at hopens
          exact if_pos (hopens rfl)
    omega
  | _ => omega

/-- How deep `top` has to be for some actions. -/
def Reaches : List Action → Nat → Prop
  | [], _ => True
  | .newValue _ :: as, depth => Reaches as (depth + 1)
  | .attach :: as, depth => 2 ≤ depth ∧ Reaches as (depth - 1)
  | _ :: as, depth => 1 ≤ depth ∧ Reaches as depth

/-- Actions of which each has the values it needs. -/
theorem acts_reaches {as : List Action} (h : Reaches as g.path.length) :
    growing.acts as g ≠ .undefined := by
  induction as generalizing g with
  | nil => rintro ⟨⟩
  | cons a as ih =>
    have htop {f : Node → Node} (ha : growing.act a g = g.modifyTop f)
        (hd : 1 ≤ g.path.length ∧ Reaches as g.path.length) : growing.acts (a :: as) g ≠ .undefined := by
      rw [Memory.acts, ha, Grown.modifyTop]
      cases hpath : g.path with
      | nil => rw [hpath] at hd; exact absurd hd.1 (Nat.not_succ_le_zero 0)
      | cons k path => exact ih (g := ⟨_, k :: path⟩) (hpath ▸ hd.2)
    have hedit {f : Node → Node} (hd : 1 ≤ g.path.length ∧ Reaches as g.path.length) :
        growing.acts as (g.edit f) ≠ .undefined := by
      refine ih ?_
      unfold Grown.edit
      split
      · exact hd.2
      · exact hd.2
    cases a with
    | newValue type => exact ih (g := ⟨g.nodes ++ [.zero type], g.nodes.length :: g.path⟩) h
    | beginString => exact ih h.2
    | beginName => exact hedit h
    | add k b => exact hedit h
    | attach =>
      obtain ⟨hdepth, hrest⟩ := h
      rw [Memory.acts]
      obtain ⟨nodes, path⟩ := g
      rcases path with - | ⟨k, - | ⟨p, path⟩⟩
      · exact absurd hdepth (Nat.not_succ_le_zero 1)
      · exact absurd hdepth (Nat.lt_irrefl 1)
      · simp only [growing]
        split
        · next h =>
          split at h
          · cases h
          · cases h
            exact ih (g := ⟨_, p :: path⟩) hrest
        · rintro ⟨⟩
        · next h => split at h <;> cases h
    | setTrue | endString length | endName length | digit d | toDouble | negate => exact htop rfl h

/-- Every action of a move has the values it needs. -/
theorem acts_move {v : View} {m m' : Mode} {as : List Action} {k : Nat} (hmove : Move v m m' as k)
    (hv : growing.view g = v) (hinv : Inv m g) : growing.acts as g ≠ .undefined := by
  subst hv
  have htop {type : JsonType} (h : (growing.view g).top = some type) : 1 ≤ g.path.length := by
    obtain ⟨k, path, n, hpath, -⟩ := view_top h
    rw [hpath]
    exact Nat.le_add_left 1 _
  have hparent {type : JsonType} (h : (growing.view g).parent = some type) : 2 ≤ g.path.length := by
    cases hpath : g.path with
    | nil =>
      simp only [growing, hpath, typeAt, List.getElem?_nil, Option.bind_none, Option.map_none,
        reduceCtorEq] at h
    | cons k path =>
      cases path with
      | nil =>
        simp only [growing, hpath, typeAt, List.getElem?_cons_succ, List.getElem?_nil, Option.bind_none,
          Option.map_none, reduceCtorEq] at h
      | cons p path => exact Nat.le_add_left 2 _
  have hattach : Reaches (attachTo (growing.view g).parent) g.path.length := by
    cases hp : (growing.view g).parent with
    | none => exact trivial
    | some type => exact ⟨hparent hp, trivial⟩
  refine acts_reaches ?_
  cases hmove with
  | quiet | comma | object | array _ | integer _ => exact trivial
  | add n bytes k hk =>
    have hne : 1 ≤ g.path.length := by
      refine List.length_pos_iff.mpr fun h ↦ ?_
      obtain ⟨comma, h⟩ := hinv.start h
      cases h
    have hadds (i : Nat) : Reaches (bytes.mapIdx fun j b ↦ Action.add (i + j) b) g.path.length := by
      induction bytes generalizing i with
      | nil => exact trivial
      | cons b bytes ih =>
        rw [List.mapIdx_cons]
        refine ⟨hne, ?_⟩
        have hrest := ih ⟨hk.1, (Nat.le_succ _).trans hk.2⟩ (i + 1)
        simp only [Nat.add_assoc, Nat.add_comm 1] at hrest
        exact hrest
    exact hadds n
  | count a type h htype ha => rcases ha with rfl | ⟨d, rfl⟩ <;> exact ⟨htop h, trivial⟩
  | string => exact ⟨Nat.le_add_left 1 _, trivial⟩
  | word type actions k hk h =>
    have hword : Reaches (attachTo (growing.view g).top) (g.path.length + 1) := by
      cases ht : (growing.view g).top with
      | none => exact trivial
      | some type => exact ⟨Nat.succ_le_succ (htop ht), trivial⟩
    rcases h with ⟨-, rfl⟩ | ⟨-, rfl⟩
    · exact ⟨Nat.le_add_left 1 _, hword⟩
    · exact hword
  | endString n h => exact ⟨htop h, hattach⟩
  | endName n comma h => exact ⟨htop h, trivial⟩
  | beginName h => exact ⟨htop h, trivial⟩
  | closeArray comma h => exact hattach
  | closeObject h => exact hattach
  | endNumber type actions h htype hactions =>
    rcases hactions with rfl | rfl
    · exact hattach
    · exact ⟨htop h, hattach⟩

/-- A run has fuel enough. -/
theorem run_ends (hcalm : c.Calm) (hinv : Inv c.mode g)
    (hfuel : 3 * c.rest.length + weight c.mode g < fuel) : loop growing true fuel c g ≠ .outOfFuel := by
  induction fuel generalizing c g with
  | zero => exact absurd hfuel (Nat.not_lt_zero _)
  | succ fuel ih =>
    rw [loop]
    split
    · rintro ⟨⟩
    · rintro ⟨⟩
    · rintro ⟨⟩
    · next c' as hgo =>
      obtain ⟨hcalm', k, hk, hmove⟩ := step_move hcalm hgo
      split
      · next g' hacts =>
        obtain ⟨hinv', -, hopens⟩ := move_grows hmove rfl hinv hacts
        have hlt := weight_move hmove rfl hk hopens
        exact ih hcalm' hinv' (by omega)
      · rintro ⟨⟩
      · rintro ⟨⟩

/-- There stays a value at `top`. -/
theorem acts_path {as : List Action} (hne : g.path ≠ []) (h : growing.acts as g = .ok g') :
    g'.path ≠ [] := by
  induction as generalizing g with
  | nil =>
    cases h
    exact hne
  | cons a as ih =>
    obtain ⟨g1, hact, hrest⟩ := exists_of_acts_cons h
    refine ih ?_ hrest
    obtain ⟨k, path, hpath⟩ := List.exists_cons_of_ne_nil hne
    cases a with
    | attach =>
      simp only [growing, hpath] at hact
      split at hact
      · split at hact <;> cases hact
        exact List.cons_ne_nil _ _
      · cases hact
    | _ =>
      simp only [growing, Grown.modifyTop, Grown.edit, hpath] at hact
      cases hact
      first | exact List.cons_ne_nil _ _ | exact hne

/-- Behind the first byte of the value of the text nothing is undefined. -/
theorem run_defined (hcalm : c.Calm) (hinv : Inv c.mode g) (hne : g.path ≠ []) :
    loop growing true fuel c g ≠ .undefined := by
  induction fuel generalizing c g with
  | zero => rintro ⟨⟩
  | succ fuel ih =>
    rw [loop]
    split
    · rintro ⟨⟩
    · rintro ⟨⟩
    · next h => exact absurd (bracket_of_undefined hinv h).1 hne
    · next c' as hgo =>
      obtain ⟨hcalm', k, hk, hmove⟩ := step_move hcalm hgo
      split
      · next g' hacts => exact ih hcalm' (move_grows hmove rfl hinv hacts).1 (acts_path hne hacts)
      · rintro ⟨⟩
      · next h => exact absurd h (acts_move hmove rfl hinv)

/-- In front of the value of the text. -/
def Control.AtStart (c : Control) : Prop :=
  (c.string = false ∧ c.done = false ∧ c.seekValue = true) ∧ c.needComma = false ∧ c.needColon = false

/-- A value begins with a new one. -/
theorem valueStep_new {v : View} {b : UInt8} {c' : Control} {as : List Action}
    (h : valueStep true v c b = .go c' as) : ∃ type rest, as = .newValue type :: rest := by
  have hword {word : Bytes} {type : JsonType} {actions : List Action}
      (h : wordStep v c word type actions = .go c' as) : ∃ type rest, as = .newValue type :: rest := by
    unfold wordStep at h
    split at h
    · cases h
    · split at h
      · cases h
      · exact ⟨_, _, (next_nil h).2⟩
  unfold valueStep at h
  split_ifs at h
  iterate 3
    cases h
    exact ⟨_, _, rfl⟩
  iterate 3 exact hword h
  · rw [numberStart, if_pos rfl] at h
    split at h <;> cases h <;> exact ⟨_, _, rfl⟩
  · cases h

/-- A blank in front of the value of the text. -/
theorem blank_atStart {b : UInt8} (hc : c.AtStart) :
    ∃ c', c.blank b = .go c' [] ∧ c'.AtStart ∧ c'.rest = c.rest.drop 1 := by
  unfold Control.blank
  split
  · exact ⟨_, rfl, hc, rfl⟩
  · exact ⟨_, rfl, hc, rfl⟩

/-- Only a closing bracket in front of the value of the text is undefined. -/
theorem bracket_of_run (hcalm : c.Calm) (hinv : Inv c.mode ⟨[], []⟩) (hc : c.AtStart)
    (h : loop growing true fuel c ⟨[], []⟩ = .undefined) :
    ∃ blanks rest, c.rest = blanks ++ 0x5D :: rest ∧ blanks.all isJsonBlank = true := by
  induction fuel generalizing c with
  | zero => cases h
  | succ fuel ih =>
    rw [loop] at h
    split at h
    · cases h
    · cases h
    · next hundef =>
      have hhead := (bracket_of_undefined hinv hundef).2
      cases hr : c.rest with
      | nil =>
        rw [hr] at hhead
        exact absurd hhead (by decide)
      | cons b rest =>
        rw [hr] at hhead
        exact ⟨[], rest, congrArg (· :: rest) hhead, rfl⟩
    · next c' as hgo =>
      obtain ⟨hcalm', k, -, hmove⟩ := step_move hcalm hgo
      rw [step_seek hc.1.1 hc.1.2.1 hc.1.2.2, seekStep] at hgo
      split_ifs at hgo with hblank hbracket hcomma hb hcolon
      · obtain ⟨c1, hc1, hstart, hrest⟩ := blank_atStart (b := c.rest.headD 0) hc
        cases hc1.symm.trans hgo
        obtain ⟨blanks, rest, heq, hall⟩ := ih hcalm' (move_grows hmove rfl hinv rfl).1 hstart h
        cases hr : c.rest with
        | nil =>
          rw [hr] at hblank
          exact absurd hblank (by decide)
        | cons b tail =>
          rw [hrest, hr, List.drop_one, List.tail_cons] at heq
          rw [hr] at hblank
          refine ⟨b :: blanks, rest, by rw [heq, List.cons_append], ?_⟩
          rw [List.all_cons, hall, show isJsonBlank b = true from hblank]
          rfl
      · cases hgo
      · cases hc.2.1.symm.trans hcomma
      · cases hgo
      · cases hc.2.2.symm.trans hcolon
      · cases hgo
      · obtain ⟨type, rest, rfl⟩ := valueStep_new hgo
        split at h
        · next g' hacts =>
          refine absurd h (run_defined hcalm' (move_grows hmove rfl hinv hacts).1 ?_)
          obtain ⟨g1, hnew, hrest⟩ := exists_of_acts_cons hacts
          cases hnew
          exact acts_path (List.cons_ne_nil _ _) hrest
        · cases h
        · next hundef => exact absurd hundef (acts_move hmove rfl hinv)

/-- A closing bracket in front of the value of the text is undefined. -/
theorem run_bracket {blanks rest : Bytes} (hc : c.AtStart) (hrest : c.rest = blanks ++ 0x5D :: rest)
    (hblanks : blanks.all isJsonBlank = true) (hfuel : blanks.length < fuel) :
    loop growing true fuel c ⟨[], []⟩ = .undefined := by
  obtain ⟨fuel, rfl⟩ := Nat.exists_eq_add_one_of_ne_zero (Nat.ne_zero_of_lt hfuel)
  induction blanks generalizing c fuel with
  | nil =>
    have hstep : step true (growing.view ⟨[], []⟩) c = .undefined := by
      rw [step_seek hc.1.1 hc.1.2.1 hc.1.2.2, hrest]
      rfl
    rw [loop, hstep]
  | cons b blanks ih =>
    rw [List.all_cons, Bool.and_eq_true] at hblanks
    obtain ⟨c1, hc1, hstart, hrest'⟩ := blank_atStart (b := b) hc
    have hstep : step true (growing.view ⟨[], []⟩) c = .go c1 [] := by
      rw [step_seek hc.1.1 hc.1.2.1 hc.1.2.2, hrest, List.cons_append, List.headD_cons, seekStep,
        if_pos hblanks.1]
      exact hc1
    rw [loop, hstep]
    have hlt : blanks.length < fuel := Nat.lt_of_succ_lt_succ hfuel
    obtain ⟨fuel, rfl⟩ := Nat.exists_eq_add_one_of_ne_zero (Nat.ne_zero_of_lt hlt)
    refine ih hstart ?_ hblanks.2 fuel hlt
    rw [hrest', hrest, List.cons_append, List.drop_one, List.tail_cons]

end Ends

end OpenWrtCompile.Server.JsonParser
