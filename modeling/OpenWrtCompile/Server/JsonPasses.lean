import OpenWrtCompile.Server.JsonParser

/-!
# Two passes are one

The loop of `json_parse_ex` (`shadowsocksr-libev/src/server/json.c:232–889`) over a memory that grows:
strings, arrays and objects are lists. What the first pass counts are the lengths of these lists, and
the second pass puts the lists into blocks of these lengths, each of them full in the end.
-/

namespace OpenWrtCompile.Server.JsonParser
open OpenWrtCompile.Base

variable {M N : Type}

/-! ## Memories that agree -/

/-- The reply with another memory. -/
def Reply.map (f : M → N) : Reply M → Reply N
  | .ok m => .ok (f m)
  | .tooLong => .tooLong
  | .undefined => .undefined

/-- The result with another memory. -/
def Result.map (f : M → N) : Result M → Result N
  | .parsed m => .parsed (f m)
  | .failed fault line off => .failed fault line off
  | .undefined => .undefined
  | .outOfFuel => .outOfFuel

/-- A memory is an image of another one. -/
structure Image (mem : Memory M) (mem' : Memory N) (f : M → N) : Prop where
  view : ∀ m, mem'.view (f m) = mem.view m
  act : ∀ a m, mem'.act a (f m) = (mem.act a m).map f

/-- The actions of a byte on an image. -/
theorem Image.acts {mem : Memory M} {mem' : Memory N} {f : M → N} (h : Image mem mem' f)
    (as : List Action) (m : M) : mem'.acts as (f m) = (mem.acts as m).map f := by
  induction as generalizing m with
  | nil => rfl
  | cons a as ih =>
    rw [Memory.acts, Memory.acts, h.act]
    cases mem.act a m with
    | ok m' => exact ih m'
    | tooLong | undefined => rfl

/-- A pass over an image. -/
theorem Image.loop {mem : Memory M} {mem' : Memory N} {f : M → N} (h : Image mem mem' f) (first : Bool)
    (fuel : Nat) (c : Control) (m : M) :
    JsonParser.loop mem' first fuel c (f m) = (JsonParser.loop mem first fuel c m).map f := by
  induction fuel generalizing c m with
  | zero => rfl
  | succ fuel ih =>
    rw [JsonParser.loop, JsonParser.loop, h.view]
    cases step first (mem.view m) c with
    | finished | failed _ _ _ | undefined => rfl
    | go c' as =>
      dsimp only
      rw [h.acts]
      cases mem.acts as m with
      | ok m' => exact ih c' m'
      | tooLong | undefined => rfl

/-! ## The memory that grows -/

/-- A value with what it holds: a string or name that is read, the string, the items, and the members
with their names; the value of the last member may be still to come. -/
structure Node extends Counted where
  text : Option Bytes
  bytes : Bytes
  items : List Nat
  members : List (Bytes × Option Nat)
  deriving DecidableEq, Repr

/-- A new value. A string is read from its start. -/
def Node.zero (type : JsonType) : Node where
  toCounted := .zero type
  text := if type = .string then some [] else none
  bytes := []
  items := []
  members := []

/-- A value is the next one of its parent. -/
def Node.attach (n : Node) (k : Nat) : Node where
  toCounted := n.toCounted.attach
  text := n.text
  bytes := n.bytes
  items := if n.type = .array then n.items ++ [k] else n.items
  members := if n.type = .object then n.members.modify n.length fun m ↦ (m.1, some k) else n.members

/-- The values in their order, and the indices of `top`, its parent and so on. -/
structure Grown where
  nodes : List Node
  path : List Nat
  deriving DecidableEq, Repr

/-- The value at `top` is changed. -/
def Grown.edit (g : Grown) (f : Node → Node) : Grown :=
  match g.path with
  | [] => g
  | k :: _ => { g with nodes := g.nodes.modify k f }

/-- There has to be a value at `top`. -/
def Grown.modifyTop (g : Grown) (f : Node → Node) : Reply Grown :=
  match g.path with
  | [] => .undefined
  | k :: _ => .ok { g with nodes := g.nodes.modify k f }

/-- The memory that grows. -/
def growing : Memory Grown where
  view g := ⟨typeAt (·.type) g.nodes g.path[0]?, typeAt (·.type) g.nodes g.path[1]?⟩
  act a g :=
    match a with
    | .newValue type => .ok ⟨g.nodes ++ [.zero type], g.nodes.length :: g.path⟩
    | .setTrue => g.modifyTop fun n ↦ { n with boolean := true }
    | .beginString => .ok g
    | .beginName => .ok (g.edit fun n ↦ { n with text := some [] })
    | .add _ b => .ok (g.edit fun n ↦ { n with text := n.text.map (· ++ [b]) })
    | .endString length =>
      g.modifyTop fun n ↦ { n with length := length, bytes := n.text.getD [], text := none }
    | .endName length =>
      g.modifyTop fun n ↦ { n with
        names := n.names + (length + 1), members := n.members ++ [(n.text.getD [], none)], text := none }
    | .digit d => g.modifyTop fun n ↦ { n with integer := wrap (n.integer * 10 + d) }
    | .toDouble => g.modifyTop fun n ↦ { n with type := .double }
    | .negate => g.modifyTop fun n ↦ { n with integer := wrap (-n.integer) }
    | .attach =>
      match g.path with
      | k :: p :: path =>
        if uintMax < (g.nodes[p]?.map (·.length + 1)).getD 0 then .tooLong
        else .ok ⟨g.nodes.modify p (·.attach k), p :: path⟩
      | _ => .undefined

/-- The loop over the memory that grows. -/
def growParse (json : Bytes) : Result Grown :=
  loop growing true (fuelFor json.length) (.start json) ⟨[], []⟩

/-! ## The first pass -/

/-- What the first pass knows of the values. -/
def Grown.counted (g : Grown) : FirstPass := ⟨g.nodes.map Node.toCounted, g.path⟩

/-- The type of a value that was counted. -/
theorem typeAt_counted (nodes : List Node) (k : Option Nat) :
    typeAt Counted.type (nodes.map Node.toCounted) k = typeAt (·.type) nodes k := by
  cases k with
  | none => rfl
  | some k =>
    simp only [typeAt, Option.bind_some, List.getElem?_map, Option.map_map]
    rfl

/-- A change of a value that is counted. -/
theorem map_modify_counted {f : Node → Node} {h : Counted → Counted}
    (hf : ∀ n, (f n).toCounted = h n.toCounted) (nodes : List Node) (k : Nat) :
    (nodes.map Node.toCounted).modify k h = (nodes.modify k f).map Node.toCounted := by
  induction nodes generalizing k with
  | nil => cases k <;> rfl
  | cons n nodes ih =>
    cases k with
    | zero => simp only [List.map_cons, List.modify_zero_cons, hf]
    | succ k => simp only [List.map_cons, List.modify_succ_cons, ih]

/-- The first pass counts what the other memory holds. -/
theorem firstPass_image : Image growing firstPass Grown.counted where
  view g := by
    simp only [firstPass, growing, Grown.counted, typeAt_counted]
  act a g := by
    obtain ⟨nodes, path⟩ := g
    have htop {f : Node → Node} {h : Counted → Counted} (hf : ∀ n, (f n).toCounted = h n.toCounted) :
        FirstPass.modifyTop (Grown.counted ⟨nodes, path⟩) h =
          (Grown.modifyTop ⟨nodes, path⟩ f).map Grown.counted := by
      cases path with
      | nil => rfl
      | cons k path =>
        exact congrArg (fun v ↦ Reply.ok (FirstPass.mk v (k :: path))) (map_modify_counted hf nodes k)
    have hedit {f : Node → Node} (hf : ∀ n, (f n).toCounted = n.toCounted) :
        Grown.counted (Grown.edit ⟨nodes, path⟩ f) = Grown.counted ⟨nodes, path⟩ := by
      cases path with
      | nil => rfl
      | cons k path =>
        have hsame := map_modify_counted (h := id) hf nodes k
        rw [List.modify_id] at hsame
        exact congrArg (FirstPass.mk · (k :: path)) hsame.symm
    cases a with
    | newValue type => simp [firstPass, growing, Reply.map, Grown.counted, Node.zero]
    | beginString => rfl
    | beginName | add _ _ =>
      refine congrArg Reply.ok (Eq.symm (hedit ?_))
      exact fun _ ↦ rfl
    | attach =>
      rcases path with - | ⟨k, - | ⟨p, path⟩⟩
      · rfl
      · rfl
      · have hlength : ((nodes.map Node.toCounted)[p]?.map (·.length + 1)).getD 0 =
            (nodes[p]?.map (·.length + 1)).getD 0 := by
          rw [List.getElem?_map, Option.map_map]
          rfl
        simp only [firstPass, growing, Grown.counted, hlength]
        split
        · rfl
        · refine congrArg (fun v ↦ Reply.ok (FirstPass.mk v (p :: path))) (map_modify_counted ?_ nodes p)
          exact fun _ ↦ rfl
    | _ =>
      refine htop ?_
      exact fun _ ↦ rfl

/-! ## What a byte does -/

/-- Where the loop is: in an object or a number, in front of a value or the comma in front of it, in a
string of which some bytes are read, or behind the value of the text. -/
inductive Mode where
  | inside
  | seeking (comma : Bool)
  | reading (length : Nat)
  | done
  deriving DecidableEq, Repr

/-- The flags as they are tested. -/
def Control.mode (c : Control) : Mode :=
  if c.string then .reading c.stringLength
  else if c.done then .done
  else if c.seekValue then .seeking c.needComma
  else .inside

/-- In a string no other flag is set. -/
def Control.Calm (c : Control) : Prop := c.string = true → c.done = false ∧ c.seekValue = false

/-- Behind a value with a parent of a type. -/
def Mode.after : Option JsonType → Mode
  | none => .done
  | some type => if type = .array then .seeking true else .inside

/-- What a complete value adds. -/
def attachTo : Option JsonType → List Action
  | none => []
  | some _ => [.attach]

/-- A number is read. -/
def JsonType.IsNumber (type : JsonType) : Prop := type = .integer ∨ type = .double

/-- The moves of the first pass, with what they write and the bytes that they take. -/
inductive Move (v : View) : Mode → Mode → List Action → Nat → Prop
  | quiet (m : Mode) : Move v m m [] 1
  | comma : Move v (.seeking true) (.seeking false) [] 1
  | add (n : Nat) (bytes : Bytes) (k : Nat) (hk : 0 < k ∧ bytes.length ≤ k) :
    Move v (.reading n) (.reading (n + bytes.length)) (bytes.mapIdx fun j b ↦ .add (n + j) b) k
  | count (a : Action) (type : JsonType) (hv : v.top = some type) (htype : type.IsNumber)
    (ha : a = .toDouble ∨ ∃ d, a = .digit d) : Move v .inside .inside [a] 1
  | object : Move v (.seeking false) .inside [.newValue .object] 1
  | array (comma : Bool) : Move v (.seeking false) (.seeking comma) [.newValue .array] 1
  | string : Move v (.seeking false) (.reading 0) [.newValue .string, .beginString] 1
  | integer (k : Nat) : Move v (.seeking false) .inside [.newValue .integer] k
  | word (type : JsonType) (actions : List Action) (k : Nat) (hk : 0 < k)
    (h : type = .boolean ∧ actions = [.setTrue] ∨ (type = .boolean ∨ type = .null) ∧ actions = []) :
    Move v (.seeking false) (.after v.top) (.newValue type :: actions ++ attachTo v.top) k
  | endString (n : Nat) (hv : v.top = some .string) :
    Move v (.reading n) (.after v.parent) (.endString n :: attachTo v.parent) 1
  | endName (n : Nat) (comma : Bool) (hv : v.top = some .object) :
    Move v (.reading n) (.seeking comma) [.endName n] 1
  | beginName (hv : v.top = some .object) : Move v .inside (.reading 0) [.beginName] 1
  | closeArray (comma : Bool) (hv : v.top = some .array) :
    Move v (.seeking comma) (.after v.parent) (attachTo v.parent) 1
  | closeObject (hv : v.top = some .object) :
    Move v .inside (.after v.parent) (attachTo v.parent) 1
  | endNumber (type : JsonType) (actions : List Action) (hv : v.top = some type)
    (htype : type.IsNumber) (h : actions = [] ∨ actions = [.negate]) :
    Move v .inside (.after v.parent) (actions ++ attachTo v.parent) 0

/-- A byte makes a move from a mode. -/
structure Moved (v : View) (m : Mode) (c c' : Control) (as : List Action) : Prop where
  calm : c'.Calm
  move : ∃ k, c'.rest.length + k = c.rest.length ∧ Move v m c'.mode as k

section Moves

variable {v : View} {m : Mode} {c c' : Control} {as : List Action} {b : UInt8}

/-- A byte that is not 0 is one of the text. -/
theorem length_skip_one (hb : c.rest.headD 0 = b) (h0 : b ≠ 0) (flags : Control)
    (hrest : flags.rest = c.rest) : (flags.skip 1).rest.length + 1 = c.rest.length := by
  rw [Control.skip, hrest]
  cases hr : c.rest with
  | nil =>
    rw [hr] at hb
    exact absurd hb.symm h0
  | cons a rest => rfl

/-- A blank is not 0. -/
theorem ne_zero_of_blank (h : isJsonBlank b = true) : b ≠ 0 := by
  rintro rfl
  exact absurd h (by decide)

/-- Flags that stay as they are. -/
theorem stay_mode (c c' : Control) (hstring : c.string = false) (hs : c'.string = c.string)
    (hd : c'.done = c.done) (hk : c'.seekValue = c.seekValue) (hn : c'.needComma = c.needComma) :
    c'.Calm ∧ c'.mode = c.mode := by
  refine ⟨fun ht ↦ ?_, ?_⟩
  · rw [hs, hstring] at ht
    cases ht
  · rw [Control.mode, Control.mode, hs, hd, hk, hn, hstring]
    rfl

/-- A blank. -/
theorem blank_move (hb : c.rest.headD 0 = b) (hblank : isJsonBlank b = true)
    (hstring : c.string = false) (h : c.blank b = .go c' as) : Moved v c.mode c c' as := by
  have h0 := ne_zero_of_blank hblank
  unfold Control.blank at h
  split at h <;> cases h
  · obtain ⟨hcalm, hmode⟩ := stay_mode c
      ({ c with curLine := c.curLine + 1, curLineBegin := c.i }.skip 1) hstring rfl rfl rfl rfl
    exact ⟨hcalm, 1, length_skip_one hb h0 { c with curLine := c.curLine + 1, curLineBegin := c.i } rfl,
      hmode ▸ .quiet _⟩
  · obtain ⟨hcalm, hmode⟩ := stay_mode c (c.skip 1) hstring rfl rfl rfl rfl
    exact ⟨hcalm, 1, length_skip_one hb h0 c rfl, hmode ▸ .quiet _⟩

/-- Behind a value. -/
theorem next_move {actions : List Action}
    (hflags : c.string = false ∧ c.done = false ∧ c.seekValue = false)
    (h : c.next v actions = .go c' as) :
    c'.Calm ∧ c'.mode = .after v.parent ∧ c'.rest = c.rest ∧ as = actions ++ attachTo v.parent := by
  obtain ⟨hstring, hdone, hseek⟩ := hflags
  have hcalm (hc : c'.string = c.string) : c'.Calm := fun ht ↦ by
    rw [hc, hstring] at ht
    cases ht
  unfold Control.next at h
  split at h
  · next hparent =>
    cases h
    refine ⟨hcalm rfl, ?_, rfl, ?_⟩
    · simp only [Control.mode, hstring, hparent, Mode.after, Bool.false_eq_true, if_false, if_true]
    · rw [hparent, attachTo, List.append_nil]
  · next type hparent =>
    cases h
    refine ⟨hcalm rfl, ?_, rfl, ?_⟩
    · simp only [Control.mode, hstring, hdone, hseek, hparent, Mode.after, Bool.false_eq_true, if_false,
        Bool.false_or, decide_eq_true_eq]
    · rw [hparent, attachTo]

/-- What is written with a value does not matter to what is written behind it. -/
theorem next_nil {actions : List Action} (h : c.next v actions = .go c' as) :
    c.next ⟨none, v.parent⟩ [] = .go c' (attachTo v.parent) ∧ as = actions ++ attachTo v.parent := by
  unfold Control.next at h ⊢
  cases hv : v.parent with
  | none =>
    simp only [hv] at h
    cases h
    exact ⟨rfl, (List.append_nil _).symm⟩
  | some type =>
    simp only [hv] at h
    cases h
    exact ⟨rfl, rfl⟩

/-- Bytes are added to a string. -/
theorem addBytes_move {k : Nat} {bytes : Bytes} (hk : 0 < k ∧ bytes.length ≤ k)
    (hrest : k ≤ c.rest.length) (hstring : c.string = true) (hcalm : c.Calm)
    (h : addBytes c k bytes = .go c' as) : Moved v (.reading c.stringLength) c c' as := by
  cases h
  refine ⟨fun _ ↦ hcalm hstring, k, ?_, ?_⟩
  · rw [Control.skip, List.length_drop, Nat.sub_add_cancel hrest]
  · simp only [Control.mode, Control.skip, hstring, if_true]
    exact .add _ bytes k hk

/-- The bytes of `\u` are three at most. -/
theorem length_unicodeBytes (b1 b2 : UInt8) : (unicodeBytes b1 b2).length ≤ 3 := by
  unfold unicodeBytes
  dsimp only
  split
  · exact Nat.le_add_left 1 2
  · split
    · exact Nat.le_succ 2
    · exact Nat.le_refl 3

/-- The four digits of `\u`. -/
theorem unicodeStep_move (hstring : c.string = true) (hcalm : c.Calm)
    (h : unicodeStep c = .go c' as) : Moved v (.reading c.stringLength) c c' as := by
  unfold unicodeStep at h
  dsimp only at h
  split at h
  · cases h
  · split at h
    iterate 4 cases h
    · next d4 _ _ _ hdigit =>
      have hrest : 5 ≤ c.rest.length := by
        by_contra hshort
        rw [List.getElem?_eq_none (Nat.lt_succ_iff.mp (Nat.not_le.mp hshort))] at hdigit
        cases hdigit
      refine addBytes_move ⟨Nat.succ_pos 4, ?_⟩ hrest hstring hcalm h
      exact (length_unicodeBytes _ _).trans (by decide)

/-- A byte of a string. -/
theorem stringStep_move (hb : c.rest.headD 0 = b) (hstring : c.string = true) (hcalm : c.Calm)
    (h : stringStep v c b = .go c' as) : Moved v c.mode c c' as := by
  have hmode : c.mode = .reading c.stringLength := if_pos hstring
  obtain ⟨hdone, hseek⟩ := hcalm hstring
  rw [hmode]
  unfold stringStep at h
  split at h
  · cases h
  · next h0 =>
    have hrest := length_skip_one hb h0 c rfl
    have hadd {e : Bool} {a : UInt8} (hgo : addBytes { c with escaped := e } 1 [a] = .go c' as) :
        Moved v (.reading c.stringLength) c c' as := by
      have hmove : Moved v (.reading c.stringLength) { c with escaped := e } c' as :=
        addBytes_move (c := { c with escaped := e }) ⟨Nat.one_pos, Nat.le_of_eq List.length_singleton⟩
          (hrest ▸ Nat.le_add_left 1 _) hstring hcalm hgo
      exact ⟨hmove.calm, hmove.move⟩
    split at h
    · cases h
    · split at h
      · unfold escapedStep at h
        repeat' split at h
        iterate 5 exact hadd h
        · have hmove : Moved v (.reading c.stringLength) { c with escaped := false } c' as :=
            unicodeStep_move (c := { c with escaped := false }) hstring hcalm h
          exact ⟨hmove.calm, hmove.move⟩
        · exact hadd h
      · split at h
        · cases h
          refine ⟨hcalm, 1, hrest, ?_⟩
          simp only [Control.mode, Control.skip, hstring, if_true]
          exact .quiet _
        · split at h
          · split at h
            · next htop =>
              obtain ⟨hcalm', hmode', hrest', rfl⟩ :=
                next_move (c := { c with string := false }.skip 1) ⟨rfl, hdone, hseek⟩ h
              refine ⟨hcalm', 1, ?_, hmode' ▸ .endString _ htop⟩
              rw [hrest']
              exact hrest
            · next htop =>
              cases h
              refine ⟨nofun, 1, hrest, ?_⟩
              simp only [Control.mode, Control.skip, hdone, Bool.false_eq_true, if_false, if_true]
              exact .endName _ _ htop
            · cases h
          · exact hadd (e := c.escaped) h

/-- A byte behind the value of the text. -/
theorem doneStep_move (hb : c.rest.headD 0 = b) (hstring : c.string = false)
    (h : doneStep c b = .go c' as) : Moved v c.mode c c' as := by
  unfold doneStep at h
  split at h
  · cases h
  · split at h
    · next hblank => exact blank_move hb hblank hstring h
    · cases h

/-- A word that is read stands there. -/
theorem prefix_of_mismatch {word t : Bytes} (h0 : 0 ∉ word) (h : mismatch word t = none) :
    word <+: t := by
  induction word generalizing t with
  | nil => exact List.nil_prefix
  | cons w ws ih =>
    unfold mismatch at h
    split at h
    · cases h
    · next hhead =>
      rw [not_not] at hhead
      cases t with
      | nil => exact absurd (List.mem_cons.mpr (.inl hhead)) h0
      | cons a t =>
        obtain rfl : a = w := hhead
        rw [List.cons_prefix_cons]
        exact ⟨rfl, ih (fun hm ↦ h0 (List.mem_cons_of_mem _ hm)) (Option.map_eq_none_iff.mp h)⟩

/-- A word. -/
theorem wordStep_move {word : Bytes} {type : JsonType} {actions : List Action} (h0 : 0 ∉ word)
    (hne : c.rest ≠ []) (hword : type = .boolean ∧ actions = [.setTrue] ∨
      (type = .boolean ∨ type = .null) ∧ actions = [])
    (hflags : c.string = false ∧ c.done = false ∧ c.seekValue = false)
    (h : wordStep v c word type actions = .go c' as) : Moved v (.seeking false) c c' as := by
  unfold wordStep at h
  split at h
  · cases h
  · split at h
    · cases h
    · next hmatch =>
      have hlen := (prefix_of_mismatch h0 hmatch).length_le
      rw [List.length_tail] at hlen
      have hpos := List.length_pos_iff.mpr hne
      obtain ⟨hcalm', hmode', hrest', rfl⟩ := next_move (c := c.skip (word.length + 1)) hflags h
      refine ⟨hcalm', word.length + 1, ?_, hmode' ▸ .word type actions _ (Nat.succ_pos _) hword⟩
      rw [hrest', Control.skip, List.length_drop]
      omega

/-- The first byte of a value. -/
theorem valueStep_move (hb : c.rest.headD 0 = b)
    (hflags : c.string = false ∧ c.done = false ∧ c.seekValue = false)
    (h : valueStep true v c b = .go c' as) : Moved v (.seeking false) c c' as := by
  obtain ⟨hstring, hdone, hseek⟩ := id hflags
  have hmode : c.mode = .inside := by
    simp only [Control.mode, hstring, hdone, hseek, Bool.false_eq_true, if_false]
  have hword (h0 : b ≠ 0) : c.rest ≠ [] := by
    intro hnil
    rw [hnil] at hb
    exact h0 hb.symm
  have hone (h0 : b ≠ 0) (flags : Control) (hf : flags.rest = c.rest) :=
    length_skip_one hb h0 flags hf
  unfold valueStep at h
  split at h
  · next hbyte =>
    cases h
    obtain ⟨hcalm', hmode'⟩ := stay_mode c (c.skip 1) hstring rfl rfl rfl rfl
    exact ⟨hcalm', 1, hone (hbyte ▸ by decide) c rfl, (hmode'.trans hmode) ▸ .object⟩
  · split at h
    · next hbyte =>
      cases h
      refine ⟨fun ht ↦ absurd (hstring.symm.trans ht) nofun, 1,
        hone (hbyte ▸ by decide) { c with seekValue := true } rfl, ?_⟩
      simp only [Control.mode, Control.skip, hstring, hdone, Bool.false_eq_true, if_false, if_true]
      exact .array _
    · split at h
      · next hbyte =>
        cases h
        refine ⟨fun _ ↦ ⟨hdone, hseek⟩, 1,
          hone (hbyte ▸ by decide) { c with string := true, stringLength := 0 } rfl, ?_⟩
        simp only [Control.mode, Control.skip, if_true]
        exact .string
      · split at h
        · next hbyte =>
          exact wordStep_move (by decide) (hword (hbyte ▸ by decide)) (.inl ⟨rfl, rfl⟩) hflags h
        · split at h
          · next hbyte =>
            exact wordStep_move (by decide) (hword (hbyte ▸ by decide)) (.inr ⟨.inl rfl, rfl⟩) hflags h
          · split at h
            · next hbyte =>
              exact wordStep_move (by decide) (hword (hbyte ▸ by decide)) (.inr ⟨.inr rfl, rfl⟩) hflags h
            · split at h
              · unfold numberStart at h
                rw [if_pos rfl] at h
                split at h
                · cases h
                  exact ⟨fun ht ↦ absurd (hstring.symm.trans ht) nofun, 0, rfl, hmode ▸ .integer 0⟩
                · next hbyte =>
                  rw [not_not] at hbyte
                  cases h
                  exact ⟨fun ht ↦ absurd (hstring.symm.trans ht) nofun, 1,
                    hone (hbyte ▸ by decide) { c with num := ⟨true, false, false, false, 0⟩ } rfl,
                    hmode ▸ .integer 1⟩
              · cases h

/-- A byte in front of a value. -/
theorem seekStep_move (hb : c.rest.headD 0 = b) (hstring : c.string = false) (hdone : c.done = false)
    (hseek : c.seekValue = true) (h : seekStep true v c b = .go c' as) : Moved v c.mode c c' as := by
  have hmode : c.mode = .seeking c.needComma := by
    simp only [Control.mode, hstring, hdone, hseek, Bool.false_eq_true, if_false, if_true]
  unfold seekStep at h
  split at h
  · next hblank => exact blank_move hb hblank hstring h
  · split at h
    · next hbyte =>
      split at h
      · cases h
      · next htop =>
        obtain ⟨hcalm', hmode', hrest', rfl⟩ := next_move
          (c := { c with needComma := false, seekValue := false }.skip 1) ⟨hstring, hdone, rfl⟩ h
        refine ⟨hcalm', 1, ?_, hmode ▸ hmode' ▸ .closeArray _ htop⟩
        rw [hrest']
        exact length_skip_one hb (hbyte ▸ by decide) { c with needComma := false, seekValue := false } rfl
      · cases h
    · split at h
      · next hcomma =>
        split at h
        · next hbyte =>
          cases h
          refine ⟨fun ht ↦ absurd (hstring.symm.trans ht) nofun, 1,
            length_skip_one hb (hbyte ▸ by decide) { c with needComma := false } rfl, ?_⟩
          rw [hmode, hcomma]
          simp only [Control.mode, Control.skip, hstring, hdone, hseek, Bool.false_eq_true, if_false,
            if_true]
          exact .comma
        · cases h
      · next hcomma =>
        split at h
        · split at h
          · next hbyte =>
            cases h
            obtain ⟨hcalm', hmode'⟩ := stay_mode c ({ c with needColon := false }.skip 1) hstring
              rfl rfl rfl rfl
            exact ⟨hcalm', 1, length_skip_one hb (hbyte ▸ by decide) { c with needColon := false } rfl,
              hmode' ▸ .quiet _⟩
          · cases h
        · rw [hmode, Bool.eq_false_iff.mpr hcomma]
          have hmove : Moved v (.seeking false) { c with seekValue := false } c' as :=
            valueStep_move (c := { c with seekValue := false }) hb ⟨hstring, hdone, rfl⟩ h
          exact ⟨hmove.calm, hmove.move⟩

/-- A byte in an object. -/
theorem objectStep_move (hb : c.rest.headD 0 = b)
    (hflags : c.string = false ∧ c.done = false ∧ c.seekValue = false)
    (htop : v.top = some .object) (h : objectStep v c b = .go c' as) : Moved v c.mode c c' as := by
  obtain ⟨hstring, hdone, hseek⟩ := id hflags
  have hmode : c.mode = .inside := by
    simp only [Control.mode, hstring, hdone, hseek, Bool.false_eq_true, if_false]
  unfold objectStep at h
  split at h
  · next hblank => exact blank_move hb hblank hstring h
  · split at h
    · next hbyte =>
      split at h <;> cases h
      refine ⟨fun _ ↦ ⟨hdone, hseek⟩, 1,
        length_skip_one hb (hbyte ▸ by decide) { c with string := true, stringLength := 0 } rfl, ?_⟩
      rw [hmode]
      simp only [Control.mode, Control.skip, if_true]
      exact .beginName htop
    · split at h
      · next hbyte =>
        obtain ⟨hcalm', hmode', hrest', rfl⟩ :=
          next_move (c := { c with needComma := false }.skip 1) hflags h
        refine ⟨hcalm', 1, ?_, hmode ▸ hmode' ▸ .closeObject htop⟩
        rw [hrest']
        exact length_skip_one hb (hbyte ▸ by decide) { c with needComma := false } rfl
      · split at h
        · next hbyte =>
          cases h
          refine ⟨fun ht ↦ absurd (hstring.symm.trans ht) nofun, 1,
            length_skip_one hb (hbyte.1 ▸ by decide) { c with needComma := false } rfl, ?_⟩
          rw [hmode]
          simp only [Control.mode, Control.skip, hstring, hdone, hseek, Bool.false_eq_true, if_false]
          exact .quiet _
        · cases h

/-- A byte of a number is taken, or the number ends in front of a byte. -/
theorem numberStep_cases {type : JsonType} (h : numberStep v c type b = .go c' as) :
    (isNumberByte b = true ∧ ∃ num, c' = { c with num }.skip 1 ∧
        (as = [] ∨ ∃ a, as = [a] ∧ (a = .toDouble ∨ ∃ d, a = .digit d))) ∨
      ∃ actions, (actions = [] ∨ actions = [.negate]) ∧ c.next v actions = .go c' as := by
  have hcount {num : Num} {actions : List Action} (hb : isNumberByte b = true)
      (hactions : actions = [] ∨ ∃ a, actions = [a] ∧ (a = .toDouble ∨ ∃ d, a = .digit d))
      (hgo : c.count num actions = .go c' as) :
      isNumberByte b = true ∧ ∃ num, c' = { c with num }.skip 1 ∧
        (as = [] ∨ ∃ a, as = [a] ∧ (a = .toDouble ∨ ∃ d, a = .digit d)) := by
    cases hgo
    exact ⟨hb, num, rfl, hactions⟩
  have hend (hgo : numberEnd v c type = .go c' as) :
      ∃ actions, (actions = [] ∨ actions = [.negate]) ∧ c.next v actions = .go c' as := by
    refine ⟨_, ?_, hgo⟩
    split
    · exact .inr rfl
    · exact .inl rfl
  unfold numberStep at h
  split at h
  · next hdigit =>
    have hb : isNumberByte b = true := by
      unfold isNumberByte
      rw [hdigit]
      rfl
    unfold digitStep at h
    dsimp only at h
    split at h
    · exact .inl (hcount hb (.inl rfl) h)
    · split at h
      · split at h
        · cases h
        · exact .inl (hcount hb (.inr ⟨_, rfl, .inr ⟨_, rfl⟩⟩) h)
      · exact .inl (hcount hb (.inl rfl) h)
  · split at h
    · next hbyte => exact .inl (hcount (by rcases hbyte.1 with rfl | rfl <;> decide) (.inl rfl) h)
    · split at h
      · next hbyte =>
        split at h
        · cases h
        · exact .inl (hcount (hbyte.1 ▸ by decide) (.inr ⟨_, rfl, .inl rfl⟩) h)
      · split at h
        · split at h
          · cases h
          · exact .inr (hend h)
        · split at h
          · cases h
          · split at h
            · next hbyte =>
              exact .inl (hcount (by rcases hbyte with rfl | rfl <;> decide) (.inr ⟨_, rfl, .inl rfl⟩) h)
            · exact .inr (hend h)

/-- A byte of a number. -/
theorem numberStep_move {type : JsonType} (hb : c.rest.headD 0 = b)
    (hflags : c.string = false ∧ c.done = false ∧ c.seekValue = false) (htop : v.top = some type)
    (htype : type.IsNumber) (h : numberStep v c type b = .go c' as) : Moved v c.mode c c' as := by
  obtain ⟨hstring, hdone, hseek⟩ := id hflags
  have hmode : c.mode = .inside := by
    simp only [Control.mode, hstring, hdone, hseek, Bool.false_eq_true, if_false]
  rcases numberStep_cases h with ⟨hbyte, num, rfl, hactions⟩ | ⟨actions, hactions, hnext⟩
  · have h0 : b ≠ 0 := by
      rintro rfl
      exact absurd hbyte (by decide)
    obtain ⟨hcalm', hmode'⟩ := stay_mode c ({ c with num }.skip 1) hstring rfl rfl rfl rfl
    refine ⟨hcalm', 1, length_skip_one hb h0 { c with num } rfl, ?_⟩
    rw [hmode', hmode]
    rcases hactions with rfl | ⟨a, rfl, ha⟩
    · exact .quiet _
    · exact .count a type htop htype ha
  · obtain ⟨hcalm', hmode', hrest', rfl⟩ := next_move hflags hnext
    exact ⟨hcalm', 0, by rw [hrest']; rfl, hmode ▸ hmode' ▸ .endNumber type _ htop htype hactions⟩

/-! ## The flags -/

/-- In a string. -/
theorem step_string {first : Bool} (hstring : c.string = true) :
    step first v c = stringStep v c (c.rest.headD 0) := if_pos hstring

/-- Behind the value of the text. -/
theorem step_done {first : Bool} (hstring : c.string = false) (hdone : c.done = true) :
    step first v c = doneStep c (c.rest.headD 0) := by
  unfold step
  dsimp only
  rw [if_neg (by rw [hstring]; exact nofun), if_pos hdone]

/-- In front of a value. -/
theorem step_seek {first : Bool} (hstring : c.string = false) (hdone : c.done = false)
    (hseek : c.seekValue = true) : step first v c = seekStep first v c (c.rest.headD 0) := by
  unfold step
  dsimp only
  rw [if_neg (by rw [hstring]; exact nofun), if_neg (by rw [hdone]; exact nofun), if_pos hseek]

/-- In an object. -/
theorem step_object {first : Bool} (hflags : c.string = false ∧ c.done = false ∧ c.seekValue = false)
    (htop : v.top = some .object) : step first v c = objectStep v c (c.rest.headD 0) := by
  obtain ⟨hstring, hdone, hseek⟩ := hflags
  unfold step
  dsimp only
  rw [if_neg (by rw [hstring]; exact nofun), if_neg (by rw [hdone]; exact nofun),
    if_neg (by rw [hseek]; exact nofun), htop]

/-- In a number. -/
theorem step_number {first : Bool} {type : JsonType}
    (hflags : c.string = false ∧ c.done = false ∧ c.seekValue = false) (htop : v.top = some type)
    (htype : type.IsNumber) : step first v c = numberStep v c type (c.rest.headD 0) := by
  obtain ⟨hstring, hdone, hseek⟩ := hflags
  unfold step
  dsimp only
  rw [if_neg (by rw [hstring]; exact nofun), if_neg (by rw [hdone]; exact nofun),
    if_neg (by rw [hseek]; exact nofun), htop]
  rcases htype with h | h <;> rw [h]

/-- Every byte of the first pass makes one of the moves. -/
theorem step_move (hcalm : c.Calm) (h : step true v c = .go c' as) : Moved v c.mode c c' as := by
  unfold step at h
  dsimp only at h
  split at h
  · next hstring => exact stringStep_move rfl hstring hcalm h
  · next hstring =>
    have hstring := Bool.eq_false_iff.mpr hstring
    split at h
    · exact doneStep_move rfl hstring h
    · next hdone =>
      have hdone := Bool.eq_false_iff.mpr hdone
      split at h
      · next hseek => exact seekStep_move rfl hstring hdone hseek h
      · next hseek =>
        have hseek := Bool.eq_false_iff.mpr hseek
        split at h
        · next htop => exact objectStep_move rfl ⟨hstring, hdone, hseek⟩ htop h
        · next htop => exact numberStep_move rfl ⟨hstring, hdone, hseek⟩ htop (.inl rfl) h
        · next htop => exact numberStep_move rfl ⟨hstring, hdone, hseek⟩ htop (.inr rfl) h
        · cases h

end Moves

end OpenWrtCompile.Server.JsonParser
