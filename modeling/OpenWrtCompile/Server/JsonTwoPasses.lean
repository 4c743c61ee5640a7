import OpenWrtCompile.Server.JsonRuns

/-!
# The second pass follows the first one

Where the first pass of `json_parse_ex` (`shadowsocksr-libev/src/server/json.c:265–887`) succeeds, the
second one makes the same moves in the blocks. A number is the exception: the first pass reads its
digits, and the second one skips it.
-/

namespace OpenWrtCompile.Server.JsonParser
open OpenWrtCompile.Base

/-! ## The second pass -/

/-- The flags of another number. -/
def Control.withNum (c : Control) (x : Num) : Control := { c with num := x }

/-- The loop goes on with the flags of another number. -/
def Step.withNum (x : Num) : Step → Step
  | .go c actions => .go (c.withNum x) actions
  | s => s

section SecondRun

variable {v : View} {c : Control} {x : Num} {b : UInt8}

/-- Behind a value. -/
theorem next_withNum (as : List Action) : (c.withNum x).next v as = (c.next v as).withNum x := by
  unfold Control.next
  cases v.parent <;> rfl

/-- A blank. -/
theorem blank_withNum : (c.withNum x).blank b = (c.blank b).withNum x := by
  unfold Control.blank
  split <;> rfl

/-- A test that does not read the flags of a number. -/
theorem ite_withNum {p : Prop} [Decidable p] {s t s' t' : Step} (hs : s' = s.withNum x)
    (ht : ¬ p → t' = t.withNum x) : (if p then s' else t') = (if p then s else t).withNum x := by
  split
  · exact hs
  · next hp => exact ht hp

/-- A byte of a string. -/
theorem stringStep_withNum : stringStep v (c.withNum x) b = (stringStep v c b).withNum x := by
  have hunicode (c : Control) : unicodeStep (c.withNum x) = (unicodeStep c).withNum x := by
    refine ite_withNum rfl fun _ ↦ ?_
    dsimp only [Control.withNum]
    cases hexValue (c.rest[1]?.getD 0) <;> cases hexValue (c.rest[2]?.getD 0) <;>
      cases hexValue (c.rest[3]?.getD 0) <;> cases hexValue (c.rest[4]?.getD 0) <;> rfl
  have hescaped (c : Control) : escapedStep (c.withNum x) b = (escapedStep c b).withNum x := by
    iterate 5 refine ite_withNum rfl fun _ ↦ ?_
    exact ite_withNum (hunicode c) fun _ ↦ rfl
  refine ite_withNum rfl fun _ ↦ ite_withNum rfl fun _ ↦ ?_
  refine ite_withNum (hescaped { c with escaped := false }) fun _ ↦ ite_withNum rfl fun _ ↦ ?_
  refine ite_withNum ?_ fun _ ↦ rfl
  cases v.top with
  | none => rfl
  | some type =>
    cases type with
    | string => exact next_withNum (c := { c with string := false }.skip 1) _
    | _ => rfl

/-- A byte behind the value of the text. -/
theorem doneStep_withNum : doneStep (c.withNum x) b = (doneStep c b).withNum x :=
  ite_withNum rfl fun _ ↦ ite_withNum blank_withNum fun _ ↦ rfl

/-- The first byte of a value that is no number. -/
theorem valueStep_withNum (hb : ¬ (isJsonDigit b ∨ b = 0x2D)) :
    valueStep false v (c.withNum x) b = (valueStep true v c b).withNum x := by
  have hword (word : Bytes) (type : JsonType) (actions : List Action) :
      wordStep v (c.withNum x) word type actions = (wordStep v c word type actions).withNum x := by
    refine ite_withNum rfl fun _ ↦ ?_
    dsimp only [Control.withNum]
    cases mismatch word c.rest.tail with
    | none => exact next_withNum (c := c.skip (word.length + 1)) _
    | some k => rfl
  unfold valueStep
  iterate 3 refine ite_withNum rfl fun _ ↦ ?_
  iterate 3 refine ite_withNum (hword _ _ _) fun _ ↦ ?_
  rw [if_neg hb, if_neg hb]
  rfl

/-- A byte in front of a value, where no number begins. -/
theorem seekStep_withNum
    (hb : c.needComma = false → c.needColon = false → ¬ (isJsonDigit b ∨ b = 0x2D)) :
    seekStep false v (c.withNum x) b = (seekStep true v c b).withNum x := by
  refine ite_withNum blank_withNum fun _ ↦ ite_withNum ?_ fun _ ↦ ?_
  · cases v.top with
    | none => rfl
    | some type =>
      cases type with
      | array => exact next_withNum (c := { c with needComma := false, seekValue := false }.skip 1) _
      | _ => rfl
  · refine ite_withNum (ite_withNum rfl fun _ ↦ rfl) fun hcomma ↦ ?_
    refine ite_withNum (ite_withNum rfl fun _ ↦ rfl) fun hcolon ↦ ?_
    exact valueStep_withNum (c := { c with seekValue := false })
      (hb (Bool.eq_false_iff.mpr hcomma) (Bool.eq_false_iff.mpr hcolon))

/-- A byte in an object. -/
theorem objectStep_withNum : objectStep v (c.withNum x) b = (objectStep v c b).withNum x := by
  refine ite_withNum blank_withNum fun _ ↦ ite_withNum (ite_withNum rfl fun _ ↦ rfl) fun _ ↦ ?_
  refine ite_withNum ?_ fun _ ↦ ite_withNum rfl fun _ ↦ rfl
  exact next_withNum (c := { c with needComma := false }.skip 1) _

end SecondRun

/-! ## Numbers -/

section Numbers

variable {c : Control} {g F : Grown} {fuel : Nat}

/-- A byte of a number cannot follow a value. -/
theorem failed_of_number {v : View} {first : Bool} (hstring : c.string = false)
    (hcomma : c.needComma = true)
    (hmode : c.done = true ∨ c.seekValue = true ∨ v.top = some .object)
    (hb : isNumberByte (c.rest.headD 0) = true) :
    ∃ f line off, step first v c = .failed f line off := by
  have hother {a : UInt8} (ha : isNumberByte a = false) : c.rest.headD 0 ≠ a := by
    rintro rfl
    rw [hb] at ha
    cases ha
  have hblank : isJsonBlank (c.rest.headD 0) = false := by
    rw [Bool.eq_false_iff]
    intro h
    simp only [isJsonBlank, Bool.or_eq_true, decide_eq_true_eq] at h
    rcases h with ((h | h) | h) | h <;> exact hother (by decide) h
  have hcomma' := hother (a := 0x2C) (by decide)
  cases hdone : c.done with
  | true =>
    rw [step_done hstring hdone, doneStep, if_neg (hother (by decide)), hblank]
    exact ⟨_, _, _, rfl⟩
  | false =>
    cases hseek : c.seekValue with
    | true =>
      rw [step_seek hstring hdone hseek, seekStep, hblank, if_neg Bool.false_ne_true,
        if_neg (hother (by decide)), if_pos hcomma, if_neg hcomma']
      exact ⟨_, _, _, rfl⟩
    | false =>
      have htop : v.top = some .object := by
        rcases hmode with h | h | h
        · cases hdone.symm.trans h
        · cases hseek.symm.trans h
        · exact h
      rw [step_object ⟨hstring, hdone, hseek⟩ htop, objectStep, hblank, if_neg Bool.false_ne_true,
        if_neg (hother (by decide)), if_neg (hother (by decide)), if_neg fun h ↦ hcomma' h.1]
      exact ⟨_, _, _, rfl⟩

/-- The flags behind a value. -/
theorem next_flags {v : View} {c' : Control} {actions as : List Action} (h : c.next v actions = .go c' as) :
    c'.string = c.string ∧ c'.needComma = true ∧ c'.rest = c.rest := by
  unfold Control.next at h
  split at h <;> cases h <;> exact ⟨rfl, rfl, rfl⟩

/-- Bytes that are skipped one after the other. -/
theorem skip_skip (c : Control) (i j : Nat) : (c.skip i).skip j = c.skip (i + j) := by
  simp only [Control.skip, List.drop_drop, Nat.add_assoc]

/-- How many bytes a number has behind its first one. -/
theorem takeWhile_length {b : UInt8} {rest : Bytes} (hne : rest ≠ []) (hhead : rest.headD 0 = b)
    (hb : isNumberByte b = true) :
    (rest.takeWhile isNumberByte).length = 1 + ((rest.drop 1).takeWhile isNumberByte).length := by
  cases rest with
  | nil => exact absurd rfl hne
  | cons a rest =>
    obtain rfl : a = b := hhead
    rw [List.takeWhile_cons_of_pos hb, List.length_cons, Nat.add_comm, List.drop_one, List.tail_cons]

/-- A run from within a number is behind it at some time, where the value is complete. The second pass
gets there by skipping the bytes of the number. -/
theorem number_run {p : Option JsonType} (hp : (growing.view g).parent = p)
    (hflags : c.string = false ∧ c.done = false ∧ c.seekValue = false)
    (hsound : Sound (fun n ↦ n.Holds none 0 ∧ n.type.IsNumber) g) (hne : g.path ≠ [])
    (h : loop growing true fuel c g = .parsed F) :
    ∃ fuel' x mid g' c', fuel' < fuel ∧
      (Sound (·.Holds none 0) mid ∧ mid.path ≠ [] ∧ (growing.view mid).parent = p ∧ g.Le mid) ∧
      (∀ F', Fits F' → mid.Le F' → build F' g = build F' mid) ∧
      ((c.skip (c.rest.takeWhile isNumberByte).length).withNum x).next ⟨none, p⟩ [] =
        .go c' (attachTo p) ∧
      growing.acts (attachTo p) mid = .ok g' ∧ loop growing true fuel' c' g' = .parsed F := by
  induction fuel generalizing c g with
  | zero => cases h
  | succ fuel ih =>
    obtain ⟨k, path, hpath⟩ := List.exists_cons_of_ne_nil hne
    obtain ⟨n, hn, hholds, hnumber⟩ := hsound.node hpath
    have htop : (growing.view g).top = some n.type := by
      simp only [growing, hpath, typeAt, List.getElem?_cons_zero, Option.bind_some, hn, Option.map_some]
    have hstep : step true (growing.view g) c = _ := step_number hflags htop hnumber
    rcases loop_parsed h with ⟨hfin, -⟩ | ⟨c', as, g', hgo, hacts, hrest⟩
    · exact absurd (hstep.symm.trans hfin) (numberStep_lives _ _ _ _).1
    · rcases numberStep_cases (hstep.symm.trans hgo) with
        ⟨hb, num, rfl, hactions⟩ | ⟨actions, hactions, hnext⟩
      · -- the byte is taken
        have hne' : c.rest ≠ [] := by
          intro hnil
          rw [hnil] at hb
          exact absurd hb (by decide)
        have hk := takeWhile_length hne' rfl hb
        have hskip (x : Num) (j : Nat) : ((({ c with num }.skip 1).skip j).withNum x) =
            ((c.skip (1 + j)).withNum x) := by
          rw [skip_skip]
          rfl
        have hg' : Sound (fun n ↦ n.Holds none 0 ∧ n.type.IsNumber) g' ∧ g'.path = g.path ∧
            (growing.view g').parent = p ∧ Grows as 0 g g' ∧ written as = [] := by
          rcases hactions with rfl | ⟨a, rfl, ha⟩
          · cases hacts
            exact ⟨hsound, rfl, hp, .refl _, rfl⟩
          · obtain ⟨hs, hpath', -, hview, hgrows⟩ := numeric_inv (.inr ha) hsound hacts
            refine ⟨hs, hpath', hview.trans hp, hgrows, ?_⟩
            rcases ha with rfl | ⟨d, rfl⟩ <;> rfl
        obtain ⟨hs, hpath', hview, hgrows, hwritten⟩ := hg'
        obtain ⟨fuel', x, mid, g'', c'', hfuel, ⟨hmid, hmne, hmp, hle⟩, hbuild, hnext, hattach, hloop⟩ :=
          ih (c := { c with num }.skip 1) hview hflags hs (hpath' ▸ hne) hrest
        refine ⟨fuel', x, mid, g'', c'', Nat.lt_succ_of_lt hfuel, ⟨hmid, hmne, hmp, hgrows.le.trans hle⟩,
          fun F' hF hle' ↦ ?_, ?_, hattach, hloop⟩
        · have hsync := hgrows.sync F' hF (hle.trans hle')
          rw [hwritten] at hsync
          rw [← hbuild F' hF hle']
          exact Reply.ok.inj hsync
        · rw [hk, ← hskip]
          exact hnext
      · -- the number ends in front of the byte
        obtain ⟨hnext', rfl⟩ := next_nil hnext
        rw [hp] at hnext' hacts
        obtain ⟨mid, hend, hattach⟩ := exists_of_acts_append hacts
        have hmid : Sound (fun n ↦ n.Holds none 0 ∧ n.type.IsNumber) mid ∧ mid.path = g.path ∧
            (growing.view mid).parent = p ∧ Grows actions 0 g mid ∧ written actions = [] := by
          rcases hactions with rfl | rfl
          · cases hend
            exact ⟨hsound, rfl, hp, .refl _, rfl⟩
          · obtain ⟨hs, hpath', -, hview, hgrows⟩ := numeric_inv (.inl rfl) hsound hend
            exact ⟨hs, hpath', hview.trans hp, hgrows, rfl⟩
        obtain ⟨hs, hpath', hview, hgrows, hwritten⟩ := hmid
        have hcomplete : Sound (·.Holds none 0) mid := hs.mono fun n hn ↦ hn.1
        obtain ⟨-, -, hopens⟩ := attachTo_grows hcomplete (hpath' ▸ hne) hview hattach
        have hafter := (next_move hflags hnext).2.1
        obtain ⟨hstring', hcomma', hrest'⟩ := next_flags hnext
        have hb : isNumberByte (c.rest.headD 0) = false := by
          rw [Bool.eq_false_iff]
          intro hb
          have hmode : c'.done = true ∨ c'.seekValue = true ∨ (growing.view g').top = some .object := by
            rcases flags_of_mode c' with ⟨h, -⟩ | ⟨-, h, -⟩ | ⟨-, ⟨h, -⟩ | ⟨-, h⟩⟩
            · cases (hstring'.trans hflags.1).symm.trans h
            · exact .inl h
            · exact .inr (.inl h)
            · exact .inr (.inr (hopens (hp ▸ hafter.symm.trans h)))
          rw [← hrest'] at hb
          obtain ⟨f, line, off, hfailed⟩ :=
            failed_of_number (hstring'.trans hflags.1) hcomma' hmode hb
          cases fuel with
          | zero => cases hrest
          | succ fuel =>
            rcases loop_parsed hrest with ⟨hfin, -⟩ | ⟨_, _, _, hgo', -⟩
            · cases hfailed.symm.trans hfin
            · cases hfailed.symm.trans hgo'
        have hk : (c.rest.takeWhile isNumberByte).length = 0 := by
          cases hr : c.rest with
          | nil => rfl
          | cons a rest =>
            rw [hr] at hb
            have hstop : ¬ isNumberByte a = true := by
              rw [show isNumberByte a = false from hb]
              exact Bool.false_ne_true
            rw [List.takeWhile_cons_of_neg hstop, List.length_nil]
        refine ⟨fuel, c.num, mid, g', c', Nat.lt_succ_self fuel,
          ⟨hcomplete, hpath' ▸ hne, hview, hgrows.le⟩, fun F' hF hle' ↦ ?_, ?_, hattach, hrest⟩
        · have hsync := hgrows.sync F' hF hle'
          rw [hwritten] at hsync
          exact Reply.ok.inj hsync
        · rw [hk, ← hnext']
          rfl

end Numbers

/-! ## Both passes -/

section Both

variable {c : Control} {g F : Grown} {fuel : Nat}

/-- The type of a value in its blocks. -/
theorem type_place (f n : Node) : (place f n).type = f.type := by
  cases hf : f.type <;> simp only [place, hf]

/-- The type of a value that is no number is the same in both passes. -/
theorem typeAt_build {k : Nat} {n : Node} (hle : g.Le F) (hn : g.nodes[k]? = some n)
    (hnumber : ¬ n.type.IsNumber) :
    typeAt Value.type (build F g).values (some k) = typeAt (·.type) g.nodes (some k) := by
  obtain ⟨f, hf, hnf⟩ := hle k n hn
  simp only [typeAt, Option.bind_some, build_value hf hn, hn, Option.map_some, type_place,
    hnf.type_eq rfl hnumber]

/-- Outside of numbers both passes see the same types. -/
theorem view_build {m : Mode} (hinv : Inv m g) (hopens : Opens m g) (hm : m ≠ .done) (hle : g.Le F) :
    secondPass.view (build F g) = growing.view g := by
  have hwait {n : Node} (h : n.Waiting) : ¬ n.type.IsNumber := by
    rintro (hn | hn) <;> rcases h with ⟨ht, -⟩ | ⟨ht, -⟩ <;> cases ht.symm.trans hn
  have hpath' : (build F g).path = g.path := rfl
  cases hpath : g.path with
  | nil =>
    simp only [secondPass, growing, hpath', hpath, List.getElem?_nil, typeAt, Option.bind_none,
      Option.map_none]
  | cons k path =>
    obtain ⟨n, hn, htop⟩ := hinv.sound.node hpath
    have hnumber : ¬ n.type.IsNumber := by
      cases m with
      | inside =>
        have hobject := hopens rfl
        simp only [growing, hpath, typeAt, List.getElem?_cons_zero, Option.bind_some, hn, Option.map_some,
          Option.some.injEq] at hobject
        rw [hobject]
        rintro (h | h) <;> cases h
      | seeking comma => exact hwait htop
      | reading length =>
        obtain ⟨t, -, -, ht⟩ := htop
        rintro (h | h) <;> rcases ht with ht | ht <;> cases ht.symm.trans h
      | done => exact absurd rfl hm
    have hparent : typeAt Value.type (build F g).values path[0]? = typeAt (·.type) g.nodes path[0]? := by
      cases path with
      | nil => rfl
      | cons p path =>
        have hlt := hinv.sound.bound p (by rw [hpath]; exact List.mem_cons_of_mem k List.mem_cons_self)
        have hp := List.getElem?_eq_getElem hlt
        rw [List.getElem?_cons_zero]
        exact typeAt_build hle hp
          (hwait (hinv.sound.parents p (by rw [hpath]; exact List.mem_cons_self) _ hp))
    simp only [secondPass, growing, hpath', hpath, List.getElem?_cons_zero, List.getElem?_cons_succ,
      typeAt_build hle hn hnumber, hparent]

/-- The first byte of a number is the next one. -/
def Control.AtNumber (c : Control) : Prop :=
  (c.string = false ∧ c.done = false ∧ c.seekValue = true) ∧ (c.needComma = false ∧ c.needColon = false) ∧
    (isJsonDigit (c.rest.headD 0) ∨ c.rest.headD 0 = 0x2D)

/-- The first byte of a number. -/
theorem step_atNumber (h : c.AtNumber) (first : Bool) (v : View) :
    step first v c = numberStart first v { c with seekValue := false } (c.rest.headD 0) := by
  obtain ⟨⟨hstring, hdone, hseek⟩, ⟨hcomma, hcolon⟩, hb⟩ := h
  have hother {a : UInt8} (ha : isJsonDigit a = false ∧ a ≠ 0x2D) : c.rest.headD 0 ≠ a := by
    rintro rfl
    rcases hb with hb | hb
    · exact absurd (ha.1.symm.trans hb) nofun
    · exact ha.2 hb
  have hblank : isJsonBlank (c.rest.headD 0) = false := by
    rw [Bool.eq_false_iff]
    intro h
    simp only [isJsonBlank, Bool.or_eq_true, decide_eq_true_eq] at h
    rcases h with ((h | h) | h) | h <;> exact hother (by decide) h
  rw [step_seek hstring hdone hseek, seekStep, hblank, if_neg nofun, if_neg (hother (by decide)),
    if_neg (by rw [hcomma]; exact nofun), if_neg (by rw [hcolon]; exact nofun), valueStep,
    if_neg (hother (by decide)), if_neg (hother (by decide)), if_neg (hother (by decide)),
    if_neg (hother (by decide)), if_neg (hother (by decide)), if_neg (hother (by decide)), if_pos hb]

/-- Elsewhere both passes do the same. -/
theorem step_second (hinv : Inv c.mode g) (hopens : Opens c.mode g) (hle : g.Le F) (hc : ¬ c.AtNumber)
    (x : Num) : step false (secondPass.view (build F g)) (c.withNum x) =
      (step true (growing.view g) c).withNum x := by
  rcases flags_of_mode c with ⟨hstring, hmode⟩ | ⟨hstring, hdone, -⟩ | ⟨⟨hstring, hdone⟩, hseek⟩
  · rw [view_build hinv hopens (by rw [hmode]; exact nofun) hle, step_string hstring,
      step_string (c := c.withNum x) hstring]
    exact stringStep_withNum
  · rw [step_done hstring hdone, step_done (c := c.withNum x) hstring hdone]
    exact doneStep_withNum
  · rcases hseek with ⟨hseek, hmode⟩ | ⟨hseek, hmode⟩
    · rw [view_build hinv hopens (by rw [hmode]; exact nofun) hle, step_seek hstring hdone hseek,
        step_seek (c := c.withNum x) hstring hdone hseek]
      exact seekStep_withNum fun hcomma hcolon hb ↦ hc ⟨⟨hstring, hdone, hseek⟩, ⟨hcomma, hcolon⟩, hb⟩
    · rw [view_build hinv hopens (by rw [hmode]; exact nofun) hle,
        step_object ⟨hstring, hdone, hseek⟩ (hopens hmode),
        step_object (c := c.withNum x) ⟨hstring, hdone, hseek⟩ (hopens hmode)]
      exact objectStep_withNum

/-- The first pass starts with a number. -/
theorem numberStart_first {v : View} {b : UInt8} (hb : c.rest.headD 0 = b) :
    ∃ num j, numberStart true v c b = .go ({ c with num }.skip j) [.newValue .integer] ∧
      (c.rest.takeWhile isNumberByte).length = j + ((c.rest.drop j).takeWhile isNumberByte).length := by
  by_cases hsign : b = 0x2D
  · refine ⟨⟨true, false, false, false, 0⟩, 1, ?_, takeWhile_length ?_ hb (hsign ▸ by decide)⟩
    · rw [numberStart, if_pos rfl, if_neg (not_not.mpr hsign)]
      rfl
    · intro hnil
      rw [hnil] at hb
      exact absurd (hb.trans hsign) (by decide)
  · refine ⟨⟨false, false, false, false, 0⟩, 0, ?_, ?_⟩
    · rw [numberStart, if_pos rfl, if_pos hsign]
      rfl
    · rw [List.drop_zero, Nat.zero_add]

/-- Only in front of a value is an integer new. -/
theorem seeking_of_integer {v : View} {m m' : Mode} {as : List Action} {k : Nat} (hmove : Move v m m' as k)
    (has : as = [.newValue .integer]) : m = .seeking false := by
  have hattach (p : Option JsonType) : attachTo p ≠ [.newValue .integer] := by
    cases p <;> exact nofun
  cases hmove with
  | integer => rfl
  | add n bytes k hk =>
    cases bytes with
    | nil => cases has
    | cons b bytes =>
      rw [List.mapIdx_cons] at has
      cases has
  | count a type htop htype ha => rcases ha with rfl | ⟨d, rfl⟩ <;> cases has
  | word type actions k hk h => rfl
  | closeArray comma htop => exact absurd has (hattach _)
  | closeObject htop => exact absurd has (hattach _)
  | endNumber type actions htop htype h =>
    rcases h with rfl | rfl
    · exact absurd has (hattach _)
    · cases has
  | _ => first | rfl | cases has

/-- An integer is new at its first byte only. -/
theorem atNumber_of_integer {v : View} {c' : Control} (hcalm : c.Calm)
    (h : step true v c = .go c' [.newValue .integer]) : c.AtNumber := by
  obtain ⟨-, k, -, hmove⟩ := step_move hcalm h
  have hseeking := seeking_of_integer hmove rfl
  have hword {word : Bytes} {type : JsonType} {actions : List Action} {c : Control}
      (htype : type ≠ .integer) (h : wordStep v c word type actions = .go c' [.newValue .integer]) :
      False := by
    unfold wordStep at h
    split_ifs at h
    · cases h
    · split at h
      · cases h
      · obtain ⟨-, has⟩ := next_nil h
        exact htype (by injection (List.cons.inj has).1 with h; exact h.symm)
  rcases flags_of_mode c with ⟨-, hm⟩ | ⟨-, -, hm⟩ | ⟨⟨hstring, hdone⟩, ⟨hseek, hm⟩ | ⟨-, hm⟩⟩
  · cases hseeking.symm.trans hm
  · cases hseeking.symm.trans hm
  · have hcomma : c.needComma = false := by
      rw [hseeking] at hm
      injection hm with hm
      exact hm.symm
    rw [step_seek hstring hdone hseek, seekStep] at h
    split_ifs at h with hblank hbracket hcomma' hb hcolon
    · unfold Control.blank at h
      split at h <;> cases h
    · split at h
      · cases h
      · obtain ⟨-, has⟩ := next_nil h
        cases hp : v.parent <;> rw [hp] at has <;> cases has
      · cases h
    iterate 4 cases h
    · refine ⟨⟨hstring, hdone, hseek⟩, ⟨hcomma, Bool.eq_false_iff.mpr hcolon⟩, ?_⟩
      unfold valueStep at h
      split_ifs at h with h1 h2 h3 h4 h5 h6 hb
      · cases h
      · cases h
      · cases h
      · exact (hword (by decide) h).elim
      · exact (hword (by decide) h).elim
      · exact (hword (by decide) h).elim
      · exact hb
      · cases h
  · cases hseeking.symm.trans hm

/-- Behind a number that is skipped. -/
theorem next_skipped {p : Option JsonType} {v : View} {c' : Control} (x : Num) (actions : List Action)
    (h : c.next ⟨none, p⟩ [] = .go c' (attachTo p)) (hv : v.parent = p) :
    (c.withNum x).next v actions = .go (c'.withNum x) (actions ++ attachTo p) := by
  subst hv
  unfold Control.next at h ⊢
  cases hp : v.parent with
  | none =>
    simp only [hp] at h
    cases h
    rw [attachTo, List.append_nil]
    rfl
  | some type =>
    simp only [hp] at h
    cases h
    rfl

/-- Actions of which none reads a number. -/
theorem written_eq {as : List Action} (h : ∀ a ∈ as, a.numeric = false) : written as = as :=
  List.filter_eq_self.mpr fun a ha ↦ by rw [h a ha]; rfl

/-- What a complete value adds is written in both passes. -/
theorem attachTo_written (p : Option JsonType) : ∀ a ∈ attachTo p, a.numeric = false := by
  intro a ha
  cases p with
  | none => cases ha
  | some type =>
    rw [List.mem_singleton.mp ha]
    rfl

/-- Elsewhere than in a number, the second pass writes what the first one does. -/
theorem written_move {v : View} {m m' : Mode} {as : List Action} {k : Nat} (hmove : Move v m m' as k)
    (hv : m = .inside → v.top = some .object) : written as = as := by
  have hobject {type : JsonType} (h : v.top = some type) (ht : type.IsNumber) : m ≠ .inside := fun hm ↦ by
    obtain rfl : type = .object := Option.some.inj (h.symm.trans (hv hm))
    rcases ht with h | h <;> cases h
  cases hmove with
  | count a type htop htype ha => exact absurd rfl (hobject htop htype)
  | endNumber type actions htop htype h => exact absurd rfl (hobject htop htype)
  | add n bytes k hk =>
    refine written_eq fun a ha ↦ ?_
    obtain ⟨i, hi, rfl⟩ := List.mem_mapIdx.mp ha
    rfl
  | word type actions k hk h =>
    refine written_eq fun a ha ↦ ?_
    rcases List.mem_append.mp ha with ha | ha
    · rcases h with ⟨-, rfl⟩ | ⟨-, rfl⟩
      · rcases List.mem_pair.mp ha with rfl | rfl <;> rfl
      · rw [List.mem_singleton.mp ha]
        rfl
    · exact attachTo_written _ a ha
  | endString n htop =>
    refine written_eq fun a ha ↦ ?_
    rcases List.mem_cons.mp ha with rfl | ha
    · rfl
    · exact attachTo_written _ a ha
  | closeArray comma htop => exact written_eq (attachTo_written _)
  | closeObject htop => exact written_eq (attachTo_written _)
  | _ => rfl

/-- The second pass where the first one succeeds. -/
theorem second_run (hF : Fits F) (hcalm : c.Calm) (hinv : Inv c.mode g) (hopens : Opens c.mode g)
    (h : loop growing true fuel c g = .parsed F) (x : Num) {fuel' : Nat} (hfuel : fuel ≤ fuel') :
    loop secondPass false fuel' (c.withNum x) (build F g) = .parsed (build F F) := by
  induction fuel using Nat.strong_induction_on generalizing c g x fuel' with
  | _ fuel ih =>
    have hle := (run_grows hcalm hinv h).2.1
    cases fuel with
    | zero => cases h
    | succ fuel =>
      obtain ⟨fuel', rfl⟩ := Nat.exists_eq_add_of_le' hfuel
      rw [← Nat.add_assoc, loop]
      rcases loop_parsed h with ⟨hfin, rfl⟩ | ⟨c', as, g', hgo, hacts, hrest⟩
      · have hc : ¬ c.AtNumber := fun hc ↦ by
          rw [step_atNumber hc] at hfin
          obtain ⟨num, j, hstart, -⟩ := numberStart_first (c := { c with seekValue := false }) rfl
          cases hstart.symm.trans hfin
        rw [step_second hinv hopens hle hc, hfin]
        rfl
      · obtain ⟨hcalm', k, -, hmove⟩ := step_move hcalm hgo
        obtain ⟨hinv', hgrows, hopens'⟩ := move_grows hmove rfl hinv hacts
        have hle' := (run_grows hcalm' hinv' hrest).2.1
        by_cases hc : c.AtNumber
        · -- the first pass reads the number, the second one skips it
          have hview := view_build hinv hopens (by
            rcases flags_of_mode c with ⟨-, hm⟩ | ⟨-, h, -⟩ | ⟨-, ⟨-, hm⟩ | ⟨-, hm⟩⟩
            · rw [hm]; rintro ⟨⟩
            · cases hc.1.2.1.symm.trans h
            · rw [hm]; rintro ⟨⟩
            · rw [hm]; rintro ⟨⟩) hle
          obtain ⟨num, j, hstart, hlength⟩ := numberStart_first (c := { c with seekValue := false })
            (v := growing.view g) rfl
          rw [step_atNumber hc, hstart] at hgo
          cases hgo
          have hflags : c.string = false ∧ c.done = false ∧ false = false := ⟨hc.1.1, hc.1.2.1, rfl⟩
          have hparent : (growing.view g').parent = (growing.view g).top := by
            cases hacts
            exact parent_push hinv.sound _
          have hnumber : Sound (fun n ↦ n.Holds none 0 ∧ n.type.IsNumber) g' ∧ g'.path ≠ [] := by
            have hmode : ({ c with seekValue := false, num }.skip j).mode = .inside := by
              simp only [Control.mode, Control.skip, hc.1.1, hc.1.2.1, Bool.false_eq_true, if_false]
            rw [hmode] at hinv'
            cases hacts
            exact ⟨(hinv'.sound.typed (top_push g _)).mono fun n hn ↦ ⟨hn.1.1, .inl hn.2⟩,
              List.cons_ne_nil _ _⟩
          obtain ⟨fuel'', y, mid, g2, c2, hlt, ⟨hmid, hmne, hmp, hlemid⟩, hbuild, hnext, hattach, hloop⟩ :=
            number_run hparent hflags hnumber.1 hnumber.2 hrest
          obtain ⟨hinv2, hgrows2, hopens2⟩ := attachTo_grows hmid hmne hmp hattach
          obtain ⟨hcalm2, hmode2, -⟩ := next_move (v := ⟨none, (growing.view g).top⟩) hflags hnext
          have hle2 := (run_grows hcalm2 (hmode2.symm ▸ hinv2) hloop).2.1
          have hskip : step false (secondPass.view (build F g)) (c.withNum x) =
              .go (c2.withNum x) ([.newValue .integer] ++ attachTo (growing.view g).top) := by
            rw [step_atNumber (c := c.withNum x) hc, numberStart, if_neg Bool.false_ne_true, hview]
            rw [skip_skip] at hnext
            have hrest' : j + (({ c with seekValue := false, num }.skip j).rest.takeWhile
                isNumberByte).length = (c.rest.takeWhile isNumberByte).length := hlength.symm
            rw [hrest'] at hnext
            exact next_skipped x [.newValue .integer] hnext rfl
          have hactions : secondPass.acts ([.newValue .integer] ++ attachTo (growing.view g).top)
              (build F g) = .ok (build F g2) := by
            refine acts_append_ok (hgrows.sync F hF hle') ?_
            rw [hbuild F hF (hgrows2.le.trans hle2)]
            have hsync := hgrows2.sync F hF hle2
            rwa [written_eq (attachTo_written _)] at hsync
          rw [hskip]
          dsimp only
          rw [hactions]
          exact ih fuel'' (Nat.lt_succ_of_lt hlt) hcalm2 (hmode2.symm ▸ hinv2) (hmode2.symm ▸ hopens2) hloop x
            ((Nat.le_of_lt hlt).trans (Nat.le_add_left ..))
        · rw [step_second hinv hopens hle hc, hgo]
          have hsync := hgrows.sync F hF hle'
          rw [written_move hmove hopens] at hsync
          simp only [Step.withNum, hsync]
          have hopens'' : Opens c'.mode g' := by
            rcases hopens' with h | ⟨h, -⟩ | rfl
            · exact h
            · exact absurd hopens h
            · exact absurd (atNumber_of_integer hcalm hgo) hc
          exact ih fuel (Nat.lt_succ_self fuel) hcalm' hinv' hopens'' hrest x (Nat.le_add_left ..)

end Both

/-! ## The result -/

/-- A value in blocks of exactly its size. -/
def Node.stored (n : Node) : Value :=
  match n.type with
  | .array => ⟨.array, n.length, n.integer, n.boolean, [], n.items.map some, [], [], 0⟩
  | .object =>
    ⟨.object, n.length, n.integer, n.boolean, [], [], (layout 0 n.members).map some,
      (nameBytes n.members).map some, (nameBytes n.members).length⟩
  | .string => ⟨.string, n.length, n.integer, n.boolean, (n.bytes ++ [0]).map some, [], [], [], 0⟩
  | type => ⟨type, n.length, n.integer, n.boolean, [], [], [], [], 0⟩

/-- The second pass behind the last byte: no value is left, and no block has a cell that is not written. -/
def Grown.stored (g : Grown) : SecondPass := ⟨[], g.nodes.map Node.stored, g.path, none⟩

/-- A complete value in its own blocks. -/
theorem place_self {n : Node} (h : n.Holds none 0) : place n n = n.stored := by
  have hfilled {α : Type} {l : List α} {k : Nat} (hk : l.length = k) : Block.filled l k = l.map some := by
    rw [Block.filled, hk, Nat.sub_self]
    exact List.append_nil _
  cases hn : n.type with
  | array => simp only [place, Node.stored, hn, hfilled (h.items hn)]
  | object =>
    have hmembers : (layout 0 n.members).length = n.length := (length_layout ..).trans (h.members hn)
    simp only [place, Node.stored, hn, h.text, Option.getD_none, List.append_nil,
      hfilled (h.names hn).symm, hfilled hmembers]
  | string =>
    have hcells : n.cells.length = n.length + 1 := by
      rw [Node.cells, h.text, Option.getD_none, List.length_append, h.bytes hn rfl, List.length_singleton]
    rw [place_string hn, hfilled hcells]
    simp only [Node.cells, Node.stored, hn, h.text, Option.getD_none]
  | integer | double | boolean | null => simp only [place, Node.stored, hn]

/-- Behind the last byte of the second pass. -/
theorem build_self {F : Grown} (hinv : Inv .done F) (hF : Fits F) : build F F = F.stored := by
  have hvalues : List.zipWith place F.nodes F.nodes = F.nodes.map Node.stored := by
    rw [List.zipWith_self]
    exact List.map_congr_left fun n hn ↦ place_self (hF.holds n hn)
  have hpointer : F.pointer = none := by
    unfold Grown.pointer
    split
    · rfl
    · next k path hpath =>
      obtain ⟨n, hn, htop⟩ := hinv.sound.node hpath
      rw [hn, Option.bind_some, Node.pointer, htop.text, Option.map_none]
  rw [build, hvalues, hpointer, List.drop_length]
  rfl

end OpenWrtCompile.Server.JsonParser
