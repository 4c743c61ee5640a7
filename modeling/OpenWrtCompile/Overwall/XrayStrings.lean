import OpenWrtCompile.Overwall.XrayEdits

/-!
# The strings in the configuration of Xray

The printed text is read line by line. A string that has kept its shortest form is read as itself; a
shorter text cannot be read as the string, and a text that goes over the end of its line is no string.
-/

namespace OpenWrtCompile.Overwall.Xray
open OpenWrtCompile.Base

/-! ## The tokens of a line -/

/-- The tokens of a key. -/
def keyTokens : Option Key → List JsonToken
  | none => []
  | some k => [.str k.renamed, .colon]

/-- The tokens of a body. -/
def LineBody.tokens : LineBody → List JsonToken
  | .openArr => [.openArr]
  | .closeArr => [.closeArr]
  | .openObj => [.openObj]
  | .closeObj => [.closeObj]
  | .empty => [.openArr, .closeArr]
  | .bool b => [.bool b]
  | .num x => [.num x]
  | .str s => [.str s]

/-- The tokens of a line. -/
def JsonLine.tokens : JsonLine → List JsonToken
  | .hole _ => []
  | .line _ key body comma => keyTokens key ++ (body.tokens ++ commaUnless (!comma))

/-- The string on a line. -/
def JsonLine.strings : JsonLine → List Bytes
  | .line _ _ (.str s) _ => [s]
  | _ => []

/-- What follows a line. -/
def EndsLine (l : Bytes) : Prop := l = [] ∨ ∃ l', l = 0x0A :: l'

/-- A comma at the end of a line. -/
theorem lexJson_commaText (comma : Bool) (l : Bytes) :
    lexJson (commaText comma ++ l) = (lexJson l).map (commaUnless (!comma) ++ ·) := by
  cases comma with
  | true => exact lexJson_comma l
  | false =>
    show lexJson l = _
    cases lexJson l <;> rfl

/-- A key. -/
theorem lexJson_keyText (key : Option Key) (l : Bytes) :
    lexJson (keyText Key.renamed key ++ l) = (lexJson l).map (keyTokens key ++ ·) := by
  cases key with
  | none =>
    show lexJson l = _
    cases lexJson l <;> rfl
  | some k =>
    have hplain : escapeString k.renamed = k.renamed := by
      by_cases hk : k = .UA
      · subst hk
        decide
      · have hname : k.renamed = k.name := if_neg hk
        rw [hname]
        refine escapeString_eq_self fun c hc ↦ ?_
        have hc' := isAlnum_iff.mp (k.name_alnum c hc)
        refine ⟨ne_of_isAlnum (k.name_alnum c hc) (by decide),
          ne_of_isAlnum (k.name_alnum c hc) (by decide), fun hlt ↦ ?_⟩
        have hlt' : c.toNat < 32 := hlt
        omega
    have hform : keyText Key.renamed (some k) ++ l =
        0x22 :: (escapeString k.renamed ++ 0x22 :: 0x3A :: 0x20 :: l) := by
      rw [hplain]
      simp [keyText, ascii]
    rw [hform, lexJson_escapeString, lexJson_colon, lexJson_blank rfl]
    cases lexJson l <;> rfl

/-- A body that is no string. -/
theorem lexJson_body {body : LineBody} (h : ∀ s, body ≠ .str s) (comma : Bool) {l : Bytes}
    (hl : EndsLine l) :
    lexJson (body.text edited ++ (commaText comma ++ l)) =
      (lexJson (commaText comma ++ l)).map (body.tokens ++ ·) := by
  cases body with
  | str s => exact absurd rfl (h s)
  | openArr => exact lexJson_openArr _
  | closeArr => exact lexJson_closeArr _
  | openObj => exact lexJson_openObj _
  | closeObj => exact lexJson_closeObj _
  | empty =>
    have hform : LineBody.empty.text edited ++ (commaText comma ++ l) =
        0x5B :: 0x5D :: (commaText comma ++ l) := rfl
    rw [hform, lexJson_openArr, lexJson_closeArr]
    cases lexJson (commaText comma ++ l) <;> rfl
  | bool b => exact lexJson_bool b _
  | num x =>
    refine lexJson_num x fun c hc ↦ ?_
    cases comma with
    | true =>
      obtain rfl := Option.some.inj hc
      rfl
    | false =>
      obtain rfl | ⟨l', rfl⟩ := hl
      · cases hc
      · obtain rfl := Option.some.inj hc
        rfl

/-- What can be read behind a text that is not longer than its shortest form: nothing that goes over the
end of the line. -/
theorem body_eq_edited {s body rest l : Bytes} (comma : Bool) (hl : EndsLine l)
    (heq : edited s ++ 0x22 :: (commaText comma ++ l) = body ++ 0x22 :: rest)
    (hlen : (edited s).length ≤ body.length) (hno : ∀ c ∈ body, ¬ c < 0x20) :
    body = edited s ∧ rest = commaText comma ++ l := by
  obtain ⟨z, hz, hrest⟩ | ⟨z, hz, hrest⟩ := List.append_eq_append_iff.mp heq
  · cases z with
    | nil =>
      rw [List.append_nil] at hz
      exact ⟨hz, (List.cons.inj hrest).2.symm⟩
    | cons c z =>
      obtain ⟨rfl, hz'⟩ := List.cons.inj hrest
      -- the body goes on over the quotation mark, and reaches the end of the line
      have hbad : (0x0A : UInt8) ∈ z := by
        cases comma with
        | false =>
          obtain rfl | ⟨l', rfl⟩ := hl
          · cases z <;> cases hz'
          · cases z with
            | nil => exact absurd (List.cons.inj hz').1 (by decide)
            | cons d z =>
              obtain ⟨rfl, -⟩ := List.cons.inj hz'
              exact List.mem_cons_self
        | true =>
          cases z with
          | nil => exact absurd (List.cons.inj hz').1 (by decide)
          | cons d z =>
            obtain ⟨rfl, hz''⟩ := List.cons.inj hz'
            obtain rfl | ⟨l', rfl⟩ := hl
            · cases z <;> cases hz''
            · cases z with
              | nil => exact absurd (List.cons.inj hz'').1 (by decide)
              | cons d z =>
                obtain ⟨rfl, -⟩ := List.cons.inj hz''
                exact List.mem_cons_of_mem _ List.mem_cons_self
      refine absurd (by decide) (hno 0x0A ?_)
      rw [hz]
      exact List.mem_append_right _ (List.mem_cons_of_mem _ hbad)
  · have hnil : z = [] := by
      rw [hz, List.length_append] at hlen
      exact List.length_eq_zero_iff.mp (by omega)
    subst hnil
    rw [List.append_nil] at hz
    exact ⟨hz.symm, (List.cons.inj hrest).2⟩

/-- A line with a string is read as it should be exactly if the string is clean. -/
theorem lexJson_string {s l : Bytes} (comma : Bool) (hl : EndsLine l) (ts : List JsonToken) :
    lexJson ((LineBody.str s).text edited ++ (commaText comma ++ l)) = some (.str s :: ts) ↔
      Clean s ∧ lexJson (commaText comma ++ l) = some ts := by
  have hform : (LineBody.str s).text edited ++ (commaText comma ++ l) =
      0x22 :: (edited s ++ 0x22 :: (commaText comma ++ l)) := by simp [LineBody.text]
  rw [hform]
  constructor
  · intro h
    obtain ⟨body, rest, s', ts', heq, hread, hrest, hts⟩ := lexJson_quote_eq_some h
    obtain ⟨hstr, rfl⟩ := List.cons.inj hts
    obtain rfl := JsonToken.str.inj hstr
    obtain ⟨hlen, hno⟩ := length_unescape (fun _ h ↦ by cases h) hread
    have hwait : waiting none = 0 := rfl
    rw [hwait, Nat.add_zero] at hlen
    by_cases hclean : Clean s
    · have hle : (edited s).length ≤ body.length := by
        rw [edited_of_clean hclean]
        exact hlen
      obtain ⟨-, rfl⟩ := body_eq_edited comma hl heq hle hno
      exact ⟨hclean, hrest⟩
    · have hlt := length_edited_lt hclean
      obtain ⟨rfl, -⟩ := body_eq_edited comma hl heq (by omega) hno
      omega
  · rintro ⟨hclean, h⟩
    rw [edited_of_clean hclean, lexJson_escapeString, h]
    rfl

/-- A line is read as it should be exactly if its string is clean. -/
theorem lexJson_line (indent : Nat → Nat) {k : JsonLine} (hk : k.isHole = false) {l : Bytes}
    (hl : EndsLine l) (ts : List JsonToken) :
    lexJson ((0x0A :: k.text indent Key.renamed edited) ++ l) = some (k.tokens ++ ts) ↔
      (∀ s ∈ k.strings, Clean s) ∧ lexJson l = some ts := by
  have hinj : ∀ (a ts : List JsonToken) (o : Option (List JsonToken)),
      o.map (a ++ ·) = some (a ++ ts) ↔ o = some ts := by
    intro a ts o
    cases o <;> simp
  cases k with
  | hole n => cases hk
  | line n key body comma =>
    have hblank : (0x0A :: List.replicate (indent n) 0x20 : Bytes).all isJsonBlank = true := by
      simp [isJsonBlank]
    rw [JsonLine.text_line, List.append_assoc, lexJson_blanks hblank, List.append_assoc,
      List.append_assoc, lexJson_keyText]
    have htokens : (JsonLine.line n key body comma).tokens ++ ts =
        keyTokens key ++ (body.tokens ++ (commaUnless (!comma) ++ ts)) := by simp [JsonLine.tokens]
    rw [htokens, hinj]
    by_cases hstr : ∃ s, body = .str s
    · obtain ⟨s, rfl⟩ := hstr
      have hclean : (∀ t ∈ (JsonLine.line n key (.str s) comma).strings, Clean t) ↔ Clean s :=
        List.forall_mem_singleton
      have hone : (LineBody.str s).tokens ++ (commaUnless (!comma) ++ ts) =
          .str s :: (commaUnless (!comma) ++ ts) := rfl
      rw [hone, lexJson_string comma hl, hclean, lexJson_commaText, hinj]
    · have hno : ∀ s, body ≠ .str s := fun s hs ↦ hstr ⟨s, hs⟩
      have hnil : (JsonLine.line n key body comma).strings = [] := by
        cases body with
        | str s => exact absurd rfl (hno s)
        | _ => rfl
      rw [lexJson_body hno comma hl, hinj, lexJson_commaText, hinj, hnil]
      simp

/-- All lines are read as they should be exactly if their strings are clean. -/
theorem lexJson_lines (indent : Nat → Nat) {ls : List JsonLine} (hls : ∀ k ∈ ls, k.isHole = false) :
    lexJson (linesText (JsonLine.text indent Key.renamed edited) ls ++ [0x0A]) =
        some (ls.flatMap JsonLine.tokens) ↔
      ∀ s ∈ ls.flatMap JsonLine.strings, Clean s := by
  induction ls with
  | nil => exact iff_of_true rfl fun s hs ↦ absurd hs List.not_mem_nil
  | cons k ls ih =>
    have hends : EndsLine (linesText (JsonLine.text indent Key.renamed edited) ls ++ [0x0A]) := by
      cases ls with
      | nil => exact Or.inr ⟨[], rfl⟩
      | cons k' ls => exact Or.inr ⟨_, rfl⟩
    have hcons : linesText (JsonLine.text indent Key.renamed edited) (k :: ls) =
        (0x0A :: k.text indent Key.renamed edited) ++
          linesText (JsonLine.text indent Key.renamed edited) ls := List.flatMap_cons
    rw [hcons, List.append_assoc, List.flatMap_cons,
      lexJson_line indent (hls k List.mem_cons_self) hends,
      ih fun k' hk' ↦ hls k' (List.mem_cons_of_mem _ hk'), List.flatMap_cons,
      List.forall_mem_append]

/-! ## The lines of a value -/

mutual

/-- The strings of a value. -/
def Value.strings : Value → List Bytes
  | .bool _ => []
  | .num _ => []
  | .str s => [s]
  | .list items => itemStrings items
  | .table members => memberStrings members

/-- The strings of items. -/
def itemStrings : List (Nat × Value) → List Bytes
  | [] => []
  | (_, v) :: items => v.strings ++ itemStrings items

/-- The strings of members. -/
def memberStrings : List (Key × Value) → List Bytes
  | [] => []
  | (_, v) :: members => v.strings ++ memberStrings members

end

/-- Holes have no tokens and no strings. -/
theorem flatMap_holes (h n : Nat) :
    (List.replicate h (JsonLine.hole n)).flatMap JsonLine.tokens = [] ∧
      (List.replicate h (JsonLine.hole n)).flatMap JsonLine.strings = [] := by
  induction h with
  | zero => exact ⟨rfl, rfl⟩
  | succ h ih => exact ih

/-- The items of a list as JSON. -/
theorem isEmpty_jsonItems (items : List (Nat × Value)) :
    (jsonItems items).isEmpty = items.isEmpty := by
  cases items <;> rfl

/-- The members of a table as JSON. -/
theorem isEmpty_jsonMembers (members : List (Key × Value)) :
    (jsonMembers members).isEmpty = members.isEmpty := by
  cases members <;> rfl

mutual

/-- The lines of a value have the tokens of its JSON value, and its strings. -/
theorem flatMap_lines : ∀ (v : Value) (n : Nat) (key : Option Key) (comma : Bool),
    (v.lines n key comma).flatMap JsonLine.tokens =
        keyTokens key ++ (v.json.tokens ++ commaUnless (!comma)) ∧
      (v.lines n key comma).flatMap JsonLine.strings = v.strings
  | .bool b, n, key, comma => by
    simp [Value.lines, JsonLine.tokens, LineBody.tokens, Value.json, Json.tokens, JsonLine.strings,
      Value.strings]
  | .num x, n, key, comma => by
    simp [Value.lines, JsonLine.tokens, LineBody.tokens, Value.json, Json.tokens, JsonLine.strings,
      Value.strings]
  | .str s, n, key, comma => by
    simp [Value.lines, JsonLine.tokens, LineBody.tokens, Value.json, Json.tokens, JsonLine.strings,
      Value.strings]
  | .list items, n, key, comma => by
    obtain ⟨htokens, hstrings⟩ := flatMap_itemLines items (n + 1)
    rw [Value.lines]
    split_ifs with hempty
    · obtain rfl := List.isEmpty_iff.mp hempty
      simp [JsonLine.tokens, LineBody.tokens, Value.json, jsonItems, Json.tokens, itemTokens,
        JsonLine.strings, Value.strings, itemStrings]
    · simp [JsonLine.tokens, LineBody.tokens, Value.json, Json.tokens, JsonLine.strings,
        Value.strings, keyTokens, commaUnless, htokens, hstrings]
  | .table members, n, key, comma => by
    obtain ⟨htokens, hstrings⟩ := flatMap_memberLines members (n + 1)
    rw [Value.lines, Value.json]
    split_ifs with hempty
    · obtain rfl := List.isEmpty_iff.mp hempty
      simp [JsonLine.tokens, LineBody.tokens, Json.tokens, itemTokens, JsonLine.strings,
        Value.strings, memberStrings]
    · simp [JsonLine.tokens, LineBody.tokens, Json.tokens, JsonLine.strings,
        Value.strings, keyTokens, commaUnless, htokens, hstrings]

/-- The lines of items. -/
theorem flatMap_itemLines : ∀ (items : List (Nat × Value)) (n : Nat),
    (itemLines n items).flatMap JsonLine.tokens = itemTokens (jsonItems items) ∧
      (itemLines n items).flatMap JsonLine.strings = itemStrings items
  | [], n => ⟨rfl, rfl⟩
  | (h, v) :: items, n => by
    obtain ⟨htokens, hstrings⟩ := flatMap_lines v n none (!items.isEmpty)
    obtain ⟨ihtokens, ihstrings⟩ := flatMap_itemLines items n
    obtain ⟨hholes, hholes'⟩ := flatMap_holes h n
    constructor
    · rw [itemLines, List.flatMap_append, List.flatMap_append, htokens, ihtokens, hholes, jsonItems,
        itemTokens, isEmpty_jsonItems, Bool.not_not]
      simp [keyTokens]
    · rw [itemLines, List.flatMap_append, List.flatMap_append, hstrings, ihstrings, hholes',
        itemStrings, List.nil_append]

/-- The lines of members. -/
theorem flatMap_memberLines : ∀ (members : List (Key × Value)) (n : Nat),
    (memberLines n members).flatMap JsonLine.tokens = memberTokens (jsonMembers members) ∧
      (memberLines n members).flatMap JsonLine.strings = memberStrings members
  | [], n => ⟨rfl, rfl⟩
  | (k, v) :: members, n => by
    obtain ⟨htokens, hstrings⟩ := flatMap_lines v n (some k) (!members.isEmpty)
    obtain ⟨ihtokens, ihstrings⟩ := flatMap_memberLines members n
    constructor
    · rw [memberLines, List.flatMap_append, htokens, ihtokens, jsonMembers, memberTokens,
        isEmpty_jsonMembers, Bool.not_not]
      simp [keyTokens]
    · rw [memberLines, List.flatMap_append, hstrings, ihstrings, memberStrings]

end

/-- Holes do not count. -/
theorem flatMap_filter (ls : List JsonLine) :
    (ls.filter fun l ↦ !l.isHole).flatMap JsonLine.tokens = ls.flatMap JsonLine.tokens ∧
      (ls.filter fun l ↦ !l.isHole).flatMap JsonLine.strings = ls.flatMap JsonLine.strings := by
  induction ls with
  | nil => exact ⟨rfl, rfl⟩
  | cons l ls ih =>
    cases l with
    | hole n => exact ih
    | line n key body comma =>
      have hfilter : (JsonLine.line n key body comma :: ls).filter (fun l ↦ !l.isHole) =
          .line n key body comma :: ls.filter fun l ↦ !l.isHole := rfl
      rw [hfilter, List.flatMap_cons, List.flatMap_cons, List.flatMap_cons, List.flatMap_cons, ih.1,
        ih.2]
      exact ⟨rfl, rfl⟩

/-- The text of a value, edited, denotes the value exactly if its strings are clean. -/
theorem denotes_edit_iff (indent : Nat → Nat) (v : Value) :
    Denotes (edit (pretty indent v) ++ [0x0A]) v.json ↔ ∀ s ∈ v.strings, Clean s := by
  have hno : ∀ k ∈ (v.lines 0 none false).filter (fun l ↦ !l.isHole), k.isHole = false := by
    intro k hk
    simpa using (List.mem_filter.mp hk).2
  have hlines := lexJson_lines indent hno
  obtain ⟨htokens, hstrings⟩ := flatMap_filter (v.lines 0 none false)
  obtain ⟨hv, hv'⟩ := flatMap_lines v 0 none false
  have hjson : keyTokens none ++ (v.json.tokens ++ commaUnless (!false)) = v.json.tokens :=
    List.append_nil _
  rw [htokens, hstrings, hv, hv', hjson] at hlines
  rw [← hlines, Denotes, edit_pretty]
  have hprinted : printed indent v = 0x0A :: (printed indent v).drop 1 := by
    obtain ⟨l, ls, hl, hhole⟩ := exists_lines v
    unfold printed
    rw [hl, List.filter_cons, hhole]
    rfl
  have hblank : lexJson (printed indent v ++ [0x0A]) =
      lexJson ((printed indent v).drop 1 ++ [0x0A]) := by
    conv_lhs => rw [hprinted]
    exact lexJson_blank rfl _
  rw [← hblank]
  rfl

/-! ## The strings of the table -/

instance (s : Bytes) : Decidable (Clean s) := inferInstanceAs (Decidable (_ ∧ _))

/-- The strings of a value, if there is one, are clean. -/
def AllClean (o : Option Value) : Prop := ∀ v, o = some v → ∀ s ∈ v.strings, Clean s

/-- No value. -/
@[simp] theorem allClean_none : AllClean none := fun _ h ↦ by cases h

/-- A truth value. -/
@[simp] theorem allClean_bool (b : Bool) : AllClean (some (.bool b)) := by
  rintro v ⟨⟩ s hs
  cases hs

/-- A number. -/
@[simp] theorem allClean_num (x : JsonNumber) : AllClean (some (.num x)) := by
  rintro v ⟨⟩ s hs
  cases hs

/-- A string. -/
@[simp] theorem allClean_str (s : Bytes) : AllClean (some (.str s)) ↔ Clean s := by
  constructor
  · intro h
    exact h _ rfl s (List.mem_singleton.mpr rfl)
  · rintro h v ⟨⟩ t ht
    obtain rfl := List.mem_singleton.mp ht
    exact h

/-- An option that is copied. -/
@[simp] theorem allClean_copy (o : Option Bytes) :
    AllClean (copy o) ↔ ∀ s ∈ o.toList, Clean s := by
  cases o with
  | none => simp [copy]
  | some s => simp [copy]

/-- A number that is copied. -/
@[simp] theorem allClean_number (env : LuaEnv) (o : Option Bytes) :
    AllClean (Inputs.number env o) := by
  unfold Inputs.number
  cases o.bind env.tonumber <;> simp

/-- A choice. -/
theorem allClean_ite {c : Prop} [Decidable c] {a b : Option Value} :
    AllClean (if c then a else b) ↔ (c → AllClean a) ∧ (¬ c → AllClean b) := by
  split_ifs with hc <;> simp [hc]

/-- The strings of the items of a list. -/
theorem forall_itemStrings {items : List (Nat × Value)} {P : Bytes → Prop} :
    (∀ s ∈ itemStrings items, P s) ↔ ∀ i ∈ items, ∀ s ∈ i.2.strings, P s := by
  induction items with
  | nil => simp [itemStrings]
  | cons i items ih => rw [itemStrings, List.forall_mem_append, ih, List.forall_mem_cons]

/-- The strings of the members of a table. -/
theorem forall_memberStrings {members : List (Key × Value)} {P : Bytes → Prop} :
    (∀ s ∈ memberStrings members, P s) ↔ ∀ m ∈ members, ∀ s ∈ m.2.strings, P s := by
  induction members with
  | nil => simp [memberStrings]
  | cons m members ih => rw [memberStrings, List.forall_mem_append, ih, List.forall_mem_cons]

/-- The value of a table constructor. -/
theorem forall_tableOf (env : LuaEnv) (members : List (Key × Option Value)) :
    (∀ s ∈ (Inputs.tableOf env members).strings, Clean s) ↔ ∀ m ∈ members, AllClean m.2 := by
  unfold Inputs.tableOf
  rw [Value.strings, forall_memberStrings]
  constructor
  · intro h m hm v hv
    refine h (m.1, v) ((env.order_perm _).mem_iff.mpr ?_)
    exact List.mem_filterMap.mpr ⟨m, hm, by rw [hv]; rfl⟩
  · intro h m hm
    obtain ⟨m', hm', heq⟩ := List.mem_filterMap.mp ((env.order_perm _).mem_iff.mp hm)
    rw [Option.map_eq_some_iff] at heq
    obtain ⟨v, hv, rfl⟩ := heq
    exact h m' hm' v hv

/-- A table. -/
@[simp] theorem allClean_table (env : LuaEnv) (members : List (Key × Option Value)) :
    AllClean (Inputs.table env members) ↔ ∀ m ∈ members, AllClean m.2 := by
  rw [← forall_tableOf env]
  constructor
  · intro h
    exact h _ rfl
  · rintro h v hv
    obtain rfl := Option.some.inj hv
    exact h

/-- The items behind holes. -/
theorem forall_holes (items : List (Option Value)) (n : Nat) :
    (∀ i ∈ holes n items, ∀ s ∈ i.2.strings, Clean s) ↔ ∀ o ∈ items, AllClean o := by
  induction items generalizing n with
  | nil => simp [holes]
  | cons o items ih =>
    cases o with
    | none => rw [holes, ih, List.forall_mem_cons, eq_true allClean_none, true_and]
    | some v =>
      rw [holes, List.forall_mem_cons, ih, List.forall_mem_cons]
      refine and_congr_left fun _ ↦ ⟨fun h w hw ↦ ?_, fun h ↦ h v rfl⟩
      obtain rfl := Option.some.inj hw
      exact h

/-- A list. -/
@[simp] theorem allClean_list (items : List (Option Value)) :
    AllClean (list items) ↔ ∀ o ∈ items, AllClean o := by
  rw [← forall_holes items 0, ← forall_itemStrings]
  constructor
  · intro h
    exact h _ rfl
  · rintro h v hv
    obtain rfl := Option.some.inj hv
    exact h

/-- A list of strings. -/
@[simp] theorem allClean_strings (l : List Bytes) : AllClean (strings l) ↔ ∀ s ∈ l, Clean s := by
  simp [strings]

/-- A fixed string. -/
@[simp] theorem allClean_fixed (s : String) : AllClean (fixed s) ↔ Clean (ascii s) :=
  allClean_str _

/-- The strings that are copied under a condition. -/
theorem forall_ite {c : Prop} [Decidable c] {l : List Bytes} {P : Bytes → Prop} :
    (∀ s ∈ if c then l else [], P s) ↔ (c → ∀ s ∈ l, P s) := by
  split_ifs with hc <;> simp [hc]

namespace Inputs

variable (env : LuaEnv) (c : Inputs)

/-- An option, or a fixed string. -/
theorem clean_getD (o : Option Bytes) {d : Bytes} (hd : Clean d) :
    Clean (o.getD d) ↔ ∀ s ∈ o.toList, Clean s := by
  cases o <;> simp [hd]

/-- The entries of a list. -/
theorem allClean_bind_strings (o : Option (List Bytes)) :
    AllClean (o.bind strings) ↔ ∀ s ∈ o.getD [], Clean s := by
  cases o <;> simp

/-- The strings of the part on sniffing. -/
theorem allClean_sniffing :
    AllClean (c.sniffing env) ↔ ∀ s ∈ c.get_domain_excluded.getD [], Clean s := by
  have hhttp : Clean (ascii "http") := by decide
  have htls : Clean (ascii "tls") := by decide
  unfold sniffing
  simp [allClean_bind_strings, hhttp, htls]

/-- The strings of the inbounds. -/
theorem allClean_inbounds :
    AllClean (c.inbounds env) ↔ ∀ s ∈ c.inboundCopies, Clean s := by
  have hdoor : Clean (ascii "dokodemo-door") := by decide
  have hsocks : Clean (ascii "socks") := by decide
  have hnoauth : Clean (ascii "noauth") := by decide
  have hudp := clean_getD c.udp_addr (d := ascii "127.0.0.1") (by decide)
  unfold inbounds inboundCopies
  simp only [allClean_list, allClean_ite, allClean_table, List.forall_mem_cons,
    List.forall_mem_append, forall_ite, c.allClean_sniffing env, Option.toList_some, hudp,
    allClean_number, allClean_copy, allClean_fixed, allClean_bool, allClean_none, hdoor, hsocks,
    hnoauth, List.not_mem_nil, false_implies, implies_true, and_true, true_and]
  tauto

/-- The strings of the user. -/
theorem allClean_user :
    AllClean (c.user env) ↔ (∀ s ∈ c.server.uuid.toList, Clean s) ∧
      (c.server.type = some (ascii "vmess") ∧ c.server.tls ≠ some (ascii "1") →
        ∀ s ∈ c.server.security.toList, Clean s) ∧
      (c.server.type = some (ascii "vless") → ∀ s ∈ c.server.vless_encryption.toList, Clean s) ∧
      ∀ s ∈ c.server.vless_flow.toList, Clean s := by
  have hzero : Clean (ascii "zero") := by decide
  have hsecurity : AllClean (copy c.security) ↔
      (c.server.tls ≠ some (ascii "1") → ∀ s ∈ c.server.security.toList, Clean s) := by
    unfold security
    split_ifs with htls
    · simp [hzero, htls]
    · simp only [allClean_copy, ne_eq, htls, not_false_eq_true, true_implies]
  unfold user
  simp only [allClean_table, List.forall_mem_cons, allClean_ite, allClean_copy c.server.uuid,
    allClean_copy c.server.vless_encryption, allClean_copy c.server.vless_flow, hsecurity,
    allClean_none, List.not_mem_nil, false_implies, implies_true, and_true]
  tauto

/-- The strings of `tlsSettings`. -/
theorem allClean_tlsSettings :
    AllClean (c.tlsSettings env) ↔ (c.server.tls = some (ascii "1") →
      (∀ s ∈ c.server.fingerprint.toList, Clean s) ∧ (∀ s ∈ c.sni.toList, Clean s) ∧
        (c.server.certificate = some (ascii "1") →
          ∀ s ∈ c.server.certpath.toList, Clean s)) := by
  have hverify : Clean (ascii "verify") := by decide
  have hrandom := clean_getD c.server.fingerprint (d := ascii "random") (by decide)
  have hinsecure : AllClean (optional (c.server.insecure = some (ascii "1")) (.bool true)) := by
    unfold optional
    split_ifs <;> simp
  unfold tlsSettings
  simp only [allClean_ite, allClean_table, List.forall_mem_cons, allClean_list, hinsecure,
    allClean_copy, Option.toList_some, hrandom, allClean_fixed, hverify, allClean_none,
    List.not_mem_nil, false_implies, implies_true, and_true, true_and]

/-- The strings of `realitySettings`. -/
theorem allClean_realitySettings :
    AllClean (c.realitySettings env) ↔ (c.server.reality = some (ascii "1") →
      (∀ s ∈ c.server.finger_real.toList, Clean s) ∧ (∀ s ∈ c.sni.toList, Clean s) ∧
        (∀ s ∈ c.server.publickey.toList, Clean s) ∧ (∀ s ∈ c.server.shortid.toList, Clean s) ∧
          ∀ s ∈ c.server.spiderx.toList, Clean s) := by
  unfold realitySettings
  simp only [allClean_ite, allClean_table, List.forall_mem_cons, allClean_copy, allClean_none,
    List.not_mem_nil, false_implies, implies_true, and_true]

/-- The strings of `rawSettings`. -/
theorem allClean_rawSettings :
    AllClean (c.rawSettings env) ↔
      (c.server.transport = some (ascii "tcp") ∧ c.server.tcp_guise = some (ascii "http") →
        (∀ s ∈ c.server.http_path.toList, Clean s) ∧
          ∀ s ∈ (c.server.http_host <|> c.server.server).toList, Clean s) := by
  have hguise : c.server.tcp_guise = some (ascii "http") →
      ∀ s ∈ c.server.tcp_guise.toList, Clean s := by
    intro h
    rw [h]
    exact List.forall_mem_singleton.mpr (by decide)
  unfold rawSettings
  simp only [allClean_ite, allClean_table, List.forall_mem_cons, allClean_list, allClean_copy,
    allClean_none, List.not_mem_nil, false_implies, implies_true, and_true]
  tauto

/-- The strings of `kcpSettings`. -/
theorem allClean_kcpSettings :
    AllClean (c.kcpSettings env) ↔ (c.server.transport = some (ascii "kcp") →
      (∀ s ∈ c.server.kcp_guise.toList, Clean s) ∧ ∀ s ∈ c.server.seed.toList, Clean s) := by
  unfold kcpSettings
  simp only [allClean_ite, allClean_table, List.forall_mem_cons, allClean_copy, allClean_number,
    allClean_bool, allClean_none, List.not_mem_nil, false_implies, implies_true, and_true, true_and]

/-- The strings of the header `User-Agent`. -/
theorem clean_user_agent :
    Clean c.user_agent ↔ ∀ s ∈ (c.server.ws_ua <|> c.server.httpupgrade_ua).toList, Clean s :=
  clean_getD _ (by decide +kernel)

/-- The strings of `wsSettings`. -/
theorem allClean_wsSettings :
    AllClean (c.wsSettings env) ↔ (c.server.transport = some (ascii "ws") →
      (∀ s ∈ c.server.ws_path.toList, Clean s) ∧
        (∀ s ∈ (c.server.ws_host <|> c.server.server).toList, Clean s) ∧
          ∀ s ∈ (c.server.ws_ua <|> c.server.httpupgrade_ua).toList, Clean s) := by
  unfold wsSettings
  simp only [allClean_ite, allClean_table, List.forall_mem_cons, allClean_copy, Option.toList_some,
    c.clean_user_agent, allClean_none, List.not_mem_nil, false_implies, implies_true, and_true]

/-- The strings of `grpcSettings`. -/
theorem allClean_grpcSettings :
    AllClean (c.grpcSettings env) ↔ (c.server.transport = some (ascii "grpc") →
      (∀ s ∈ c.server.grpc_serviceName.toList, Clean s) ∧
        ∀ s ∈ (c.server.grpc_authority <|> c.server.server).toList, Clean s) := by
  unfold grpcSettings
  simp only [allClean_ite, allClean_table, List.forall_mem_cons, allClean_copy, allClean_none,
    List.not_mem_nil, false_implies, implies_true, and_true]

/-- The strings of `httpupgradeSettings`. -/
theorem allClean_httpupgradeSettings :
    AllClean (c.httpupgradeSettings env) ↔ (c.server.transport = some (ascii "httpupgrade") →
      (∀ s ∈ c.server.httpupgrade_path.toList, Clean s) ∧
        (∀ s ∈ (c.server.httpupgrade_host <|> c.server.server).toList, Clean s) ∧
          ∀ s ∈ (c.server.ws_ua <|> c.server.httpupgrade_ua).toList, Clean s) := by
  unfold httpupgradeSettings
  simp only [allClean_ite, allClean_table, List.forall_mem_cons, allClean_copy, Option.toList_some,
    c.clean_user_agent, allClean_none, List.not_mem_nil, false_implies, implies_true, and_true]

/-- The strings of the first outbound. -/
theorem allClean_outbound :
    AllClean (c.outbound env) ↔ ∀ s ∈ c.outboundCopies, Clean s := by
  have hreality : Clean (ascii "reality") := by decide
  have htls : Clean (ascii "tls") := by decide
  have hshadowsocks : Clean (ascii "shadowsocks") := by decide
  have htype : c.IsVnext → ∀ s ∈ c.server.type.toList, Clean s := by
    rintro (h | h)
    · rw [h]
      exact List.forall_mem_singleton.mpr (by decide)
    · rw [h]
      exact List.forall_mem_singleton.mpr (by decide)
  unfold outbound outboundCopies
  by_cases hvnext : c.IsVnext
  · rw [if_pos hvnext, if_pos hvnext]
    unfold vnextCopies streamSettings
    simp only [allClean_table, List.forall_mem_cons, allClean_list, allClean_copy, allClean_number,
      allClean_ite, allClean_fixed, hreality, htls, c.allClean_user env, c.allClean_tlsSettings env,
      c.allClean_realitySettings env, c.allClean_rawSettings env, c.allClean_kcpSettings env,
      c.allClean_wsSettings env, c.allClean_grpcSettings env, c.allClean_httpupgradeSettings env,
      allClean_bool, allClean_none, Option.toList_some, List.not_mem_nil, false_implies,
      implies_true, and_true, true_and, eq_true (htype hvnext), List.forall_mem_append, forall_ite,
      and_assoc]
  · rw [if_neg hvnext, if_neg hvnext]
    split_ifs with hss
    · simp only [allClean_table, List.forall_mem_cons, allClean_list, allClean_copy,
        allClean_number, allClean_fixed, hshadowsocks, Option.toList_some, List.not_mem_nil,
        false_implies, implies_true, and_true, true_and, List.forall_mem_append, and_assoc]
    · simp

/-- The strings of the outbound for direct traffic. -/
theorem allClean_directOutbound : AllClean (directOutbound env) := by
  have hfreedom : Clean (ascii "freedom") := by decide
  have htag : Clean (ascii "Direct") := by decide
  have hstrategy : Clean (ascii "UseIPv6v4") := by decide
  unfold directOutbound
  simp only [allClean_table, List.forall_mem_cons, allClean_fixed, allClean_num, hfreedom, htag,
    hstrategy, List.not_mem_nil, false_implies, implies_true, and_true]

/-- The strings of `routing`. -/
theorem allClean_routing :
    AllClean (c.routing env) ↔ ∀ s ∈ c.get_domain_direct.getD [], Clean s := by
  have hfield : Clean (ascii "field") := by decide
  have hdns : Clean (ascii "dns") := by decide
  have htag : Clean (ascii "Direct") := by decide
  unfold routing
  cases c.get_domain_direct with
  | none => simp
  | some domains =>
    rw [Option.bind_some, Option.getD_some]
    simp only [allClean_table, List.forall_mem_cons, allClean_list, allClean_fixed, allClean_strings,
      hfield, hdns, htag, List.not_mem_nil, false_implies, implies_true, and_true, true_and]

/-- The strings of `dns`. -/
theorem allClean_dns : AllClean (c.dns env) := by
  have haddress : Clean (ascii "127.0.0.1") := by decide
  have hdns : Clean (ascii "dns") := by decide
  unfold dns
  simp only [allClean_ite, allClean_table, List.forall_mem_cons, allClean_list, allClean_fixed,
    allClean_num, allClean_none, haddress, hdns, List.not_mem_nil, false_implies, implies_true,
    and_true]

/-- The strings of the table are clean exactly if those that are copied are. -/
theorem clean_xray_iff :
    (∀ s ∈ (c.xray env).strings, Clean s) ↔ ∀ s ∈ c.copied, Clean s := by
  unfold xray copied
  rw [forall_tableOf, List.forall_mem_append, List.forall_mem_append, ← c.allClean_inbounds env,
    ← c.allClean_outbound env, ← c.allClean_routing env]
  simp only [List.forall_mem_cons, allClean_list, eq_true (allClean_directOutbound env),
    eq_true (c.allClean_dns env), List.not_mem_nil, false_implies, implies_true, and_true, and_assoc]

/-- The output denotes the table exactly if the strings that are copied are clean. -/
theorem denotes_output_iff :
    Denotes (c.output env) (c.xray env).json ↔ ∀ s ∈ c.copied, Clean s := by
  unfold output
  rw [env.stringify_eq, denotes_edit_iff, c.clean_xray_iff env]

/-- The strings of the table are preserved exactly if none that is copied has a backslash, or `null,`
behind a blank. -/
theorem preserved_iff (env : LuaEnv) (c : Inputs) :
    c.Preserved env ↔ ∀ s ∈ c.copied, Clean s := by
  rw [← c.denotes_output_iff env]
  constructor
  · rintro ⟨⟨j, hj⟩, hexact⟩
    rw [← hexact j hj]
    exact hj
  · intro h
    exact ⟨⟨_, h⟩, fun j hj ↦ hj.unique h⟩

/-- What the script calls, for numbers that are all `443`. -/
theorem https_valid : ((ascii "443").all isNumberByte && isJsonNumber (ascii "443")) = true := by
  decide

/-- The members stay in their order. -/
theorem order_refl (members : List (Key × Value)) : (id members).Perm members := List.Perm.refl _

/-- The layout of json-c. -/
theorem pretty_two (v : Value) : pretty (2 * ·) v = pretty (2 * ·) v := rfl

/-- What the script calls, where every option that is read as a number is `443`. -/
def httpsEnv : LuaEnv where
  tonumber _ := some ⟨ascii "443", https_valid⟩
  order := id
  order_perm := order_refl
  indent := (2 * ·)
  stringify := pretty (2 * ·)
  stringify_eq := pretty_two

/-- A node of `ss` with a backslash in its password. -/
def backslash : Inputs where
  proto := ascii "tcp"
  local_port := ascii "1234"
  socks_port := ascii "0"
  ip_addr := ascii "192.0.2.1"
  udp_addr := none
  server :=
    { type := some (ascii "ss")
      server_port := some (ascii "443")
      encrypt_method_ss := some (ascii "aes-256-gcm")
      password := some (ascii "a\\b") }
  excluded := none
  direct := none

/-- Its password is not preserved. -/
theorem not_preserved_backslash : ¬ backslash.Preserved httpsEnv := by
  rintro ⟨⟨j, hj⟩, hexact⟩
  have hdenotes : Denotes (backslash.output httpsEnv) (backslash.xray httpsEnv).json :=
    hexact j hj ▸ hj
  have hclean := (backslash.denotes_output_iff httpsEnv).mp hdenotes (ascii "a\\b") (by decide)
  exact absurd hclean (by decide)

end Inputs

end OpenWrtCompile.Overwall.Xray
