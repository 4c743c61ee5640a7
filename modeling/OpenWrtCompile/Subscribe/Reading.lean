import OpenWrtCompile.Subscribe.Codec
import OpenWrtCompile.Subscribe.Export

/-!
# Reading an exported link

What `parse_link` and `processData` do with a link of `buildUrl` whatever its type: the line is cut at
`://`, and what the branch of the type sets is left as it is.
-/

namespace OpenWrtCompile.Subscribe
open OpenWrtCompile.Base

/-- Zero bytes are taken out of both parts. -/
@[simp] theorem stripNul_append (a b : Bytes) : stripNul (a ++ b) = stripNul a ++ stripNul b :=
  List.filter_append a b

/-- What is left has no zero byte. -/
theorem zero_not_mem_stripNul (a : Bytes) : 0 ∉ stripNul a := by
  intro h
  have := (List.mem_filter.mp h).2
  simp at this

/-- A line that neither starts nor ends with a space is not trimmed. -/
theorem trim_eq_self {l : Bytes} (hfirst : ∀ c ∈ l.head?, isSpace c = false)
    (hlast : ∀ c ∈ l.getLast?, isSpace c = false) : trim l = l := by
  have hdrop : l.dropWhile isSpace = l := by
    cases l with
    | nil => rfl
    | cons c l => exact List.dropWhile_cons_of_neg (by simp [hfirst c rfl])
  unfold trim
  rw [hdrop, List.rdropWhile_eq_self_iff]
  intro hne hspace
  rw [hlast _ (List.getLast?_eq_some_getLast hne)] at hspace
  cases hspace

/-- What `processData` is given of what stands behind `://`. -/
def content (env : Env) (type : LinkType) (rest : Bytes) : Bytes :=
  let rest := Search.before (ascii "://") (stripNul rest)
  if type = .ss ∨ type = .trojan then rest else base64Decode env (some rest)

/-- A line with a link is cut at its first `://`. -/
theorem readLink_eq (env : Env) (type : LinkType) {rest : Bytes} (hne : stripNul rest ≠ [])
    (hlast : ∀ c ∈ rest.getLast?, isSpace c = false) :
    readLink env none (.line (ascii type.name ++ ascii "://" ++ rest)) =
      processData env (ascii type.name) (content env type rest) := by
  have hfirst : ∀ c ∈ (ascii type.name ++ ascii "://" ++ rest).head?, isSpace c = false := by
    intro c hc
    cases type <;> cases hc <;> decide
  have hrest : rest ≠ [] := by
    rintro rfl
    exact hne rfl
  have hend : ∀ c ∈ (ascii type.name ++ ascii "://" ++ rest).getLast?, isSpace c = false := by
    intro c hc
    rw [List.getLast?_append_of_ne_nil _ hrest] at hc
    exact hlast c hc
  have hname : stripNul (ascii type.name ++ ascii "://" ++ rest) =
      ascii type.name ++ ascii "://" ++ stripNul rest := by
    rw [stripNul_append]
    congr 1
    cases type <;> decide
  have hstart : ¬ ascii "://" <:+: ascii type.name ++ (ascii "://").dropLast := by
    cases type <;> decide
  obtain ⟨r, hr⟩ := @Search.exists_split_eq _ _ (ascii "://") _ (by decide) hne
  have hsplit : split (some (trim (ascii type.name ++ ascii "://" ++ rest))) (ascii "://") =
      ascii type.name :: Search.before (ascii "://") (stripNul rest) :: r := by
    rw [trim_eq_self hfirst hend]
    show Search.split (ascii "://") (stripNul _) = _
    rw [hname, Search.split_append_sep _ hstart, hr]
  unfold readLink content
  simp only
  rw [hsplit]
  cases type <;> rfl

/-- `finish` leaves every field but those that it writes. -/
theorem get_finish {env : Env} {t result : Table} (halias : (t.get "alias").truthy = true)
    (h : finish env t = .ok result) (k : String) (hh : ascii "hashkey" ≠ ascii k)
    (hs : ascii "switch_enable" ≠ ascii k) : result.get k = t.get k := by
  unfold finish setAlias at h
  rw [if_pos halias] at h
  cases h
  rw [Table.get_set_ne _ _ _ _ hs, Table.get_set_ne _ _ _ _ hh, Table.get_set_ne _ _ _ _ hs]

/-- `finish` returns for a node with an alias. -/
theorem exists_finish {env : Env} {t : Table} (halias : (t.get "alias").truthy = true) :
    ∃ result, finish env t = .ok result := by
  unfold finish setAlias
  rw [if_pos halias]
  exact ⟨_, rfl⟩

/-- A field that `finish` does not write. -/
def Untouched (p : String × Value) : Prop :=
  ascii "hashkey" ≠ ascii p.1 ∧ ascii "switch_enable" ≠ ascii p.1

/-- What holds of the members of both branches holds of those of a conditional list. -/
theorem forall_mem_ite {α : Type} {c : Prop} [Decidable c] {a b : List α} {P : α → Prop}
    (ha : ∀ p ∈ a, P p) (hb : ∀ p ∈ b, P p) : ∀ p ∈ (if c then a else b), P p := by
  split
  · exact ha
  · exact hb

/-- `finish` writes no exported field. -/
theorem untouched_exported (f : Form) : ∀ p ∈ exported f, Untouched p := by
  have hnil : ∀ p ∈ ([] : List (String × Value)), Untouched p :=
    fun p hp ↦ absurd hp List.not_mem_nil
  have hinsecure : ∀ p ∈ f.insecureField, Untouched p := by
    unfold Form.insecureField
    apply forall_mem_ite _ hnil
    simp +decide [Untouched, checked]
  have hunless : ∀ {name : String} (value : Text), ascii "hashkey" ≠ ascii name →
      ascii "switch_enable" ≠ ascii name → ∀ p ∈ fieldUnlessEmpty name value, Untouched p := by
    intro name value hh hs
    unfold fieldUnlessEmpty
    apply forall_mem_ite hnil
    intro p hp
    rw [List.mem_singleton.mp hp]
    exact ⟨hh, hs⟩
  have htransport : ∀ p ∈ f.transportFields, Untouched p := by
    unfold Form.transportFields
    apply forall_mem_ite
    · simp +decide [Untouched, field]
    apply forall_mem_ite
    · simp +decide [Untouched, field]
    apply forall_mem_ite
    · simp +decide [Untouched, field]
    apply forall_mem_ite
    · simp +decide [Untouched, field]
    apply forall_mem_ite _ hnil
    simp +decide [Untouched, field]
  have hsecurity : ∀ p ∈ f.securityFields, Untouched p := by
    unfold Form.securityFields
    apply forall_mem_ite _ hnil
    simp only [List.forall_mem_append]
    refine ⟨⟨?_, hunless _ (by decide) (by decide)⟩, hunless _ (by decide) (by decide)⟩
    apply forall_mem_ite
    · simp only [List.forall_mem_append]
      refine ⟨⟨?_, hunless _ (by decide) (by decide)⟩, hunless _ (by decide) (by decide)⟩
      simp +decide [Untouched, field, checked]
    · simp only [List.forall_mem_append]
      refine ⟨?_, hinsecure⟩
      simp +decide [Untouched, field, checked]
  unfold exported
  rw [List.forall_mem_append]
  constructor
  · simp +decide [Untouched, field]
  cases f.type with
  | ss =>
    simp only [List.forall_mem_append]
    constructor
    · simp +decide [Untouched, field]
    · apply forall_mem_ite hnil
      rw [List.forall_mem_cons]
      exact ⟨by simp +decide [Untouched, field], hunless _ (by decide) (by decide)⟩
  | ssr => simp +decide [Untouched, field]
  | vmess =>
    simp only [List.forall_mem_append]
    refine ⟨⟨by simp +decide [Untouched, field], htransport⟩, ?_⟩
    apply forall_mem_ite _ hnil
    rw [List.forall_mem_append]
    exact ⟨by simp +decide [Untouched, field, checked], hinsecure⟩
  | vless =>
    simp only [List.forall_mem_append]
    exact ⟨⟨by simp +decide [Untouched, field], htransport⟩, hsecurity⟩
  | trojan =>
    simp only [List.forall_mem_append, List.cons_append, List.forall_mem_cons]
    exact ⟨by simp +decide [Untouched, field], hunless _ (by decide) (by decide), hinsecure⟩

/-- The tables that `processData` starts from. -/
def start (type : LinkType) : Table := [(ascii "type", .str (ascii type.name))]

/-- They have a type only. -/
theorem get_start (type : LinkType) (k : String) (h : ascii "type" ≠ ascii k) :
    (start type).get k = .nil := by
  show Table.at [_] (ascii k) = _
  rw [Table.at_cons, if_neg h, Table.at_nil]

/-- A branch that returns a table gives it. -/
theorem some_map_eq_ok {x : Except LuaError Table} {t : Table} :
    some <$> x = .ok (some t) ↔ x = .ok t := by
  rw [map_eq_ok]
  constructor
  · rintro ⟨u, hu, heq⟩
    cases heq
    exact hu
  · intro ht
    exact ⟨t, ht, rfl⟩

/-- The link reads back if and only if the branch of its type does, where that one sets an alias. -/
theorem roundTrips_iff {env : Env} {f : Form} {rest : Text}
    (hurl : buildUrl f = some (text f.type.name ++ text "://" ++ rest))
    (hne : stripNul (utf8 rest) ≠ []) (hlast : ∀ c ∈ (utf8 rest).getLast?, isSpace c = false)
    (halias : ∀ t, parseText env (ascii f.type.name) (content env f.type (utf8 rest))
      (start f.type) = .ok (some t) → (t.get "alias").truthy = true) :
    RoundTrips env f ↔
      ∃ t, parseText env (ascii f.type.name) (content env f.type (utf8 rest)) (start f.type) =
        .ok (some t) ∧ ∀ p ∈ exported f, t.get p.1 = p.2 := by
  have hbytes : utf8 (text f.type.name ++ text "://" ++ rest) =
      ascii f.type.name ++ ascii "://" ++ utf8 rest := by
    rw [utf8_append, utf8_append]
    congr 2
    cases f.type <;> rfl
  unfold RoundTrips
  rw [hurl]
  constructor
  · rintro ⟨link, result, hlink, hread, hfields⟩
    cases hlink
    rw [hbytes, readLink_eq env f.type hne hlast] at hread
    unfold processData at hread
    obtain ⟨o, ho, hread⟩ := bind_eq_ok.mp hread
    cases o with
    | none => cases hread
    | some t =>
      obtain ⟨r, hr, heq⟩ := map_eq_ok.mp hread
      cases heq
      refine ⟨t, ho, fun p hp ↦ ?_⟩
      have huntouched := untouched_exported f p hp
      rw [← hfields p hp, get_finish (halias t ho) hr p.1 huntouched.1 huntouched.2]
  · rintro ⟨t, ht, hfields⟩
    obtain ⟨r, hr⟩ := @exists_finish env _ (halias t ht)
    refine ⟨_, r, rfl, ?_, fun p hp ↦ ?_⟩
    · rw [hbytes, readLink_eq env f.type hne hlast]
      unfold processData
      exact bind_eq_ok.mpr ⟨some t, ht, map_eq_ok.mpr ⟨r, hr, rfl⟩⟩
    · have huntouched := untouched_exported f p hp
      rw [get_finish (halias t ht) hr p.1 huntouched.1 huntouched.2, hfields p hp]

end OpenWrtCompile.Subscribe
