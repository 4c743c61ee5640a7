import OpenWrtCompile.Subscribe.Reading

/-!
# The parts of a link

How the script takes a link apart: its alias stands behind the first `#`, its server and port behind
the `@`, with the port behind the last `:`, and its parameters behind a `?`, cut at `&` and `=`.
-/

namespace OpenWrtCompile.Subscribe
open OpenWrtCompile.Base

/-- The first `c` is found behind a text that has none. -/
theorem cut_append {c : UInt8} {a : Bytes} (b : Bytes) (h : c ∉ a) :
    cut c (a ++ c :: b) = some (a, b) := by
  rw [cut, Search.idxOf?_append_cons b h]
  simp

/-- Nothing is cut at a byte that is not there. -/
theorem cut_of_not_mem {c : UInt8} {a : Bytes} (h : c ∉ a) : cut c a = none := by
  rw [← Option.not_isSome_iff_eq_none, cut_isSome]
  exact h

/-- Where a text is cut. -/
theorem cut_eq_some_iff {c : UInt8} {t a b : Bytes} :
    cut c t = some (a, b) ↔ t = a ++ c :: b ∧ c ∉ a := by
  constructor
  · intro h
    have hmem : c ∈ t := by
      rw [← cut_isSome, h]
      rfl
    obtain ⟨a', b', rfl, hfirst⟩ := List.eq_append_cons_of_mem hmem
    rw [cut_append b' hfirst] at h
    cases h
    exact ⟨rfl, hfirst⟩
  · rintro ⟨rfl, h⟩
    exact cut_append b h

/-- The alias stands behind the first `#`. -/
theorem splitAlias_append {a : Bytes} (b : Bytes) (h : 0x23 ∉ a) :
    splitAlias (a ++ 0x23 :: b) = (a, b) := by
  rw [splitAlias, cut_append b h]

/-- Without a `#` there is no alias. -/
theorem splitAlias_of_not_mem {a : Bytes} (h : 0x23 ∉ a) : splitAlias a = (a, []) := by
  rw [splitAlias, cut_of_not_mem h]

/-- What stands before the alias has no `#` and starts the text. -/
theorem splitAlias_fst (a : Bytes) : 0x23 ∉ (splitAlias a).1 ∧ (splitAlias a).1 <+: a := by
  by_cases h : 0x23 ∈ a
  · obtain ⟨x, y, rfl, hfirst⟩ := List.eq_append_cons_of_mem h
    rw [splitAlias_append y hfirst]
    exact ⟨hfirst, List.prefix_append x _⟩
  · rw [splitAlias_of_not_mem h]
    exact ⟨h, List.prefix_refl a⟩

/-- What stands in brackets stands in the text. -/
theorem infix_of_bracketed {t m : Bytes} (h : bracketed t = some m) : m <:+: t := by
  unfold bracketed at h
  obtain ⟨p, hp, h⟩ := Option.bind_eq_some_iff.mp h
  obtain ⟨a, r⟩ := p
  obtain ⟨j, -, h⟩ := Option.bind_eq_some_iff.mp h
  cases h
  obtain ⟨rfl, -⟩ := cut_eq_some_iff.mp hp
  exact (List.take_prefix _ r).isInfix.trans ((List.suffix_cons 0x5B r).trans
    (List.suffix_append a _)).isInfix

/-- A bracket at the start of a text that has the other one. -/
theorem isSome_bracketed {r : Bytes} (h : 0x5D ∈ r) : (bracketed (0x5B :: r)).isSome = true := by
  unfold bracketed
  have hcut : cut 0x5B (0x5B :: r) = some ([], r) := cut_append r List.not_mem_nil
  obtain ⟨j, hj⟩ := Option.isSome_iff_exists.mp (List.isSome_idxOf?.mpr (List.mem_reverse.mpr h))
  rw [hcut]
  simp [hj]

/-- The pieces of a split are infixes of the text without its zero bytes. -/
theorem infix_of_mem_split {x v sep : Bytes} (hs : sep ≠ []) (h : v ∈ split (some x) sep) :
    v <:+: stripNul x := Search.infix_of_mem_split hs h

/-- The server and the port of an authority stand in it, but for the port that is missing. -/
theorem authority_infix {d h s p : Bytes} (hzero : 0 ∉ h) (hauth : authority d h = (.str s, .str p)) :
    s <:+: h ∧ (p = d ∨ p <:+: h) := by
  unfold authority at hauth
  split at hauth
  · obtain ⟨hs, hp⟩ := Prod.mk.inj hauth
    have hpiece : ∀ v ∈ split (some h) (ascii ":"), v <:+: h := by
      intro v hv
      have hin := infix_of_mem_split (by decide) hv
      rwa [stripNul_eq_self hzero] at hin
    constructor
    · cases hb : bracketed h with
      | some m =>
        rw [hb] at hs
        cases hs
        exact infix_of_bracketed hb
      | none =>
        rw [hb, Option.none_or] at hs
        cases hhead : (split (some h) (ascii ":")).head? with
        | none =>
          rw [hhead] at hs
          cases hs
        | some v =>
          rw [hhead] at hs
          cases hs
          exact hpiece _ (List.mem_of_mem_head? hhead)
    · right
      cases hlast : (split (some h) (ascii ":")).getLast? with
      | none =>
        rw [hlast] at hp
        cases hp
      | some v =>
        rw [hlast] at hp
        cases hp
        exact hpiece _ (List.mem_of_getLast? hlast)
  · cases hauth
    exact ⟨List.infix_refl h, Or.inl rfl⟩

/-- A port has no `:`. -/
theorem colon_not_mem_port {d h p : Bytes} {s : Value} (hd : 0x3A ∉ d)
    (hauth : authority d h = (s, .str p)) : 0x3A ∉ p := by
  unfold authority at hauth
  split at hauth
  · obtain ⟨-, hp⟩ := Prod.mk.inj hauth
    cases hlast : (split (some h) (ascii ":")).getLast? with
    | none =>
      rw [hlast] at hp
      cases hp
    | some v =>
      rw [hlast] at hp
      cases hp
      have hfree := Search.not_infix_of_mem_split (by decide) (List.mem_of_getLast? hlast)
      exact fun h ↦ hfree ((List.singleton_infix_iff _ _).mpr h)
  · cases hauth
    exact hd

/-- The address and the port of a form, as they stand in its links. -/
def Form.hostPort (f : Form) : Bytes := utf8 f.address ++ 0x3A :: utf8 f.serverPort

/-- The colon of an encoded text. -/
theorem colon_mem_utf8 {s : Text} : 0x3A ∈ utf8 s ↔ ':' ∈ s := mem_utf8 (c := ':') (by decide)

/-- The address of a form. -/
theorem utf8_address (f : Form) :
    utf8 f.address =
      if 0x3A ∈ utf8 f.server then 0x5B :: utf8 f.server ++ [0x5D] else utf8 f.server := by
  have hbrackets : utf8 ('[' :: f.server ++ [']']) = 0x5B :: utf8 f.server ++ [0x5D] := by
    rw [utf8_append, utf8_cons]
    rfl
  unfold Form.address
  by_cases h : ':' ∈ f.server
  · rw [if_pos h, if_pos (colon_mem_utf8.mpr h), hbrackets]
  · rw [if_neg h, if_neg (fun hc ↦ h (colon_mem_utf8.mp hc))]

/-- What the importer reads of an address and a port: the server, or what stands in brackets. -/
theorem authority_hostPort {d : Bytes} {f : Form} (hzero : 0 ∉ f.hostPort)
    (hport : 0x3A ∉ utf8 f.serverPort) (hne : utf8 f.serverPort ≠ []) :
    authority d f.hostPort =
      (.str ((bracketed f.hostPort).getD (utf8 f.server)), .str (utf8 f.serverPort)) := by
  have hlast : (split (some f.hostPort) (ascii ":")).getLast? = some (utf8 f.serverPort) := by
    show (Search.split [0x3A] (stripNul f.hostPort)).getLast? = _
    rw [stripNul_eq_self hzero]
    exact Search.getLast?_split _ hne hport
  have hhead : Value.ofOption ((bracketed f.hostPort).or (split (some f.hostPort) (ascii ":")).head?) =
      .str ((bracketed f.hostPort).getD (utf8 f.server)) := by
    by_cases hcolon : 0x3A ∈ utf8 f.server
    · have hsome : (bracketed f.hostPort).isSome = true := by
        unfold Form.hostPort
        rw [utf8_address, if_pos hcolon]
        exact isSome_bracketed (by simp)
      obtain ⟨m, hm⟩ := Option.isSome_iff_exists.mp hsome
      rw [hm]
      rfl
    · have hfirst : (split (some f.hostPort) (ascii ":")).head? = some (utf8 f.server) := by
        show (Search.split [0x3A] (stripNul f.hostPort)).head? = _
        rw [stripNul_eq_self hzero, Form.hostPort, utf8_address, if_neg hcolon,
          Search.split_cons_of_not_mem _ hcolon]
        rfl
      rw [hfirst]
      cases bracketed f.hostPort <;> rfl
  unfold authority
  rw [if_pos (by unfold Form.hostPort; simp)]
  simp only
  rw [hhead, hlast]
  rfl

/-- Without a certain byte in server and port there is none in the text of both. -/
theorem not_mem_hostPort {f : Form} {c : UInt8} (hs : c ∉ utf8 f.server)
    (hp : c ∉ utf8 f.serverPort) (hc : c ∉ [0x3A, 0x5B, 0x5D]) : c ∉ f.hostPort := by
  simp only [List.mem_cons, List.not_mem_nil, or_false, not_or] at hc
  unfold Form.hostPort
  rw [utf8_address, List.mem_append, List.mem_cons]
  rintro (h | h | h)
  · split at h
    · simp only [List.cons_append, List.mem_cons, List.mem_append, List.not_mem_nil, or_false] at h
      obtain h | h | h := h
      · exact hc.2.1 h
      · exact hs h
      · exact hc.2.2 h
    · exact hs h
  · exact hc.1 h
  · exact hp h

/-- One parameter of a query. -/
abbrev Item := Text × Text

/-- `key=value`. -/
def Item.bytes (p : Item) : Bytes := utf8 p.1 ++ 0x3D :: utf8 p.2

/-- The parameters of a link, each behind a `&`. -/
def joined (items : List Item) : Text := items.flatMap fun p ↦ '&' :: p.1 ++ '=' :: p.2

/-- The parameters of a link as they stand behind its `?`. -/
def queryBytes (items : List Item) : Bytes := List.intercalate [0x26] (items.map Item.bytes)

/-- A parameter that is read as it was written. -/
structure Item.Readable (p : Item) : Prop where
  key : utf8 p.1 ≠ [] ∧ ∀ c ∈ [(0 : UInt8), 0x26, 0x3D], c ∉ utf8 p.1
  value : utf8 p.2 ≠ [] ∧ ∀ c ∈ [(0 : UInt8), 0x26, 0x3D], c ∉ utf8 p.2

/-- Behind its first element, a joined list is the intercalated one. -/
theorem intercalate_cons (x : Bytes) (l : List Bytes) :
    List.intercalate [0x26] (x :: l) = x ++ l.flatMap fun y ↦ 0x26 :: y := by
  induction l generalizing x with
  | nil => simp [List.intercalate_singleton]
  | cons y l ih =>
    rw [List.intercalate_cons_cons, ih y, List.flatMap_cons, List.append_assoc,
      List.singleton_append]
    rfl

/-- The bytes of joined parameters. -/
theorem utf8_joined (items : List Item) :
    utf8 (joined items) = (items.map Item.bytes).flatMap fun y ↦ 0x26 :: y := by
  induction items with
  | nil => rfl
  | cons p items ih =>
    have hcons : joined (p :: items) = '&' :: p.1 ++ '=' :: p.2 ++ joined items := rfl
    rw [hcons, utf8_append, ih, List.map_cons, List.flatMap_cons]
    congr 1
    rw [utf8_append, utf8_cons, utf8_cons]
    rfl

/-- What is left is below 128. -/
theorem lt_of_isKept {c : UInt8} (h : isKept c = true) : c < 128 := by
  unfold isKept isUnescaped isReserved isAlnum at h
  simp only [Bool.or_eq_true, Bool.and_eq_true, decide_eq_true_eq, List.mem_cons,
    List.not_mem_nil, or_false, UInt8.le_iff_toNat_le, ← UInt8.toNat_inj, UInt8.reduceToNat] at h
  rw [UInt8.lt_iff_toNat_lt]
  show c.toNat < 128
  omega

/-- What `encodeURI` writes, in bytes. -/
theorem utf8_encodeURI (s : Text) : utf8 (encodeURI s) = escapeBytes isKept (utf8 s) :=
  utf8_escape (fun _ hc ↦ lt_of_isKept hc) s

/-- What `encodeURIComponent` writes, in bytes. -/
theorem utf8_encodeURIComponent (s : Text) :
    utf8 (encodeURIComponent s) = escapeBytes isUnescaped (utf8 s) :=
  utf8_escape (fun _ hc ↦ lt_of_isKept (by unfold isKept; rw [hc, Bool.true_or])) s

/-- The parameters of a link and its alias, in bytes. -/
theorem utf8_withAlias (f : Form) (items : List Item) :
    utf8 (f.withAlias (joined items)) =
      queryBytes items ++ 0x23 :: escapeBytes isKept (utf8 f.nodeAlias) := by
  have htail : utf8 (text "#" ++ encodeURI f.nodeAlias) =
      0x23 :: escapeBytes isKept (utf8 f.nodeAlias) := by
    rw [utf8_append, utf8_encodeURI]
    rfl
  cases items with
  | nil => exact htail
  | cons p items =>
    have hdrop : f.withAlias (joined (p :: items)) =
        p.1 ++ '=' :: p.2 ++ joined items ++ (text "#" ++ encodeURI f.nodeAlias) := by
      show dropAmp ('&' :: (p.1 ++ '=' :: p.2 ++ joined items ++ text "#" ++ _)) = _
      rw [dropAmp, List.append_assoc _ (text "#")]
    rw [hdrop, utf8_append, htail, utf8_append, utf8_joined, queryBytes, List.map_cons,
      intercalate_cons]
    congr 2
    rw [utf8_append, utf8_cons]
    rfl

/-- One readable parameter. -/
theorem readParam_bytes (key value : Bytes → Bytes) (params : Table) {p : Item} (h : p.Readable) :
    readParam key value params p.bytes =
      .ok (params.put (key (utf8 p.1)) (.str (value (utf8 p.2)))) := by
  have hzero : 0 ∉ p.bytes := by
    unfold Item.bytes
    rw [List.mem_append, List.mem_cons, not_or, not_or]
    exact ⟨h.key.2 0 (by decide), by decide, h.value.2 0 (by decide)⟩
  have hsplit : split (some p.bytes) (ascii "=") = [utf8 p.1, utf8 p.2] := by
    show Search.split [0x3D] (stripNul p.bytes) = _
    rw [stripNul_eq_self hzero, Item.bytes,
      Search.split_cons_of_not_mem _ (h.key.2 0x3D (by decide)),
      Search.split_singleton_of_not_mem h.value.1 (h.value.2 0x3D (by decide))]
  unfold readParam
  rw [hsplit]
  rfl

/-- Where a parameter comes from that the script has read. -/
theorem exists_of_at_readParams {key value : Bytes → Bytes} {query : Option Bytes} {params : Table}
    (h : readParams key value query = .ok params) {k w : Bytes} (hw : params.at k = .str w) :
    ∃ p ∈ split query (ascii "&"), ∃ a b, key a = k ∧ value b = w ∧ a ++ 0x3D :: b <+: p ∧
      0x3D ∉ a ∧ 0x3D ∉ b := by
  have hzero : ∀ p ∈ split query (ascii "&"), 0 ∉ p := fun p hp ↦
    zero_not_mem_of_mem_split (by decide) hp
  have hrun : ∀ (l : List Bytes) (t : Table), (∀ p ∈ l, 0 ∉ p) →
      l.foldlM (readParam key value) t = .ok params → t.at k = .str w ∨
        ∃ p ∈ l, ∃ a b, key a = k ∧ value b = w ∧ a ++ 0x3D :: b <+: p ∧ 0x3D ∉ a ∧ 0x3D ∉ b := by
    intro l
    induction l with
    | nil =>
      intro t _ ht
      cases ht
      exact Or.inl hw
    | cons p l ih =>
      intro t hfree ht
      rw [List.foldlM_cons, bind_eq_ok] at ht
      obtain ⟨next, hnext, ht⟩ := ht
      obtain hat | ⟨q, hq, hread⟩ := ih next (fun q hq ↦ hfree q (List.mem_cons_of_mem p hq)) ht
      swap
      · exact Or.inr ⟨q, List.mem_cons_of_mem p hq, hread⟩
      unfold readParam at hnext
      cases hs : split (some p) (ascii "=") with
      | nil =>
        rw [hs] at hnext
        cases hnext
      | cons a r =>
        rw [hs] at hnext
        cases hnext
        by_cases hk : key a = k
        swap
        · rw [Table.at_put_ne _ _ _ _ hk] at hat
          exact Or.inl hat
        rw [hk, Table.at_put_self] at hat
        cases r with
        | nil => cases hat
        | cons b r =>
          cases hat
          have hcut : Search.split [0x3D] p = a :: b :: r := by
            have hstrip : split (some p) (ascii "=") = Search.split [0x3D] (stripNul p) := rfl
            rw [← stripNul_eq_self (hfree p List.mem_cons_self), ← hstrip, hs]
          exact Or.inr ⟨p, List.mem_cons_self, a, b, hk, rfl, Search.prefix_of_split_singleton hcut⟩
  obtain hat | hread := hrun _ [] hzero h
  · cases hat
  · exact hread

/-- The table of parameters that are read one after the other. -/
def readItems (key value : Bytes → Bytes) (items : List Item) : Table :=
  items.foldl (fun params p ↦ Table.put params (key (utf8 p.1)) (.str (value (utf8 p.2)))) []

/-- Readable parameters are read one after the other. -/
theorem readParams_queryBytes (key value : Bytes → Bytes) {items : List Item}
    (h : ∀ p ∈ items, p.Readable) :
    readParams key value (some (queryBytes items)) = .ok (readItems key value items) := by
  have hbyte : ∀ p ∈ items, ∀ c ∈ [(0 : UInt8), 0x26], c ∉ p.bytes := by
    intro p hp c hc
    have hmem : c ∈ [(0 : UInt8), 0x26, 0x3D] := by
      simp only [List.mem_cons, List.not_mem_nil, or_false] at hc ⊢
      obtain rfl | rfl := hc <;> simp
    unfold Item.bytes
    rw [List.mem_append, List.mem_cons, not_or, not_or]
    refine ⟨(h p hp).key.2 c hmem, ?_, (h p hp).value.2 c hmem⟩
    rintro rfl
    revert hc
    decide
  have hzero : 0 ∉ queryBytes items := by
    unfold queryBytes
    cases items with
    | nil => exact List.not_mem_nil
    | cons p items =>
      rw [List.map_cons, intercalate_cons, List.mem_append, List.mem_flatMap]
      rintro (hp | ⟨y, hy, hp⟩)
      · exact hbyte p List.mem_cons_self 0 (by decide) hp
      · obtain ⟨q, hq, rfl⟩ := List.mem_map.mp hy
        obtain hp | hp := List.mem_cons.mp hp
        · exact absurd hp (by decide)
        · exact hbyte q (List.mem_cons_of_mem p hq) 0 (by decide) hp
  have hsplit : split (some (queryBytes items)) (ascii "&") = items.map Item.bytes := by
    show Search.split [0x26] (stripNul (queryBytes items)) = _
    rw [stripNul_eq_self hzero]
    apply Search.split_intercalate
    · intro v hv
      obtain ⟨p, hp, rfl⟩ := List.mem_map.mp hv
      exact hbyte p hp 0x26 (by decide)
    · intro hlast
      obtain ⟨p, hp, hnil⟩ := List.mem_map.mp (List.mem_of_getLast? hlast)
      unfold Item.bytes at hnil
      simp at hnil
  unfold readParams readItems
  rw [hsplit]
  clear hsplit hzero hbyte
  generalize ([] : Table) = params
  induction items generalizing params with
  | nil => rfl
  | cons p items ih =>
    rw [List.map_cons, List.foldlM_cons, readParam_bytes _ _ _ (h p List.mem_cons_self)]
    exact ih (fun q hq ↦ h q (List.mem_cons_of_mem p hq)) _

/-- The value of a parameter after further ones. -/
def lastValue (key value : Bytes → Bytes) (k : Bytes) (items : List Item) (w : Value) : Value :=
  items.foldl (fun w p ↦ if key (utf8 p.1) = k then .str (value (utf8 p.2)) else w) w

/-- The last parameter with a key is read. -/
theorem at_readItems (key value : Bytes → Bytes) (k : Bytes) (items : List Item) :
    (readItems key value items).at k = lastValue key value k items .nil := by
  unfold readItems lastValue
  rw [← Table.at_nil k]
  generalize ([] : Table) = params
  induction items generalizing params with
  | nil => rfl
  | cons p items ih =>
    rw [List.foldl_cons, List.foldl_cons, ih]
    congr 1
    by_cases h : key (utf8 p.1) = k
    · rw [if_pos h, ← h, Table.at_put_self]
    · rw [if_neg h, Table.at_put_ne _ _ _ _ h]

/-- The server and the port of a form come out of a link in which some bytes have a meaning of their
own; a server with a `:` stands in brackets, and no other brackets are taken for it. -/
structure HostKept (f : Form) (special : Bytes) : Prop where
  clean : ∀ c ∈ special, c ∉ utf8 f.server ∧ c ∉ utf8 f.serverPort
  port : 0x3A ∉ utf8 f.serverPort
  brackets : (bracketed f.hostPort).getD (utf8 f.server) = utf8 f.server

/-- The alias of a form comes out of a link that is cut at `://`, and in which `+` is a space. -/
structure AliasKept (f : Form) : Prop where
  plus : 0x2B ∉ utf8 f.nodeAlias
  cut : ¬ ascii "://" <:+: utf8 f.nodeAlias

/-- A byte that is neither left nor part of an escape does not occur. -/
theorem not_mem_escapeBytes {kept : UInt8 → Bool} {c : UInt8} (hk : kept c = false)
    (hp : c ≠ 0x25) (hd : hexDigit? c = none) (b : Bytes) : c ∉ escapeBytes kept b := by
  intro h
  obtain ⟨x, -, hx⟩ := List.mem_flatMap.mp h
  split at hx
  · next hkx =>
    rw [List.mem_singleton.mp hx, hkx] at hk
    cases hk
  · exact @not_plain_of_mem_getUrlencode (fun _ ↦ true) _ _ hx ⟨rfl, hp, hd⟩

/-- Only an empty text is escaped as one. -/
theorem escapeBytes_eq_nil {kept : UInt8 → Bool} {b : Bytes} : escapeBytes kept b = [] ↔ b = [] := by
  constructor
  · intro h
    have hlen := length_le_escapeBytes kept b
    rw [h, List.length_nil, Nat.le_zero] at hlen
    exact List.length_eq_zero_iff.mp hlen
  · rintro rfl
    rfl

/-- A byte that no parameter has does not occur in the query. -/
theorem not_mem_queryBytes {items : List Item} {c : UInt8} (hc : c ≠ 0x26 ∧ c ≠ 0x3D)
    (h : ∀ p ∈ items, c ∉ utf8 p.1 ∧ c ∉ utf8 p.2) : c ∉ queryBytes items := by
  have hitem : ∀ p ∈ items, c ∉ p.bytes := by
    intro p hp
    unfold Item.bytes
    rw [List.mem_append, List.mem_cons, not_or, not_or]
    exact ⟨(h p hp).1, hc.2, (h p hp).2⟩
  unfold queryBytes
  cases items with
  | nil => exact List.not_mem_nil
  | cons p items =>
    rw [List.map_cons, intercalate_cons, List.mem_append, List.mem_flatMap]
    rintro (hp | ⟨y, hy, hp⟩)
    · exact hitem p List.mem_cons_self hp
    · obtain ⟨q, hq, rfl⟩ := List.mem_map.mp hy
      obtain hp | hp := List.mem_cons.mp hp
      · exact hc.1 hp
      · exact hitem q (List.mem_cons_of_mem p hq) hp

/-- Parameters that are appended. -/
@[simp] theorem joined_append (a b : List Item) : joined (a ++ b) = joined a ++ joined b :=
  List.flatMap_append

/-- A parameter of the form. -/
theorem query_eq (param : String) (value : Text) :
    query param value = joined [(text param, encodeURIComponent value)] := by
  unfold query joined
  simp [text]

/-- What is cut at `://` has one only with its colon. -/
theorem not_link_of_not_mem {t : Bytes} (h : 0x3A ∉ t) : ¬ ascii "://" <:+: t :=
  fun hin ↦ h (hin.subset (by decide))

/-- The alias comes out if and only if it is kept. -/
theorem urlDecode_alias_iff (f : Form) :
    urlDecode (Search.before (ascii "://") (escapeBytes isKept (utf8 f.nodeAlias))) =
      utf8 f.nodeAlias ↔ AliasKept f := by
  rw [before_escapeBytes (by decide) (by unfold Plain; exact forall_mem_of_all (by decide)),
    urlDecode_kept]
  constructor
  · intro h
    have hlen := congrArg List.length h
    have hwhole : Search.before (ascii "://") (utf8 f.nodeAlias) = utf8 f.nodeAlias := by
      apply (Search.before_start _ _).eq_of_length
      rw [← hlen]
      exact (List.length_map _).symm
    refine ⟨?_, ?_⟩
    · rw [hwhole] at h
      exact (gsubByte_eq_self_iff (by decide)).mp h
    · rw [← hwhole]
      exact Search.not_infix_before (by decide)
  · intro h
    rw [Search.before_of_not_infix h.cut, gsubByte_eq_self_iff (by decide)]
    exact h.plus

/-- The spaces. -/
theorem cases_of_isSpace {c : UInt8} (h : isSpace c = true) :
    c = 9 ∨ c = 10 ∨ c = 11 ∨ c = 12 ∨ c = 13 ∨ c = 32 := by
  unfold isSpace at h
  simp only [Bool.or_eq_true, Bool.and_eq_true, decide_eq_true_eq] at h
  simp only [UInt8.le_iff_toNat_le, ← UInt8.toNat_inj, UInt8.reduceToNat] at h ⊢
  omega

/-- What the bytes of a link without those of its scheme end with. -/
theorem isSpace_of_getLast?_append {a : Bytes} {f : Form} (hne : f.nodeAlias ≠ []) :
    ∀ c ∈ (a ++ 0x23 :: escapeBytes isKept (utf8 f.nodeAlias)).getLast?, isSpace c = false := by
  intro c hc
  have hescaped : escapeBytes isKept (utf8 f.nodeAlias) ≠ [] := by
    rw [ne_eq, escapeBytes_eq_nil, utf8_eq_nil]
    exact hne
  rw [List.getLast?_append_of_ne_nil _ (List.cons_ne_nil _ _), List.getLast?_cons_of_ne_nil hescaped]
    at hc
  have hmem := List.mem_of_getLast? hc
  cases hspace : isSpace c with
  | false => rfl
  | true =>
    have hplain : isKept c = false ∧ c ≠ 0x25 ∧ hexDigit? c = none := by
      obtain rfl | rfl | rfl | rfl | rfl | rfl := cases_of_isSpace hspace <;> decide
    exact absurd hmem (not_mem_escapeBytes hplain.1 hplain.2.1 hplain.2.2 _)

/-- No escaped text has a zero byte. -/
theorem zero_not_mem_escapeBytes (b : Bytes) : 0 ∉ escapeBytes isKept b :=
  not_mem_escapeBytes (by decide) (by decide) (by decide) b

/-- A link without the part that `://` cuts off, if it has one before its alias. -/
theorem before_link {x : Bytes} (f : Form) :
    Search.before (ascii "://") (stripNul (x ++ 0x23 :: escapeBytes isKept (utf8 f.nodeAlias))) =
      if ascii "://" <:+: stripNul x then Search.before (ascii "://") (stripNul x)
      else stripNul x ++ 0x23 ::
        Search.before (ascii "://") (escapeBytes isKept (utf8 f.nodeAlias)) := by
  have hstrip : stripNul (0x23 :: escapeBytes isKept (utf8 f.nodeAlias)) =
      0x23 :: escapeBytes isKept (utf8 f.nodeAlias) := by
    apply stripNul_eq_self
    rw [List.mem_cons, not_or]
    exact ⟨by decide, zero_not_mem_escapeBytes _⟩
  rw [stripNul_append, hstrip, Search.before_append_cons_eq _ (by decide)]

/-- The bytes that no server and no port of a link with parameters have. -/
def urlSpecial : Bytes := [0, 0x23, 0x40, 0x3F]

/-- `gsubSlash` brings in no byte. -/
theorem mem_of_mem_gsubSlash {c : UInt8} {x : Bytes} (h : c ∈ gsubSlash x) : c ∈ x := by
  fun_induction gsubSlash x with
  | case1 => exact h
  | case2 d => exact h
  | case3 d y r hd ih =>
    obtain rfl | hr := List.mem_cons.mp h
    · rw [hd.2]
      exact List.mem_cons_of_mem d List.mem_cons_self
    · exact List.mem_cons_of_mem d (List.mem_cons_of_mem y (ih hr))
  | case4 d y r hd ih =>
    obtain rfl | hr := List.mem_cons.mp h
    · exact List.mem_cons_self
    · exact List.mem_cons_of_mem d (ih hr)

/-- The server and the port of any link with parameters are clean. -/
theorem urlNames_clean {content s p : Bytes} (hs : (urlNames content).server = .str s)
    (hp : (urlNames content).port = .str p) :
    (∀ c ∈ urlSpecial, c ∉ s ∧ c ∉ p) ∧ 0x3A ∉ p := by
  unfold urlNames at hs hp
  simp only at hs hp
  have hinfo : ∀ c ∈ [(0 : UInt8), 0x23, 0x40], c ∉ (urlInfo content).getD [] := by
    intro c hc
    cases hi : urlInfo content with
    | none => exact List.not_mem_nil
    | some info =>
      unfold urlInfo at hi
      have hpiece := List.mem_of_getElem? hi
      have hin := infix_of_mem_split (by decide) hpiece
      have hat := Search.not_infix_of_mem_split (by decide) hpiece
      simp only [List.mem_cons, List.not_mem_nil, or_false] at hc
      obtain rfl | rfl | rfl := hc
      · exact fun h ↦ zero_not_mem_stripNul _ (hin.subset h)
      · exact fun h ↦ (splitAlias_fst content).1 (List.mem_filter.mp (hin.subset h)).1
      · exact fun h ↦ hat ((List.singleton_infix_iff _ _).mpr h)
  have hhost : ∀ c ∈ urlSpecial,
      c ∉ (split (some (gsubSlash ((urlInfo content).getD []))) (ascii "?")).headD [] := by
    intro c hc hmem
    cases hsplit : split (some (gsubSlash ((urlInfo content).getD []))) (ascii "?") with
    | nil =>
      rw [hsplit] at hmem
      cases hmem
    | cons h r =>
      rw [hsplit] at hmem
      have hpiece : h ∈ split (some (gsubSlash ((urlInfo content).getD []))) (ascii "?") := by
        rw [hsplit]
        exact List.mem_cons_self
      by_cases hq : c = 0x3F
      · have hfree := Search.not_infix_of_mem_split (by decide) hpiece
        subst hq
        exact hfree ((List.singleton_infix_iff _ _).mpr hmem)
      · have hin := (infix_of_mem_split (by decide) hpiece).subset hmem
        have hraw := mem_of_mem_gsubSlash (List.mem_filter.mp hin).1
        refine hinfo c ?_ hraw
        simp only [urlSpecial, List.mem_cons, List.not_mem_nil, or_false] at hc ⊢
        obtain rfl | rfl | rfl | rfl := hc <;> simp at hq ⊢
  generalize (split (some (gsubSlash ((urlInfo content).getD []))) (ascii "?")).headD [] = h at *
  have hauth : authority (ascii "443") h = (.str s, .str p) := Prod.ext hs hp
  obtain ⟨hserver, hport⟩ := authority_infix (hhost 0 (by decide)) hauth
  refine ⟨fun c hc ↦ ⟨fun hmem ↦ hhost c hc (hserver.subset hmem), fun hmem ↦ ?_⟩,
    colon_not_mem_port (by decide) hauth⟩
  obtain rfl | hport := hport
  · simp only [urlSpecial, List.mem_cons, List.not_mem_nil, or_false] at hc
    obtain rfl | rfl | rfl | rfl := hc <;> revert hmem <;> decide
  · exact hhost c hc (hport.subset hmem)

/-- No byte with a meaning stands in the text of a clean server and a clean port. -/
theorem clean_hostPort {f : Form}
    (hclean : ∀ c ∈ urlSpecial, c ∉ utf8 f.server ∧ c ∉ utf8 f.serverPort) :
    ∀ c ∈ urlSpecial, c ∉ f.hostPort := by
  intro c hc
  apply not_mem_hostPort (hclean c hc).1 (hclean c hc).2
  revert hc
  simp only [urlSpecial, List.mem_cons, List.not_mem_nil, or_false]
  rintro (rfl | rfl | rfl | rfl) <;> decide

/-- `/?` becomes `?` behind a text without `?`. -/
theorem gsubSlash_append_slash {t : Bytes} (r : Bytes) (h : 0x3F ∉ t) :
    gsubSlash (t ++ 0x2F :: 0x3F :: r) = t ++ 0x3F :: gsubSlash r := by
  induction t with
  | nil => rfl
  | cons c t ih =>
    have hrest := ih fun hmem ↦ h (List.mem_cons_of_mem c hmem)
    cases t with
    | nil =>
      rw [List.cons_append, List.nil_append, gsubSlash, if_neg fun hc ↦ absurd hc.2 (by decide)]
      exact congrArg (c :: ·) hrest
    | cons x t =>
      have hx : ¬ (c = 0x2F ∧ x = 0x3F) := fun hc ↦ h (hc.2 ▸ by simp)
      rw [List.cons_append, List.cons_append, gsubSlash, if_neg hx]
      exact congrArg (c :: ·) hrest

/-- Without a `?` nothing becomes one. -/
theorem gsubSlash_of_not_mem {t : Bytes} (h : 0x3F ∉ t) : gsubSlash t = t := by
  fun_induction gsubSlash t with
  | case1 => rfl
  | case2 c => rfl
  | case3 c x r hc ih => exact absurd (hc.2 ▸ by simp) h
  | case4 c x r hc ih => rw [ih fun hmem ↦ h (List.mem_cons_of_mem c hmem)]

/-- A query that is not there is none. -/
def someUnlessNil (q : Bytes) : Option Bytes := if q = [] then none else some q

/-- What `split` makes of a text with one `?`. -/
theorem split_question {t q : Bytes} (ht : 0x3F ∉ t) (hq : 0x3F ∉ q) (hzero : 0 ∉ t ++ 0x3F :: q) :
    split (some (t ++ 0x3F :: q)) (ascii "?") = t :: (someUnlessNil q).toList := by
  show Search.split [0x3F] (stripNul _) = _
  rw [stripNul_eq_self hzero, Search.split_cons_of_not_mem _ ht]
  unfold someUnlessNil
  by_cases h : q = []
  · rw [if_pos h, h]
    rfl
  · rw [if_neg h, Search.split_singleton_of_not_mem h hq]
    rfl

/-- Host and query of a link with `/?`. -/
theorem hostQuery_slash {t q : Bytes} (ht : 0x3F ∉ t) (hq : 0x3F ∉ q) (hzero : 0 ∉ t ++ q) :
    hostQuery (some (t ++ 0x2F :: 0x3F :: q)) = .ok (t, someUnlessNil q) := by
  rw [List.mem_append, not_or] at hzero
  have hfree : 0 ∉ t ++ 0x3F :: q := by
    rw [List.mem_append, List.mem_cons, not_or, not_or]
    exact ⟨hzero.1, by decide, hzero.2⟩
  unfold hostQuery
  rw [Option.getD_some, gsubSlash_append_slash q ht, gsubSlash_of_not_mem hq,
    split_question ht hq hfree]
  unfold someUnlessNil
  split_ifs <;> rfl

/-- The parameters of a query that may not be there. -/
theorem readParams_someUnlessNil (key value : Bytes → Bytes) {items : List Item}
    (h : ∀ p ∈ items, p.Readable) :
    readParams key value (someUnlessNil (queryBytes items)) = .ok (readItems key value items) := by
  unfold someUnlessNil
  split
  · next hnil =>
    cases items with
    | nil => rfl
    | cons p items =>
      rw [queryBytes, List.map_cons, intercalate_cons, Item.bytes] at hnil
      simp at hnil
  · exact readParams_queryBytes key value h

/-- The user information of a link, an encoded text, has none of the bytes with a meaning. -/
theorem not_mem_user {c : UInt8} (hc : c ∈ [(0 : UInt8), 0x23, 0x40, 0x3F, 0x3A, 0x26, 0x3D])
    (user : Bytes) : c ∉ escapeBytes isUnescaped user := by
  have hplain : isUnescaped c = false ∧ c ≠ 0x25 ∧ hexDigit? c = none := by
    simp only [List.mem_cons, List.not_mem_nil, or_false] at hc
    obtain rfl | rfl | rfl | rfl | rfl | rfl | rfl := hc <;> decide
  exact not_mem_escapeBytes hplain.1 hplain.2.1 hplain.2.2 user

/-- An encoded parameter is readable. -/
theorem readable_encoded {param : String} {value : Text} (hne : value ≠ [])
    (hkey : utf8 (text param) ≠ [] ∧ ∀ c ∈ [(0 : UInt8), 0x26, 0x3D], c ∉ utf8 (text param)) :
    Item.Readable (text param, encodeURIComponent value) := by
  refine ⟨hkey, ?_, ?_⟩
  · rw [utf8_encodeURIComponent, ne_eq, escapeBytes_eq_nil, utf8_eq_nil]
    exact hne
  · intro c hc
    rw [utf8_encodeURIComponent]
    apply not_mem_user
    simp only [List.mem_cons, List.not_mem_nil, or_false] at hc ⊢
    obtain rfl | rfl | rfl := hc <;> simp

/-- What stands before the alias of a link starts with its user information and an `@`. -/
theorem splitAlias_user {user : Bytes} (r : Bytes) (h : 0x23 ∉ user) :
    splitAlias (user ++ 0x40 :: r) = (user ++ 0x40 :: (splitAlias r).1, (splitAlias r).2) := by
  by_cases hr : 0x23 ∈ r
  · obtain ⟨a, b, rfl, hfirst⟩ := List.eq_append_cons_of_mem hr
    have hfree : 0x23 ∉ user ++ 0x40 :: a := by
      rw [List.mem_append, List.mem_cons, not_or, not_or]
      exact ⟨h, by decide, hfirst⟩
    have hsplit := splitAlias_append b hfree
    rw [List.append_assoc, List.cons_append] at hsplit
    rw [hsplit, splitAlias_append b hfirst]
  · have hfree : 0x23 ∉ user ++ 0x40 :: r := by
      rw [List.mem_append, List.mem_cons, not_or, not_or]
      exact ⟨h, by decide, hr⟩
    rw [splitAlias_of_not_mem hfree, splitAlias_of_not_mem hr]

/-- What `encodeURIComponent` writes is read. -/
@[simp] theorem urlDecode_encodeURIComponent (s : Text) :
    urlDecode (utf8 (encodeURIComponent s)) = utf8 s := by
  rw [utf8_encodeURIComponent, urlDecode_unescaped]

/-- An exported field has a text. -/
theorem Filled.ne_nil {f : Form} (h : Filled f) {name : String} {value : Text}
    (hmem : field name value ∈ exported f) : value ≠ [] := by
  rintro rfl
  exact h _ hmem rfl

/-- Up to its alias, a link with user information starts with that and an `@`. -/
theorem before_user (user r : Bytes) :
    Search.before (ascii "://") (stripNul (escapeBytes isUnescaped user ++ 0x40 :: r)) =
      escapeBytes isUnescaped user ++ 0x40 :: Search.before (ascii "://") (stripNul r) := by
  have hzero : stripNul (escapeBytes isUnescaped user) = escapeBytes isUnescaped user :=
    stripNul_eq_self (not_mem_user (by decide) user)
  rw [stripNul_append, hzero]
  exact Search.before_append_cons _ (by decide) (not_link_of_not_mem (not_mem_user (by decide) user))

/-- A link whose alias comes out is not cut before it. -/
theorem uncut {f : Form} {x c : Bytes} (hx : 0x23 ∉ x) (halias : f.nodeAlias ≠ [])
    (hc : c = if ascii "://" <:+: x then Search.before (ascii "://") x
      else x ++ 0x23 :: Search.before (ascii "://") (escapeBytes isKept (utf8 f.nodeAlias)))
    (hremark : urlDecode (splitAlias c).2 = utf8 f.nodeAlias) :
    ¬ ascii "://" <:+: x ∧
      c = x ++ 0x23 :: Search.before (ascii "://") (escapeBytes isKept (utf8 f.nodeAlias)) := by
  by_cases hin : ascii "://" <:+: x
  · rw [if_pos hin] at hc
    have hfree : 0x23 ∉ c := by
      rw [hc]
      exact fun h ↦ hx ((Search.before_start _ x).subset h)
    rw [splitAlias_of_not_mem hfree] at hremark
    exact absurd (utf8_eq_nil.mp hremark.symm) halias
  · rw [if_neg hin] at hc
    exact ⟨hin, hc⟩

end OpenWrtCompile.Subscribe
