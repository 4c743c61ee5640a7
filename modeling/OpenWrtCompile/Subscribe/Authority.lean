import OpenWrtCompile.Subscribe.RoundTrip.Parts

/-!
# The authority of a link

What `parseNodeUrl` and the branches `ss` and `trojan` of `processData`
(`root/usr/share/overwall/subscribe:92–173`, `201–309`) read of the `host[:port]` in a link: an IPv6
address stands there in brackets, and a `/` may follow.
-/

namespace OpenWrtCompile.Subscribe
open OpenWrtCompile.Base

/-- The bytes that no host has: NUL, `#`, `/`, `?`, `@` and the brackets. -/
def hostSpecial : Bytes := [0, 0x23, 0x2F, 0x3F, 0x40, 0x5B, 0x5D]

/-- A domain name, or an IPv4 or IPv6 address without brackets, and an optional port in digits. -/
structure Address where
  host : Bytes
  port : Option Bytes
  host_ne_nil : host ≠ []
  host_clean : ∀ c ∈ hostSpecial, c ∉ host
  port_digits : ∀ p ∈ port, p ≠ [] ∧ ∀ c ∈ p, 0x30 ≤ c ∧ c ≤ 0x39

namespace Address
variable (a : Address)

/-- An IPv6 address has a colon, a name or an IPv4 address has none. -/
def IsIpv6 : Prop := 0x3A ∈ a.host

instance : Decidable a.IsIpv6 := inferInstanceAs (Decidable (0x3A ∈ a.host))

/-- The host as it stands in a link. -/
def written : Bytes := if a.IsIpv6 then 0x5B :: a.host ++ [0x5D] else a.host

/-- `host[:port]`. -/
def text : Bytes := a.written ++ a.port.elim [] (0x3A :: ·)

/-- The port, or the default one. -/
def portOr (default : Bytes) : Bytes := a.port.getD default

end Address

/-- A parser yields the host without brackets, and the port or the default one. -/
def Reads (default : Bytes) (a : Address) (node : Except LuaError Table) : Prop :=
  ∃ t, node = .ok t ∧ t.get "server" = .str a.host ∧
    t.get "server_port" = .str (a.portOr default)

/-! ### Brackets and colons -/

/-- What stands between a first bracket and the last one. -/
theorem bracketed_eq {m r : Bytes} (h : 0x5D ∉ r) :
    bracketed (0x5B :: m ++ 0x5D :: r) = some m := by
  have hcut : cut 0x5B (0x5B :: (m ++ 0x5D :: r)) = some ([], m ++ 0x5D :: r) :=
    cut_append _ List.not_mem_nil
  have hrev : (m ++ 0x5D :: r).reverse = r.reverse ++ 0x5D :: m.reverse := by simp
  have hidx : (m ++ 0x5D :: r).reverse.idxOf? 0x5D = some r.length := by
    rw [hrev, Search.idxOf?_append_cons _ fun hm ↦ h (List.mem_reverse.mp hm), List.length_reverse]
  have hlen : (m ++ 0x5D :: r).length - 1 - r.length = m.length := by
    simp only [List.length_append, List.length_cons]
    omega
  rw [List.cons_append, bracketed, hcut]
  simp only [Option.bind_eq_bind, Option.bind_some, hidx, hlen, List.take_left]

/-- Where a text is cut at the last byte of a kind. -/
theorem exists_last_cut {c : UInt8} {t : Bytes} (h : c ∈ t) :
    ∃ a b, t = a ++ c :: b ∧ c ∉ b := by
  obtain ⟨b, a, hrev, hb⟩ := List.eq_append_cons_of_mem (List.mem_reverse.mpr h)
  refine ⟨a.reverse, b.reverse, ?_, fun hm ↦ hb (List.mem_reverse.mp hm)⟩
  have hback := congrArg List.reverse hrev
  simpa using hback

/-- The last piece of a text with a colon. -/
theorem authority_snd {d t b : Bytes} (hzero : 0 ∉ t ++ 0x3A :: b) (hne : b ≠ []) (h : 0x3A ∉ b) :
    (authority d (t ++ 0x3A :: b)).2 = .str b := by
  have hlast : (split (some (t ++ 0x3A :: b)) (ascii ":")).getLast? = some b := by
    show (Search.split [0x3A] (stripNul _)).getLast? = _
    rw [stripNul_eq_self hzero]
    exact Search.getLast?_split t hne h
  rw [authority, if_pos (by simp)]
  simp only [hlast]
  rfl

namespace Address
variable {a : Address}

/-- Of the bytes with a meaning, the text of an address has none but colon and brackets. -/
theorem not_mem_text {c : UInt8} (hc : c ∈ [(0 : UInt8), 0x23, 0x2F, 0x3F, 0x40]) : c ∉ a.text := by
  have hhost : c ∉ a.host := by
    apply a.host_clean
    simp only [List.mem_cons, List.not_mem_nil, or_false] at hc
    obtain rfl | rfl | rfl | rfl | rfl := hc <;> decide
  have hsign : c ∉ [(0x3A : UInt8), 0x5B, 0x5D] := by
    simp only [List.mem_cons, List.not_mem_nil, or_false] at hc
    obtain rfl | rfl | rfl | rfl | rfl := hc <;> decide
  simp only [List.mem_cons, List.not_mem_nil, or_false, not_or] at hsign
  have hport : ∀ p ∈ a.port, c ∉ p := by
    intro p hp hm
    have hdigit := (a.port_digits p hp).2 c hm
    simp only [List.mem_cons, List.not_mem_nil, or_false] at hc
    obtain rfl | rfl | rfl | rfl | rfl := hc <;> exact absurd hdigit (by decide)
  unfold text written
  rw [List.mem_append]
  rintro (h | h)
  · split at h
    · simp only [List.cons_append, List.mem_cons, List.mem_append, List.not_mem_nil, or_false] at h
      obtain h | h | h := h
      · exact hsign.2.1 h
      · exact hhost h
      · exact hsign.2.2 h
    · exact hhost h
  · cases hp : a.port with
    | none =>
      rw [hp] at h
      exact absurd h List.not_mem_nil
    | some p =>
      rw [hp] at h
      obtain h | h := List.mem_cons.mp h
      · exact hsign.1 h
      · exact hport p hp h

variable (a) in
theorem text_ne_nil : a.text ≠ [] := by
  unfold text written
  split
  · simp
  · simpa using fun h ↦ absurd h a.host_ne_nil

variable (a) in
/-- A host with something behind its colon. -/
theorem authority_colon (d : Bytes) {b : Bytes} (hne : b ≠ [])
    (hb : ∀ c ∈ [(0 : UInt8), 0x3A, 0x5B, 0x5D], c ∉ b) :
    authority d (a.written ++ 0x3A :: b) = (.str a.host, .str b) := by
  have hopen : 0x5B ∉ a.host := a.host_clean _ (by decide)
  have hzero : 0 ∉ a.written ++ 0x3A :: b := by
    have hhost : 0 ∉ a.host := a.host_clean _ (by decide)
    have hrest := hb 0 (by decide)
    unfold written
    split
    · simpa using ⟨hhost, hrest⟩
    · simpa using ⟨hhost, hrest⟩
  refine Prod.ext ?_ (authority_snd hzero hne (hb 0x3A (by decide)))
  rw [authority, if_pos (by simp)]
  show Value.ofOption ((bracketed _).or (split _ _).head?) = .str a.host
  by_cases hv6 : a.IsIpv6
  · have hclose : 0x5D ∉ 0x3A :: b := by
      rw [List.mem_cons, not_or]
      exact ⟨by decide, hb 0x5D (by decide)⟩
    have htext : a.written ++ 0x3A :: b = 0x5B :: a.host ++ 0x5D :: 0x3A :: b := by
      rw [written, if_pos hv6, List.append_assoc, List.singleton_append]
    rw [htext, bracketed_eq hclose]
    rfl
  · have hnone : bracketed (a.host ++ 0x3A :: b) = none := by
      have hfree : 0x5B ∉ a.host ++ 0x3A :: b := by
        rw [List.mem_append, List.mem_cons, not_or, not_or]
        exact ⟨hopen, by decide, hb 0x5B (by decide)⟩
      rw [bracketed, cut_of_not_mem hfree]
      rfl
    rw [written, if_neg hv6] at hzero ⊢
    rw [hnone]
    show Value.ofOption (Search.split [0x3A] (stripNul _)).head? = _
    rw [stripNul_eq_self hzero, Search.split_cons_of_not_mem b hv6]
    rfl

/-- A port is not a special text. -/
theorem port_clean {p : Bytes} (hp : p ∈ a.port) :
    ∀ c ∈ [(0 : UInt8), 0x3A, 0x5B, 0x5D], c ∉ p := by
  intro c hc hm
  have hdigit := (a.port_digits p hp).2 c hm
  simp only [List.mem_cons, List.not_mem_nil, or_false] at hc
  obtain rfl | rfl | rfl | rfl := hc <;> exact absurd hdigit (by decide)

/-- A bracketed address without a port: what is read as its port ends behind the bracket. -/
theorem authority_ipv6 (d : Bytes) {t : Bytes} (hv6 : a.IsIpv6) (ht : 0 ∉ t ∧ 0x3A ∉ t) :
    ∃ b, (authority d (a.written ++ t)).2 = .str b ∧ 0x5D ∈ b := by
  obtain ⟨x, y, hhost, hy⟩ := exists_last_cut hv6
  have htext : a.written ++ t = (0x5B :: x) ++ 0x3A :: (y ++ 0x5D :: t) := by
    rw [written, if_pos hv6, hhost]
    simp
  have hzero : 0 ∉ a.written ++ t := by
    have hclean : 0 ∉ a.host := a.host_clean _ (by decide)
    rw [written, if_pos hv6]
    simpa using ⟨hclean, ht.1⟩
  rw [htext] at hzero ⊢
  refine ⟨_, authority_snd hzero (by simp) ?_, by simp⟩
  rw [List.mem_append, List.mem_cons, not_or, not_or]
  exact ⟨hy, by decide, ht.2⟩

/-- The server is the host without brackets, and the port the given one or the default one, exactly
when a port is given or the host is no IPv6 address. -/
theorem authority_text_iff {d : Bytes} (hd : 0x5D ∉ d) :
    authority d a.text = (.str a.host, .str (a.portOr d)) ↔ a.port.isSome ∨ ¬ a.IsIpv6 := by
  unfold text portOr
  cases hp : a.port with
  | some p =>
    have hread := a.authority_colon d (a.port_digits p hp).1 (port_clean hp)
    simp only [Option.elim_some, hread, Option.getD_some, Option.isSome_some, true_or]
  | none =>
    simp only [Option.elim_none, Option.getD_none, Option.isSome_none, Bool.false_eq_true, false_or]
    by_cases hv6 : a.IsIpv6
    · refine iff_of_false (fun h ↦ ?_) (not_not.mpr hv6)
      obtain ⟨b, hb, hmem⟩ := authority_ipv6 d hv6 ⟨List.not_mem_nil, List.not_mem_nil⟩
      rw [h] at hb
      cases hb
      exact hd hmem
    · refine iff_of_true ?_ hv6
      rw [List.append_nil, written, if_neg hv6, authority]
      exact if_neg hv6

/-- A `/` behind it is read as part of the port or of the host. -/
theorem authority_slash {d : Bytes} (hd : 0x5D ∉ d) :
    authority d (a.text ++ [0x2F]) ≠ (.str a.host, .str (a.portOr d)) := by
  unfold text portOr
  cases hp : a.port with
  | some p =>
    have hclean : ∀ c ∈ [(0 : UInt8), 0x3A, 0x5B, 0x5D], c ∉ p ++ [0x2F] := by
      intro c hc hm
      rw [List.mem_append, List.mem_singleton] at hm
      rcases hm with hm | rfl
      · exact port_clean hp c hc hm
      · exact absurd hc (by decide)
    have hread := a.authority_colon d (by simp) hclean
    simp only [Option.elim_some, List.append_assoc, List.cons_append, hread, Option.getD_some]
    simp
  | none =>
    simp only [Option.elim_none, Option.getD_none, List.append_nil]
    by_cases hv6 : a.IsIpv6
    · obtain ⟨b, hb, hmem⟩ := authority_ipv6 d hv6 (show 0 ∉ [0x2F] ∧ 0x3A ∉ [0x2F] by decide)
      intro h
      rw [h] at hb
      cases hb
      exact hd hmem
    · have hcolon : 0x3A ∉ a.host ++ [0x2F] := by
        rw [List.mem_append, List.mem_singleton, not_or]
        exact ⟨hv6, by decide⟩
      rw [written, if_neg hv6, authority, if_neg hcolon]
      simp

end Address

/-! ### Queries -/

/-- A part of a query that starts it has no empty item if the query has none. -/
theorem HasKeys.prefix {q t : Bytes} (hzero : 0 ∉ q) (h : HasKeys (some q)) (ht : t <+: q) :
    HasKeys (some t) := by
  have hfree : 0 ∉ t := fun hm ↦ hzero (ht.subset hm)
  unfold HasKeys at h ⊢
  change ∀ v ∈ Search.split [0x26] (stripNul _), v ≠ [] at h ⊢
  rw [stripNul_eq_self hzero] at h
  rw [stripNul_eq_self hfree]
  clear hzero hfree
  induction hn : t.length using Nat.strong_induction_on generalizing q t with
  | _ n ih =>
    by_cases hmem : 0x26 ∈ t
    · obtain ⟨a, r, rfl, ha⟩ := List.eq_append_cons_of_mem hmem
      obtain ⟨rest, rfl⟩ := ht
      rw [List.append_assoc, List.cons_append, Search.split_cons_of_not_mem _ ha] at h
      rw [Search.split_cons_of_not_mem _ ha]
      intro v hv
      rcases List.mem_cons.mp hv with rfl | hv
      · exact h _ List.mem_cons_self
      · refine ih r.length ?_ ⟨rest, rfl⟩ (fun v hv ↦ h v (List.mem_cons_of_mem _ hv)) rfl v hv
        rw [← hn, List.length_append, List.length_cons]
        omega
    · by_cases hnil : t = []
      · rw [hnil]
        intro v hv
        exact absurd hv List.not_mem_nil
      · rw [Search.split_singleton_of_not_mem hnil hmem]
        intro v hv
        rw [List.mem_singleton.mp hv]
        exact hnil

/-- What `gsubSlash` leaves before the first `?` starts the text. -/
theorem prefix_of_gsubSlash {x v w : Bytes} (h : gsubSlash x = v ++ w) (hv : 0x3F ∉ v) :
    v <+: x := by
  fun_induction gsubSlash x generalizing v with
  | case1 =>
    rw [(List.append_eq_nil_iff.mp h.symm).1]
  | case2 c => exact ⟨w, h.symm⟩
  | case3 c x r hc ih =>
    cases v with
    | nil => exact List.nil_prefix
    | cons d v =>
      rw [List.cons_append] at h
      injection h with hd _
      rw [← hd] at hv
      exact absurd List.mem_cons_self hv
  | case4 c x r hc ih =>
    cases v with
    | nil => exact List.nil_prefix
    | cons d v =>
      rw [List.cons_append] at h
      injection h with hd hrest
      rw [← hd]
      exact List.cons_prefix_cons.mpr ⟨rfl, ih hrest fun hm ↦ hv (List.mem_cons_of_mem _ hm)⟩

/-- A query that is read up to its first `?` starts the one in the link. -/
theorem prefix_of_head?_split {q v : Bytes} (hzero : 0 ∉ q)
    (h : (split (some (gsubSlash q)) (ascii "?")).head? = some v) : v <+: q := by
  change (Search.split [0x3F] (stripNul _)).head? = _ at h
  rw [stripNul_eq_self (zero_not_mem_gsubSlash hzero)] at h
  by_cases hmem : 0x3F ∈ gsubSlash q
  · obtain ⟨a, r, heq, ha⟩ := List.eq_append_cons_of_mem hmem
    rw [heq, Search.split_cons_of_not_mem _ ha] at h
    rw [← Option.some.inj h]
    exact prefix_of_gsubSlash heq ha
  · by_cases hnil : gsubSlash q = []
    · rw [hnil] at h
      cases h
    · rw [Search.split_singleton_of_not_mem hnil hmem] at h
      rw [← Option.some.inj h]
      exact prefix_of_gsubSlash (List.append_nil _).symm hmem

/-- A `?` behind a text without `?` that does not end with a `/`. -/
theorem gsubSlash_append_question {t : Bytes} (r : Bytes) (h : 0x3F ∉ t)
    (hs : t.getLast? ≠ some 0x2F) : gsubSlash (t ++ 0x3F :: r) = t ++ 0x3F :: gsubSlash r := by
  induction t with
  | nil =>
    cases r with
    | nil => rfl
    | cons x r =>
      rw [List.nil_append, gsubSlash, if_neg fun hc ↦ absurd hc.1 (by decide)]
      rfl
  | cons c t ih =>
    rw [List.mem_cons, not_or] at h
    cases t with
    | nil =>
      rw [List.cons_append, List.nil_append, gsubSlash, if_neg fun hc ↦ hs (congrArg some hc.1)]
      exact congrArg (c :: ·) (ih h.2 (by simp))
    | cons x t =>
      rw [List.getLast?_cons_cons] at hs
      have hx : ¬ (c = 0x2F ∧ x = 0x3F) := fun hc ↦ h.2 (hc.2 ▸ List.mem_cons_self)
      rw [List.cons_append, List.cons_append, gsubSlash, if_neg hx]
      exact congrArg (c :: ·) (ih h.2 hs)

/-! ### Links -/

/-- A link `user@host[:port][/][?query][#remark]` whose query has no empty item. -/
structure UrlLink where
  user : Bytes
  address : Address
  slash : Bool
  query : Option Bytes
  remark : Option Bytes
  user_clean : ∀ c ∈ [(0 : UInt8), 0x23, 0x40], c ∉ user
  query_clean : ∀ q ∈ query, 0 ∉ q ∧ 0x23 ∉ q ∧ HasKeys (some q)

namespace UrlLink
variable (l : UrlLink)

/-- What stands behind the `@`, up to this query. -/
def info (query : Option Bytes) : Bytes :=
  l.address.text ++ ((if l.slash then [0x2F] else []) ++ query.elim [] (0x3F :: ·))

/-- The link without its scheme. -/
def text : Bytes := l.user ++ 0x40 :: l.info l.query ++ l.remark.elim [] (0x23 :: ·)

/-- What the script takes for the host with the port. -/
def hostPort : Bytes := l.address.text ++ if l.slash ∧ l.query = none then [0x2F] else []

variable {l}

/-- A byte that neither address nor query has. -/
theorem not_mem_info {c : UInt8} {query : Option Bytes} (hc : c ∈ [(0 : UInt8), 0x23, 0x40])
    (hq : ∀ q ∈ query, c ∉ q) : c ∉ l.info query := by
  have haddress : c ∉ l.address.text := by
    apply Address.not_mem_text
    simp only [List.mem_cons, List.not_mem_nil, or_false] at hc ⊢
    obtain rfl | rfl | rfl := hc <;> simp
  have hsign : c ∉ [(0x2F : UInt8)] ∧ c ≠ 0x3F := by
    simp only [List.mem_cons, List.not_mem_nil, or_false] at hc
    obtain rfl | rfl | rfl := hc <;> decide
  unfold info
  rw [List.mem_append, List.mem_append, not_or, not_or]
  refine ⟨haddress, ?_, ?_⟩
  · split
    · exact hsign.1
    · exact List.not_mem_nil
  · cases query with
    | none => exact List.not_mem_nil
    | some q =>
      rw [Option.elim_some, List.mem_cons, not_or]
      exact ⟨hsign.2, hq q rfl⟩

/-- The parts of a link. -/
theorem splitAlias_text :
    splitAlias l.text = (l.user ++ 0x40 :: l.info l.query, l.remark.getD []) := by
  have hfree : 0x23 ∉ l.user ++ 0x40 :: l.info l.query := by
    rw [List.mem_append, List.mem_cons, not_or, not_or]
    exact ⟨l.user_clean _ (by decide), by decide,
      not_mem_info (by decide) fun q hq ↦ (l.query_clean q hq).2.1⟩
  unfold text
  cases hr : l.remark with
  | none => rw [Option.elim_none, List.append_nil, splitAlias_of_not_mem hfree, Option.getD_none]
  | some r => rw [Option.elim_some, splitAlias_append r hfree, Option.getD_some]

/-- What stands behind the `@`, up to the next one, which may be in the query. -/
theorem urlInfo_text :
    ∃ query, urlInfo l.text = some (l.info query) ∧ (query = none ↔ l.query = none) ∧
      ∀ q ∈ query, ∃ q' ∈ l.query, q <+: q' := by
  have hzero : 0 ∉ l.user ++ 0x40 :: l.info l.query := by
    rw [List.mem_append, List.mem_cons, not_or, not_or]
    exact ⟨l.user_clean _ (by decide), by decide,
      not_mem_info (by decide) fun q hq ↦ (l.query_clean q hq).1⟩
  have hsplit : split (some (l.user ++ 0x40 :: l.info l.query)) (ascii "@") =
      l.user :: Search.split [0x40] (l.info l.query) := by
    show Search.split [0x40] (stripNul _) = _
    rw [stripNul_eq_self hzero, Search.split_cons_of_not_mem _ (l.user_clean _ (by decide))]
  have hne (query : Option Bytes) : l.info query ≠ [] := fun h ↦
    l.address.text_ne_nil (List.append_eq_nil_iff.mp h).1
  unfold urlInfo
  rw [splitAlias_text, hsplit, List.getElem?_cons_succ]
  cases hq : l.query with
  | none =>
    refine ⟨none, ?_, by simp, by simp⟩
    rw [Search.split_singleton_of_not_mem (hne none) (not_mem_info (by decide) (by simp))]
    rfl
  | some q =>
    by_cases hat : 0x40 ∈ q
    · obtain ⟨a, r, rfl, ha⟩ := List.eq_append_cons_of_mem hat
      have htext : l.info (some (a ++ 0x40 :: r)) = l.info (some a) ++ 0x40 :: r := by
        simp [info]
      refine ⟨some a, ?_, by simp, ?_⟩
      · rw [htext, Search.split_cons_of_not_mem _ (not_mem_info (by decide) (by simpa using ha))]
        rfl
      · rintro _ ⟨rfl⟩
        exact ⟨_, rfl, List.prefix_append _ _⟩
    · refine ⟨some q, ?_, by simp, by simp⟩
      rw [Search.split_singleton_of_not_mem (hne _) (not_mem_info (by decide) (by simpa using hat))]
      rfl

/-- What the script makes of it: the host with the port, and the query up to its first `?`. -/
theorem split_info (query : Option Bytes) (hnone : query = none ↔ l.query = none)
    (hzero : ∀ q ∈ query, 0 ∉ q) :
    split (some (gsubSlash (l.info query))) (ascii "?") =
      l.hostPort :: query.elim [] fun q ↦ split (some (gsubSlash q)) (ascii "?") := by
  have hclean (c : UInt8) (hc : c ∈ [(0 : UInt8), 0x23, 0x2F, 0x3F, 0x40]) : c ∉ l.address.text :=
    Address.not_mem_text hc
  have hfree : 0 ∉ gsubSlash (l.info query) :=
    zero_not_mem_gsubSlash (not_mem_info (by decide) hzero)
  show Search.split [0x3F] (stripNul _) = _
  rw [stripNul_eq_self hfree]
  cases query with
  | none =>
    have hinfo : l.info none = l.hostPort := by
      unfold info hostPort
      simp only [hnone.mp rfl, and_true, Option.elim_none, List.append_nil]
    have hquestion : 0x3F ∉ l.hostPort := by
      unfold hostPort
      rw [List.mem_append, not_or]
      refine ⟨hclean _ (by decide), ?_⟩
      split
      · decide
      · exact List.not_mem_nil
    have hne : l.hostPort ≠ [] := fun h ↦
      l.address.text_ne_nil (List.append_eq_nil_iff.mp h).1
    rw [hinfo, gsubSlash_of_not_mem hquestion, Search.split_singleton_of_not_mem hne hquestion]
    rfl
  | some q =>
    have hsome : ¬ (l.slash = true ∧ l.query = none) := fun h ↦ absurd (hnone.mpr h.2) (by simp)
    have hgsub : gsubSlash (l.info (some q)) = l.address.text ++ 0x3F :: gsubSlash q := by
      unfold info
      cases l.slash with
      | true => exact gsubSlash_append_slash q (hclean _ (by decide))
      | false =>
        exact gsubSlash_append_question q (hclean _ (by decide)) fun hlast ↦
          hclean 0x2F (by decide) (List.mem_of_getLast? hlast)
    rw [hgsub, Search.split_cons_of_not_mem _ (hclean _ (by decide)), hostPort, if_neg hsome,
      List.append_nil]
    show _ = _ :: Search.split [0x3F] (stripNul _)
    rw [stripNul_eq_self (zero_not_mem_gsubSlash (hzero q rfl))]

variable (l) in
/-- A link is read, and its host with the port is what is taken for an authority. -/
theorem urlNames_text : InfoSafe (urlInfo l.text) ∧
    (urlNames l.text).server = (authority (ascii "443") l.hostPort).1 ∧
    (urlNames l.text).port = (authority (ascii "443") l.hostPort).2 := by
  obtain ⟨query, hinfo, hnone, hprefix⟩ := l.urlInfo_text
  have hzero : ∀ q ∈ query, 0 ∉ q := by
    intro q hq hm
    obtain ⟨q', hq', hpre⟩ := hprefix q hq
    exact (l.query_clean q' hq').1 (hpre.subset hm)
  have hsplit := split_info query hnone hzero
  unfold urlNames InfoSafe
  rw [hinfo, Option.getD_some, hsplit]
  refine ⟨⟨fun h ↦ l.address.text_ne_nil (List.append_eq_nil_iff.mp h).1, ?_⟩, rfl, rfl⟩
  rw [List.getElem?_cons_succ]
  cases query with
  | none => exact fun v hv ↦ absurd hv List.not_mem_nil
  | some q =>
    obtain ⟨q', hq', hpre⟩ := hprefix q rfl
    rw [Option.elim_some, ← List.head?_eq_getElem?]
    cases hhead : (split (some (gsubSlash q)) (ascii "?")).head? with
    | none => exact fun v hv ↦ absurd hv List.not_mem_nil
    | some v =>
      obtain ⟨hclean, -, hkeys⟩ := l.query_clean q' hq'
      exact hkeys.prefix hclean ((prefix_of_head?_split (hzero q rfl) hhead).trans hpre)

/-- The address of a link is read for what it is: no IPv6 address goes without a port, and no `/`
without a query. -/
def Kept : Prop :=
  (l.address.port.isSome ∨ ¬ l.address.IsIpv6) ∧ ¬ (l.slash = true ∧ l.query = none)

end UrlLink

/-- An `ss` link, the text before its plugin being all or in part in base64: it decodes to
`user@host[:port][/]`, and the user information to `method:password`. Behind it stands
`[/?plugin][#remark]`. -/
structure SsLink (env : Env) where
  info : Bytes
  user : Bytes
  address : Address
  slash : Bool
  plugin : Option Bytes
  remark : Option Bytes
  info_clean : ∀ c ∈ [(0 : UInt8), 0x23, 0x3F], c ∉ info
  user_clean : 0 ∉ user
  decodes : base64Decode env (some info) =
    user ++ 0x40 :: (address.text ++ if slash then [0x2F] else [])
  method : 0x3A ∈ ssUserinfo env (split (some (base64Decode env (some info))) (ascii "@"))
  plugin_clean : ∀ q ∈ plugin, 0 ∉ q ∧ 0x23 ∉ q ∧ HasKeys (some q)

namespace SsLink
variable {env : Env} (l : SsLink env)

/-- The link before its remark. -/
def body : Bytes := l.info ++ l.plugin.elim [] (ascii "/?" ++ ·)

/-- The link without its scheme. -/
def text : Bytes := l.body ++ l.remark.elim [] (0x23 :: ·)

/-- The address of a link is read for what it is. -/
def Kept : Prop := (l.address.port.isSome ∨ ¬ l.address.IsIpv6) ∧ l.slash = false

variable {l}

theorem splitAlias_text : splitAlias l.text = (l.body, l.remark.getD []) := by
  have hfree : 0x23 ∉ l.body := by
    unfold body
    rw [List.mem_append, not_or]
    refine ⟨l.info_clean _ (by decide), ?_⟩
    cases hp : l.plugin with
    | none => exact List.not_mem_nil
    | some q =>
      rw [Option.elim_some, List.mem_append, not_or]
      exact ⟨by decide, (l.plugin_clean q hp).2.1⟩
  unfold text
  cases hr : l.remark with
  | none => rw [Option.elim_none, List.append_nil, splitAlias_of_not_mem hfree, Option.getD_none]
  | some r => rw [Option.elim_some, splitAlias_append r hfree, Option.getD_some]

/-- There is no `/?` before the plugin. -/
theorem not_infix_info : ¬ ascii "/?" <:+: l.info ++ (ascii "/?").dropLast := by
  intro h
  have hmem : (0x3F : UInt8) ∈ l.info ++ (ascii "/?").dropLast := h.subset (by decide)
  rw [List.mem_append] at hmem
  exact hmem.elim (l.info_clean _ (by decide)) (by decide)

theorem ssInfo_text : ssInfo l.text = l.info := by
  unfold ssInfo
  rw [splitAlias_text]
  unfold body
  cases l.plugin with
  | none =>
    have hfree : ¬ ascii "/?" <:+: l.info := fun h ↦
      not_infix_info (h.trans (List.prefix_append _ _).isInfix)
    rw [Option.elim_none, List.append_nil]
    simp only [Search.find?_of_not_infix hfree]
  | some q =>
    have hfind := Search.find?_append_sep q (not_infix_info (l := l))
    rw [List.append_assoc] at hfind
    simp only [Option.elim_some, hfind, List.take_left]

/-- A link is read. -/
theorem ssSafe_text : SsSafe env l.text := by
  refine ⟨fun hfind ↦ ?_, fun _ ↦ ?_⟩
  · rw [splitAlias_text] at hfind ⊢
    cases hp : l.plugin with
    | none =>
      have hfree : ¬ ascii "/?" <:+: l.info := fun h ↦
        not_infix_info (h.trans (List.prefix_append _ _).isInfix)
      simp only [body, hp, Option.elim_none, List.append_nil] at hfind
      exact absurd (Search.find?_of_not_infix hfree) hfind
    | some q =>
      obtain ⟨hzero, -, hkeys⟩ := l.plugin_clean q hp
      have hbody : 0 ∉ l.info ++ ascii "/?" ++ q := by
        rw [List.mem_append, List.mem_append, not_or, not_or]
        exact ⟨⟨l.info_clean _ (by decide), by decide⟩, hzero⟩
      simp only [body, hp, Option.elim_some]
      rw [← List.append_assoc]
      show HasKeys (Search.split (ascii "/?") (stripNul _))[1]?
      rw [stripNul_eq_self hbody, Search.split_append_sep q not_infix_info,
        List.getElem?_cons_succ]
      by_cases hnil : q = []
      · rw [hnil]
        exact fun v hv ↦ absurd hv List.not_mem_nil
      · have hsep : ascii "/?" ≠ [] := by decide
        obtain ⟨r, hr⟩ := Search.exists_split_eq hsep hnil
        rw [hr]
        exact hkeys.prefix hzero (Search.before_start _ q)
  · unfold ssHostInfo
    rw [ssInfo_text]
    exact l.method

/-- The last piece around `@` of what the link decodes to. -/
theorem ssNames_text :
    let hostPort := l.address.text ++ if l.slash then [0x2F] else []
    (ssNames env l.text).server = (authority (ascii "1080") hostPort).1 ∧
      (ssNames env l.text).port = (authority (ascii "1080") hostPort).2 := by
  intro hostPort
  have hclean (c : UInt8) (hc : c ∈ [(0 : UInt8), 0x40]) : c ∉ hostPort := by
    have haddress : c ∉ l.address.text := by
      apply Address.not_mem_text
      simp only [List.mem_cons, List.not_mem_nil, or_false] at hc ⊢
      obtain rfl | rfl := hc <;> simp
    rw [List.mem_append, not_or]
    refine ⟨haddress, ?_⟩
    split
    · simp only [List.mem_cons, List.not_mem_nil, or_false] at hc
      obtain rfl | rfl := hc <;> decide
    · exact List.not_mem_nil
  have hne : hostPort ≠ [] := fun h ↦ l.address.text_ne_nil (List.append_eq_nil_iff.mp h).1
  have hzero : 0 ∉ l.user ++ 0x40 :: hostPort := by
    rw [List.mem_append, List.mem_cons, not_or, not_or]
    exact ⟨l.user_clean, by decide, hclean 0 (by decide)⟩
  have hlast : (ssHostInfo env l.text).getLast? = some hostPort := by
    unfold ssHostInfo
    rw [ssInfo_text, l.decodes]
    show (Search.split [0x40] (stripNul _)).getLast? = _
    rw [stripNul_eq_self hzero]
    exact Search.getLast?_split _ hne (hclean 0x40 (by decide))
  unfold ssNames
  rw [hlast]
  exact ⟨rfl, rfl⟩

end SsLink

/-! ### The three parsers -/

theorem UrlLink.authority_iff (l : UrlLink) :
    authority (ascii "443") l.hostPort =
      (.str l.address.host, .str (l.address.portOr (ascii "443"))) ↔ l.Kept := by
  unfold UrlLink.hostPort UrlLink.Kept
  by_cases hslash : l.slash = true ∧ l.query = none
  · rw [if_pos hslash]
    exact iff_of_false (Address.authority_slash (by decide)) fun h ↦ h.2 hslash
  · rw [if_neg hslash, List.append_nil, Address.authority_text_iff (by decide)]
    exact ⟨fun h ↦ ⟨h, hslash⟩, fun h ↦ h.1⟩

theorem SsLink.authority_iff {env : Env} (l : SsLink env) :
    authority (ascii "1080") (l.address.text ++ if l.slash then [0x2F] else []) =
      (.str l.address.host, .str (l.address.portOr (ascii "1080"))) ↔ l.Kept := by
  unfold SsLink.Kept
  cases l.slash with
  | true => exact iff_of_false (Address.authority_slash (by decide)) fun h ↦ absurd h.2 (by decide)
  | false =>
    simp only [Bool.false_eq_true, if_false, List.append_nil, and_true]
    exact Address.authority_text_iff (by decide)

/-- A parser that returns reads what it takes for an authority. -/
theorem reads_iff {default : Bytes} {a : Address} {node : Except LuaError Table} {p : Value × Value}
    (hreturns : Returns node)
    (hnode : ∀ t, node = .ok t → t.get "server" = p.1 ∧ t.get "server_port" = p.2) :
    Reads default a node ↔ p = (.str a.host, .str (a.portOr default)) := by
  constructor
  · rintro ⟨t, ht, hserver, hport⟩
    obtain ⟨h₁, h₂⟩ := hnode t ht
    exact Prod.ext (h₁.symm.trans hserver) (h₂.symm.trans hport)
  · rintro rfl
    obtain ⟨t, ht⟩ := hreturns
    exact ⟨t, ht, hnode t ht⟩

end OpenWrtCompile.Subscribe
