import OpenWrtCompile.Ddns.Shell
import Mathlib.Data.List.TakeWhile

/-!
# Zone selection of the DDNS scripts

The loop over the zones that the four `describe_domain` share (`update_aliyun_com.sh:152–154`,
`update_dnspod.sh:129–131`, `update_cloudflare_com_v4.sh:113–115`, and with an index
`update_huawei.sh:118–122`): the first zone, in the order of the API, that `grep -w` finds in the
domain is taken.
-/

namespace OpenWrtCompile.Ddns
open OpenWrtCompile.Base

/-- A byte of a host label. -/
def isLabelByte (c : UInt8) : Bool :=
  (0x61 ≤ c && c ≤ 0x7A) || (0x41 ≤ c && c ≤ 0x5A) || (0x30 ≤ c && c ≤ 0x39) || c = 0x5F || c = 0x2D

/-- Labels of letters, digits, `_` and `-`, joined by single dots. -/
def isName (n : Bytes) : Bool :=
  n ≠ [] && n.all (fun c ↦ isLabelByte c || c = 0x2E) && n.head? ≠ some 0x2E && n.head? ≠ some 0x2D &&
    n.getLast? ≠ some 0x2E && (Search.find? [0x2E, 0x2E] n).isNone

/-- A zone as the API names it. -/
structure ZoneName where
  bytes : Bytes
  valid : isName bytes = true
  deriving DecidableEq

/-- A configured domain: a name, or `*.` and a name. -/
def isDomain (d : Bytes) : Bool :=
  match d with
  | 0x2A :: 0x2E :: r => isName r
  | _ => isName d

/-- A configured domain. -/
structure DomainName where
  bytes : Bytes
  valid : isDomain bytes = true
  deriving DecidableEq

/-- The loop over the zones: the first one that stands as a word in `echo $domain`. -/
def findZone (sh : Shell) (d : Bytes) (zones : List ZoneName) : Option ZoneName :=
  zones.find? fun z ↦ grepWord z.bytes (echo sh d)

/-- The zone is the domain or a suffix of it behind a dot. -/
def IsZoneOf (z d : Bytes) : Prop := z = d ∨ 0x2E :: z <:+ d

instance (z d : Bytes) : Decidable (IsZoneOf z d) := inferInstanceAs (Decidable (_ ∨ _))

/-- The longest zone of the list that is the domain or a suffix of it. -/
def IsLongest (zones : List ZoneName) (d : Bytes) (z : ZoneName) : Prop :=
  z ∈ zones ∧ IsZoneOf z.bytes d ∧
    ∀ y ∈ zones, IsZoneOf y.bytes d → y.bytes.length ≤ z.bytes.length

instance (zones : List ZoneName) (d : Bytes) (z : ZoneName) : Decidable (IsLongest zones d z) :=
  inferInstanceAs (Decidable (_ ∧ _ ∧ ∀ y ∈ zones, _))

/-- The right choice: the longest zone of the domain, and none if there is no zone of it. -/
def PicksZone (zones : List ZoneName) (d : Bytes) : Option ZoneName → Prop
  | some z => IsLongest zones d z
  | none => ∀ z ∈ zones, ¬ IsZoneOf z.bytes d

/-- No zone before the longest zone of the domain, and none at all without such a zone, stands as a
word in the domain. -/
def NoStray (sh : Shell) (zones : List ZoneName) (d : Bytes) : Prop :=
  ∀ y ∈ zones.takeWhile fun z ↦ ¬ IsLongest zones d z, grepWord y.bytes (echo sh d) = false

/-- What the shape of a name gives: it is not empty, and neither `*`, `@` nor a blank stands in it,
nor a dot at either end. -/
theorem isName_spec {n : Bytes} (h : isName n = true) :
    n ≠ [] ∧ (0x2A : UInt8) ∉ n ∧ (0x40 : UInt8) ∉ n ∧ (0x20 : UInt8) ∉ n ∧
      n.head? ≠ some 0x2E ∧ n.getLast? ≠ some 0x2E := by
  unfold isName at h
  simp only [Bool.and_eq_true, decide_eq_true_eq, List.all_eq_true] at h
  rcases h with ⟨⟨⟨⟨⟨hne, hall⟩, hhead⟩, -⟩, hlast⟩, -⟩
  have hnot (c : UInt8) (hc : (isLabelByte c || c = 0x2E) = false) : c ∉ n := by
    intro hmem
    have := hall c hmem
    rw [hc] at this
    cases this
  exact ⟨hne, hnot _ (by decide), hnot _ (by decide), hnot _ (by decide), hhead, hlast⟩

/-- A domain is a name, or `*.` and a name. -/
theorem isDomain_spec {d : Bytes} (h : isDomain d = true) :
    isName d = true ∨ ∃ r, d = 0x2A :: 0x2E :: r ∧ isName r = true := by
  unfold isDomain at h
  split at h
  · next r => exact .inr ⟨r, rfl, h⟩
  · exact .inl h

/-- Among the elements with a property there is one of greatest measure. -/
theorem exists_max {α : Type} (l : List α) (p : α → Prop) (f : α → Nat) (h : ∃ a ∈ l, p a) :
    ∃ a ∈ l, p a ∧ ∀ b ∈ l, p b → f b ≤ f a := by
  induction l with
  | nil =>
    rcases h with ⟨a, ha, -⟩
    cases ha
  | cons c l ih =>
    by_cases hl : ∃ a ∈ l, p a
    · rcases ih hl with ⟨a, ha, hpa, hmax⟩
      by_cases hc : p c ∧ f a < f c
      · refine ⟨c, List.mem_cons_self, hc.1, ?_⟩
        intro b hb hpb
        rcases List.mem_cons.mp hb with hbc | hbl
        · rw [hbc]
        · exact Nat.le_of_lt (Nat.lt_of_le_of_lt (hmax b hbl hpb) hc.2)
      · refine ⟨a, List.mem_cons_of_mem _ ha, hpa, ?_⟩
        intro b hb hpb
        rcases List.mem_cons.mp hb with hbc | hbl
        · rw [hbc] at hpb ⊢
          by_contra hlt
          exact hc ⟨hpb, by omega⟩
        · exact hmax b hbl hpb
    · rcases h with ⟨a, ha, hpa⟩
      rcases List.mem_cons.mp ha with hac | hal
      · refine ⟨c, List.mem_cons_self, hac ▸ hpa, ?_⟩
        intro b hb hpb
        rcases List.mem_cons.mp hb with hbc | hbl
        · rw [hbc]
        · exact absurd ⟨b, hbl, hpb⟩ hl
      · exact absurd ⟨a, hal, hpa⟩ hl

/-- A domain is not empty and has neither a blank nor an `@`. -/
theorem DomainName.plain (d : DomainName) :
    d.bytes ≠ [] ∧ (0x20 : UInt8) ∉ d.bytes ∧ (0x40 : UInt8) ∉ d.bytes := by
  rcases isDomain_spec d.valid with hn | ⟨r, hr, hn⟩
  · rcases isName_spec hn with ⟨hne, -, hat, hb, -, -⟩
    exact ⟨hne, hb, hat⟩
  · rcases isName_spec hn with ⟨-, -, hat, hb, -, -⟩
    rw [hr]
    refine ⟨List.cons_ne_nil _ _, ?_, ?_⟩
    · simp only [List.mem_cons, not_or]
      exact ⟨by decide, by decide, hb⟩
    · simp only [List.mem_cons, not_or]
      exact ⟨by decide, by decide, hat⟩

/-- `echo $domain` is the domain, or, where files match a wildcard, a longer line with the same end. -/
theorem echo_domain (sh : Shell) (d : DomainName) :
    echo sh d.bytes = d.bytes ∨
      ∃ r u, d.bytes = 0x2A :: 0x2E :: r ∧ echo sh d.bytes = u ++ 0x2E :: r ∧ u ≠ [] := by
  unfold echo
  rw [expand_of_no_blank sh d.bytes d.plain.1 d.plain.2.1]
  have hself : List.intercalate [0x20] [d.bytes] = d.bytes := List.intercalate_singleton
  rcases isDomain_spec d.valid with hn | ⟨r, hr, -⟩
  · rcases isName_spec hn with ⟨-, hstar, -, -, -, -⟩
    have hhead : d.bytes.head? ≠ some 0x2A := fun h ↦ hstar (List.mem_of_head? h)
    rw [globWord_of_plain sh d.bytes hhead]
    exact .inl hself
  · rw [hr]
    rw [hr] at hself
    rcases globWord_star sh r with hg | ⟨ns, n, hg, hdot, hsuf⟩
    · rw [hg]
      exact .inl hself
    · right
      rw [hg]
      rcases hsuf with ⟨u, hu⟩
      have hne : u ≠ [] := by
        intro hnil
        rw [hnil, List.nil_append] at hu
        rw [← hu] at hdot
        exact hdot rfl
      cases ns with
      | nil =>
        refine ⟨r, u, rfl, ?_, hne⟩
        rw [hu]
        exact List.intercalate_singleton
      | cons m ns =>
        -- the line ends with the last name
        have hline : ∃ w, List.intercalate [0x20] ((m :: ns) ++ [n]) = w ++ n := by
          generalize m :: ns = ms
          induction ms with
          | nil => exact ⟨[], List.intercalate_singleton⟩
          | cons a ms ih =>
            rcases ih with ⟨w, hw⟩
            refine ⟨a ++ [0x20] ++ w, ?_⟩
            rw [List.cons_append, List.intercalate_cons_of_ne_nil (by simp), hw]
            simp only [List.append_assoc]
        rcases hline with ⟨w, hw⟩
        refine ⟨r, w ++ u, rfl, ?_, by simp [hne]⟩
        rw [hw, ← hu, List.append_assoc]

/-- A zone of the domain ends the line: it is the whole line, or stands behind a dot. -/
theorem zone_ends_line (sh : Shell) (d : DomainName) (z : ZoneName) (h : IsZoneOf z.bytes d.bytes) :
    (z.bytes = d.bytes ∧ echo sh d.bytes = d.bytes) ∨
      ∃ w, echo sh d.bytes = w ++ 0x2E :: z.bytes ∧
        (echo sh d.bytes = d.bytes ∨ d.bytes.length < (echo sh d.bytes).length + 1) := by
  rcases isName_spec z.valid with ⟨-, hstar, -, -, -, -⟩
  rcases echo_domain sh d with hsame | ⟨r, u, hd, hline, hu⟩
  · rcases h with heq | ⟨w, hw⟩
    · exact .inl ⟨heq, hsame⟩
    · right
      exact ⟨w, by rw [hsame, hw], .inl hsame⟩
  · right
    have hlen : d.bytes.length < (echo sh d.bytes).length + 1 := by
      rw [hline, hd]
      simp only [List.length_cons, List.length_append]
      have := List.length_pos_iff.mpr hu
      omega
    rcases h with heq | hsuf
    · exact absurd (by rw [heq, hd]; exact List.mem_cons_self) hstar
    · rw [hd] at hsuf
      -- the dot before the zone is not the first byte, so it lies in what the line ends with
      rw [List.suffix_cons_iff] at hsuf
      rcases hsuf with heq | ⟨w, hw⟩
      · cases heq
      · exact ⟨u ++ w, by rw [hline, List.append_assoc, hw], .inr hlen⟩

/-- A zone of the domain stands in the line as a word. -/
theorem grepWord_zone (sh : Shell) (d : DomainName) (z : ZoneName)
    (h : IsZoneOf z.bytes d.bytes) : grepWord z.bytes (echo sh d.bytes) = true := by
  rcases zone_ends_line sh d z h with ⟨heq, hsame⟩ | ⟨w, hw, -⟩
  · rw [hsame, heq]
    exact grepWord_self d.bytes
  · rw [hw]
    exact grepWord_of_suffix z.bytes w

/-- The elements before the first one with a property are those taken up to there. -/
theorem takeWhile_append_cons {α : Type} (q : α → Bool) (before after : List α) (z : α)
    (hz : q z = false) : (before ++ z :: after).takeWhile q = before.takeWhile q := by
  induction before with
  | nil => rw [List.nil_append, List.takeWhile_cons_of_neg (by rw [hz]; exact Bool.false_ne_true)]; rfl
  | cons b before ih =>
    by_cases hb : q b = true
    · rw [List.cons_append, List.takeWhile_cons_of_pos hb, List.takeWhile_cons_of_pos hb, ih]
    · rw [List.cons_append, List.takeWhile_cons_of_neg hb, List.takeWhile_cons_of_neg hb]

/-- The loop picks the right zone if and only if no other one stands as a word before it. -/
theorem findZone_iff (sh : Shell) (d : DomainName) (zones : List ZoneName) :
    PicksZone zones d.bytes (findZone sh d.bytes zones) ↔ NoStray sh zones d.bytes := by
  constructor
  · intro h y hy
    cases hf : findZone sh d.bytes zones with
    | none =>
      have := List.find?_eq_none.mp hf y (List.takeWhile_subset _ hy)
      simpa using this
    | some z =>
      rw [hf] at h
      have hz : decide (¬ IsLongest zones d.bytes z) = false := decide_eq_false fun hn ↦ hn h
      rcases List.find?_eq_some_iff_append.mp hf with ⟨-, before, after, hcat, hbefore⟩
      have hq := takeWhile_append_cons (fun z ↦ decide (¬ IsLongest zones d.bytes z)) before after z hz
      rw [← hcat] at hq
      rw [hq] at hy
      have := hbefore y (List.takeWhile_subset _ hy)
      simpa using this
  · intro h
    have htaken := List.takeWhile_append_dropWhile (p := fun z ↦ decide (¬ IsLongest zones d.bytes z))
      (l := zones)
    cases hdrop : zones.dropWhile fun z ↦ decide (¬ IsLongest zones d.bytes z) with
    | nil =>
      -- no zone of the domain is in the list
      rw [hdrop, List.append_nil] at htaken
      have hnone : findZone sh d.bytes zones = none := by
        rw [findZone, List.find?_eq_none]
        intro y hy
        have := h y (by rw [htaken]; exact hy)
        simp [this]
      rw [hnone]
      intro y hy hzone
      rcases exists_max zones (fun z ↦ IsZoneOf z.bytes d.bytes) (fun z ↦ z.bytes.length)
        ⟨y, hy, hzone⟩ with ⟨z, hz, hmax⟩
      have hall : decide (¬ IsLongest zones d.bytes z) = true :=
        List.takeWhile_eq_self_iff.mp htaken z hz
      exact of_decide_eq_true hall ⟨hz, hmax⟩
    | cons z after =>
      rw [hdrop] at htaken
      have hz : IsLongest zones d.bytes z := by
        have := List.head?_dropWhile_not (fun z ↦ decide (¬ IsLongest zones d.bytes z)) zones
        rw [hdrop] at this
        simpa using this
      have hsome : findZone sh d.bytes zones = some z := by
        rw [findZone, List.find?_eq_some_iff_append]
        refine ⟨grepWord_zone sh d z hz.2.1, _, after, htaken.symm, ?_⟩
        intro y hy
        simp [h y hy]
      rw [hsome]
      exact hz

/-- Two longest zones of a domain have one name. -/
theorem IsLongest.unique {zones : List ZoneName} {d : Bytes} {y z : ZoneName}
    (hy : IsLongest zones d y) (hz : IsLongest zones d z) : y = z := by
  have hsuffix : ∀ x : ZoneName, IsZoneOf x.bytes d → x.bytes <:+ d := by
    rintro x (hx | hx)
    · rw [hx]
    · exact (List.suffix_cons _ _).trans hx
  have hlen : y.bytes.length = z.bytes.length :=
    Nat.le_antisymm (hz.2.2 y hy.1 hy.2.1) (hy.2.2 z hz.1 hz.2.1)
  have hsub := List.suffix_of_suffix_length_le (hsuffix y hy.2.1) (hsuffix z hz.2.1) (Nat.le_of_eq hlen)
  cases y
  cases z
  simp only [ZoneName.mk.injEq]
  exact hsub.eq_of_length hlen

end OpenWrtCompile.Ddns
