import OpenWrtCompile.Ddns.Zone

/-!
# The host before a zone

`__HOST` of `update_aliyun_com.sh:161–162` and `update_dnspod.sh:138–139`: what `sed` leaves of the
domain, and `@` where that is no word for `[`.
-/

namespace OpenWrtCompile.Ddns
open OpenWrtCompile.Base

/-- `__HOST`: the domain without the zone and without a last dot, or `@`. -/
def hostOf (sh : Shell) (d z : Bytes) : Bytes :=
  let host := stripDot (sedDelete z (echo sh d))
  if test sh host then host else [0x40]

/-- The right host: `@` for the zone itself, and otherwise what stands before the zone's dot. -/
def RightHost (d z host : Bytes) : Prop :=
  (z = d ∧ host = [0x40]) ∨ (z ≠ d ∧ host ++ 0x2E :: z = d)

/-- Where a host stands before zone `z`: no file has changed the domain, the zone matches nowhere
earlier, and `[` takes the host for a non-empty word. -/
def HostSafe (sh : Shell) (d z : Bytes) : Prop :=
  z = d ∨ (echo sh d = d ∧ sedIndex z d = some (d.length - z.length) ∧
    test sh (d.take (d.length - z.length - 1)) = true)

/-- What `sed` leaves of a line that ends with a zone: what stands before the dot, if the zone is
found there, and otherwise a line that is one byte longer. -/
theorem strip_sedDelete {z w : Bytes} (hne : z ≠ []) (hlast : z.getLast? ≠ some 0x2E) :
    (sedIndex z (w ++ 0x2E :: z) = some (w.length + 1) ∧
        stripDot (sedDelete z (w ++ 0x2E :: z)) = w) ∨
      (sedIndex z (w ++ 0x2E :: z) ≠ some (w.length + 1) ∧
        (stripDot (sedDelete z (w ++ 0x2E :: z))).length = w.length + 1) := by
  have hlen : (w ++ 0x2E :: z).length = w.length + 1 + z.length := by
    simp only [List.length_append, List.length_cons]
    omega
  have hdrop : (w ++ 0x2E :: z).drop (w.length + 1) = z := by
    rw [List.drop_length_add_append]
    rfl
  have hfits : w.length + 1 ≤ (w ++ 0x2E :: z).length := by omega
  rcases sedIndex_le hfits (by rw [hdrop]; exact dotMatch_self z) with ⟨i, hi, hle⟩
  have hdel : sedDelete z (w ++ 0x2E :: z) =
      (w ++ 0x2E :: z).take i ++ (w ++ 0x2E :: z).drop (i + z.length) := by
    unfold sedDelete
    rw [hi]
  rcases Nat.eq_or_lt_of_le hle with heq | hlt
  · left
    subst heq
    refine ⟨hi, ?_⟩
    have htake : (w ++ 0x2E :: z).take (w.length + 1) = w ++ [0x2E] := by
      rw [List.take_length_add_append]
      rfl
    rw [hdel, htake, ← hlen, List.drop_length, List.append_nil]
    unfold stripDot
    rw [List.getLast?_append]
    simp
  · right
    refine ⟨fun hc ↦ by rw [hi] at hc; cases hc; omega, ?_⟩
    -- what is left ends as the zone does, so no dot is taken off
    have hkeep : (sedDelete z (w ++ 0x2E :: z)).getLast? ≠ some 0x2E := by
      rw [hdel]
      have hrest : (w ++ 0x2E :: z).drop (i + z.length) ≠ [] := by
        intro hnil
        have := congrArg List.length hnil
        rw [List.length_drop, List.length_nil] at this
        omega
      rw [List.getLast?_append_of_ne_nil _ hrest, List.getLast?_drop]
      rw [if_neg (by omega)]
      rw [List.getLast?_append_of_ne_nil _ (List.cons_ne_nil _ _), List.getLast?_cons_of_ne_nil hne]
      exact hlast
    unfold stripDot
    rw [if_neg hkeep, hdel, List.length_append, List.length_take, List.length_drop, hlen]
    omega

/-- The zone itself has no `*`, so no file changes it. -/
theorem echo_apex (sh : Shell) (d : DomainName) (z : ZoneName) (h : z.bytes = d.bytes) :
    echo sh d.bytes = d.bytes := by
  rcases echo_domain sh d with hsame | ⟨r, u, hd, -, -⟩
  · exact hsame
  · rcases isName_spec z.valid with ⟨-, hstar, -, -, -, -⟩
    exact absurd (by rw [h, hd]; exact List.mem_cons_self) hstar

/-- The zone itself leaves nothing, and the host is `@`. -/
theorem hostOf_apex (sh : Shell) (d : DomainName) (z : ZoneName) (h : z.bytes = d.bytes) :
    hostOf sh d.bytes z.bytes = [0x40] := by
  have hcut : sedDelete d.bytes d.bytes = [] := by
    rcases sedIndex_le (Nat.zero_le _) (dotMatch_self d.bytes) with ⟨i, hi, hle⟩
    unfold sedDelete
    rw [hi, Nat.le_zero.mp hle]
    simp only [Nat.zero_add, List.drop_length, List.take_zero, List.append_nil]
  unfold hostOf
  rw [echo_apex sh d z h, h, hcut]
  rfl

/-- Below a zone the host is the part before the dot if and only if the line is the domain, the zone
is found at its end, and `[` takes that part for a word. -/
theorem hostOf_below (sh : Shell) (d : DomainName) (z : ZoneName) (p : Bytes)
    (hp : p ++ 0x2E :: z.bytes = d.bytes) :
    hostOf sh d.bytes z.bytes = p ↔
      echo sh d.bytes = d.bytes ∧ sedIndex z.bytes d.bytes = some (p.length + 1) ∧
        test sh p = true := by
  rcases isName_spec z.valid with ⟨hne, hstar, -, -, -, hlast⟩
  constructor
  · intro hhost
    -- the domain has no `@`, so the host is what `sed` left
    have hcut : stripDot (sedDelete z.bytes (echo sh d.bytes)) = p ∧ test sh p = true := by
      unfold hostOf at hhost
      simp only at hhost
      split at hhost
      · next ht =>
        rw [hhost] at ht
        exact ⟨hhost, ht⟩
      · have hat : (0x40 : UInt8) ∈ d.bytes := by
          rw [← hp, ← hhost]
          exact List.mem_append_left _ List.mem_cons_self
        exact absurd hat d.plain.2.2
    rcases hcut with ⟨hcut, ht⟩
    rcases zone_ends_line sh d z (.inr ⟨p, hp⟩) with ⟨hz, -⟩ | ⟨w, hw, hsame⟩
    · have := congrArg List.length hp
      rw [hz, List.length_append, List.length_cons] at this
      omega
    · rw [hw] at hcut
      rcases strip_sedDelete (w := w) hne hlast with ⟨hi, hwp⟩ | ⟨-, hlonger⟩
      · have heq : w = p := hwp.symm.trans hcut
        rw [heq, hp] at hw hi
        exact ⟨hw, hi, ht⟩
      · rw [hcut] at hlonger
        have hd := congrArg List.length hp
        have hl := congrArg List.length hw
        rw [List.length_append, List.length_cons] at hd hl
        exfalso
        rcases hsame with hsame | hlt
        · rw [hsame] at hl
          omega
        · omega
  · rintro ⟨hsame, hi, ht⟩
    have hcut : stripDot (sedDelete z.bytes (echo sh d.bytes)) = p := by
      rw [← hp] at hi
      rw [hsame, ← hp]
      rcases strip_sedDelete (w := p) hne hlast with ⟨-, hcut⟩ | ⟨hno, -⟩
      · exact hcut
      · exact absurd hi hno
    unfold hostOf
    simp only [hcut, ht, if_true]

/-- The host is the right one if and only if it is safe there. -/
theorem hostOf_iff (sh : Shell) (d : DomainName) (z : ZoneName) (h : IsZoneOf z.bytes d.bytes) :
    RightHost d.bytes z.bytes (hostOf sh d.bytes z.bytes) ↔ HostSafe sh d.bytes z.bytes := by
  by_cases heq : z.bytes = d.bytes
  · exact iff_of_true (.inl ⟨heq, hostOf_apex sh d z heq⟩) (.inl heq)
  rcases h with hz | ⟨p, hp⟩
  · exact absurd hz heq
  have hlen : d.bytes.length = p.length + 1 + z.bytes.length := by
    rw [← hp]
    simp only [List.length_append, List.length_cons]
    omega
  have htake : d.bytes.take (d.bytes.length - z.bytes.length - 1) = p := by
    have hn : d.bytes.length - z.bytes.length - 1 = p.length := by omega
    rw [hn, ← hp, List.take_left]
  have hindex : d.bytes.length - z.bytes.length = p.length + 1 := by omega
  unfold RightHost HostSafe
  rw [htake, hindex, ← hostOf_below sh d z p hp]
  constructor
  · rintro (⟨hz, -⟩ | ⟨-, hhost⟩)
    · exact absurd hz heq
    · exact .inr (List.append_cancel_right (hhost.trans hp.symm))
  · rintro (hz | hhost)
    · exact absurd hz heq
    · rw [hhost]
      exact .inr ⟨heq, hp⟩

end OpenWrtCompile.Ddns
