import OpenWrtCompile.Ddns.Host

/-!
# `describe_domain` of the DDNS scripts

`update_aliyun_com.sh:150–162`, `update_dnspod.sh:127–139`, `update_huawei.sh:116–128` and
`update_cloudflare_com_v4.sh:111–124`, and when each of them finds the zone and the name that the
configured domain has.
-/

namespace OpenWrtCompile.Ddns
open OpenWrtCompile.Base

/-- `describe_domain` up to the host; `none` is the exit for an invalid domain. -/
def describeHost (sh : Shell) (d : DomainName) (zones : List ZoneName) : Option (ZoneName × Bytes) :=
  (findZone sh d.bytes zones).map fun z ↦ (z, hostOf sh d.bytes z.bytes)

/-- `describe_domain` of `update_aliyun_com.sh`. -/
def Aliyun.describeDomain (sh : Shell) (d : DomainName) (zones : List ZoneName) :
    Option (ZoneName × Bytes) := describeHost sh d zones

/-- `describe_domain` of `update_dnspod.sh`. -/
def Dnspod.describeDomain (sh : Shell) (d : DomainName) (zones : List ZoneName) :
    Option (ZoneName × Bytes) := describeHost sh d zones

/-- The loop of `update_huawei.sh` from index `n` on: the names come with a last dot, which `sed`
takes off. -/
def Huawei.findZone (sh : Shell) (d : Bytes) : Nat → List Bytes → Option (Bytes × Nat)
  | _, [] => none
  | n, raw :: raws =>
    if grepWord (stripDot raw) (echo sh d) then some (stripDot raw, n)
    else Huawei.findZone sh d (n + 1) raws

/-- `describe_domain` of `update_huawei.sh`: the zone, and the id at the index of its name. -/
def Huawei.describeDomain (sh : Shell) (d : DomainName) (zones : List (ZoneName × Bytes)) :
    Option (Bytes × Option Bytes) :=
  (Huawei.findZone sh d.bytes 0 (zones.map fun z ↦ z.1.bytes ++ [0x2E])).map fun r ↦
    (r.1, (zones.map Prod.snd)[r.2]?)

/-- `sed 's/@/./'`. -/
def sedAt (line : Bytes) : Bytes :=
  match line.idxOf? 0x40 with
  | some i => line.take i ++ 0x2E :: line.drop (i + 1)
  | none => line

/-- `describe_domain` of `update_cloudflare_com_v4.sh`: the zone, and the name of the record. -/
def Cloudflare.describeDomain (sh : Shell) (d : DomainName) (zones : List ZoneName) :
    Option (ZoneName × Bytes) :=
  (Ddns.findZone sh d.bytes zones).map fun z ↦ (z, sedAt (echo sh d.bytes))

/-- The right target: the longest zone with the right host, and none if there is no zone. -/
def RightTarget (zones : List ZoneName) (d : Bytes) : Option (ZoneName × Bytes) → Prop
  | some (z, host) => IsLongest zones d z ∧ RightHost d z.bytes host
  | none => ∀ z ∈ zones, ¬ IsZoneOf z.bytes d

/-- The right record of `update_huawei.sh`: the longest zone under its own id. -/
def RightRecord (zones : List (ZoneName × Bytes)) (d : Bytes) : Option (Bytes × Option Bytes) → Prop
  | some (name, id) =>
    ∃ z, (z, id) ∈ zones.map (fun r ↦ (r.1, some r.2)) ∧ z.bytes = name ∧
      IsLongest (zones.map Prod.fst) d z
  | none => ∀ r ∈ zones, ¬ IsZoneOf r.1.bytes d

/-- The right name of `update_cloudflare_com_v4.sh`: the longest zone, and the domain itself. -/
def RightName (zones : List ZoneName) (d : Bytes) : Option (ZoneName × Bytes) → Prop
  | some (z, name) => IsLongest zones d z ∧ name = d
  | none => ∀ z ∈ zones, ¬ IsZoneOf z.bytes d

/-- Zone and host are right if and only if no zone goes before the longest one by mistake and the
host is safe before it. -/
theorem describeHost_iff (sh : Shell) (d : DomainName) (zones : List ZoneName) :
    RightTarget zones d.bytes (describeHost sh d zones) ↔
      NoStray sh zones d.bytes ∧ ∀ z, IsLongest zones d.bytes z → HostSafe sh d.bytes z.bytes := by
  rw [← findZone_iff]
  unfold describeHost
  cases findZone sh d.bytes zones with
  | none =>
    simp only [Option.map_none, RightTarget, PicksZone]
    exact ⟨fun h ↦ ⟨h, fun z hz ↦ absurd hz.2.1 (h z hz.1)⟩, fun h ↦ h.1⟩
  | some z =>
    simp only [Option.map_some, RightTarget, PicksZone]
    constructor
    · rintro ⟨hz, hhost⟩
      refine ⟨hz, ?_⟩
      intro y hy
      rw [hy.unique hz]
      exact (hostOf_iff sh d z hz.2.1).mp hhost
    · rintro ⟨hz, hsafe⟩
      exact ⟨hz, (hostOf_iff sh d z hz.2.1).mpr (hsafe z hz)⟩

/-- `sed` takes the dot off a name that the API gives with one. -/
theorem stripDot_append (n : Bytes) : stripDot (n ++ [0x2E]) = n := by
  unfold stripDot
  rw [if_pos (by simp), List.dropLast_concat]

/-- The loop of `update_huawei.sh` finds the zone with the id of its own record. -/
theorem Huawei.describeDomain_eq (sh : Shell) (d : DomainName) (zones : List (ZoneName × Bytes)) :
    Huawei.describeDomain sh d zones =
      (zones.find? fun r ↦ grepWord r.1.bytes (echo sh d.bytes)).map
        fun r ↦ (r.1.bytes, some r.2) := by
  have key : ∀ before after : List (ZoneName × Bytes),
      (Huawei.findZone sh d.bytes before.length (after.map fun z ↦ z.1.bytes ++ [0x2E])).map
          (fun r ↦ (r.1, ((before ++ after).map Prod.snd)[r.2]?)) =
        (after.find? fun r ↦ grepWord r.1.bytes (echo sh d.bytes)).map
          fun r ↦ (r.1.bytes, some r.2) := by
    intro before after
    induction after generalizing before with
    | nil => rfl
    | cons r after ih =>
      simp only [List.map_cons, Huawei.findZone, stripDot_append, List.find?_cons]
      cases grepWord r.1.bytes (echo sh d.bytes) with
      | true => simp
      | false =>
        have := ih (before ++ [r])
        rw [List.length_append, List.append_assoc] at this
        exact this
  exact key [] zones

/-- Zone and id are right if and only if no zone goes before the longest one by mistake. -/
theorem Huawei.describeDomain_iff (sh : Shell) (d : DomainName) (zones : List (ZoneName × Bytes)) :
    RightRecord zones d.bytes (Huawei.describeDomain sh d zones) ↔
      NoStray sh (zones.map Prod.fst) d.bytes := by
  rw [Huawei.describeDomain_eq, ← findZone_iff]
  unfold Ddns.findZone
  rw [List.find?_map]
  have hcomp : ((fun z : ZoneName ↦ grepWord z.bytes (echo sh d.bytes)) ∘ Prod.fst) =
      fun r : ZoneName × Bytes ↦ grepWord r.1.bytes (echo sh d.bytes) := rfl
  rw [hcomp]
  cases hf : zones.find? fun r ↦ grepWord r.1.bytes (echo sh d.bytes) with
  | none =>
    simp only [Option.map_none, RightRecord, PicksZone, List.forall_mem_map]
  | some r =>
    simp only [Option.map_some, RightRecord, PicksZone]
    constructor
    · rintro ⟨z, -, hz, hlong⟩
      have hzr : z = r.1 := by
        cases z
        cases hr : r.1
        rw [hr] at hz
        simpa using hz
      rw [← hzr]
      exact hlong
    · intro hlong
      exact ⟨r.1, List.mem_map.mpr ⟨r, List.mem_of_find?_eq_some hf, rfl⟩, rfl, hlong⟩

/-- Without an `@` in the line `sed 's/@/./'` changes nothing. -/
theorem sedAt_of_no_at {line : Bytes} (h : (0x40 : UInt8) ∉ line) : sedAt line = line := by
  unfold sedAt
  rw [List.idxOf?_eq_none_iff.mpr h]

/-- The name of the record is the domain if and only if no file has changed it. -/
theorem sedAt_echo_iff (sh : Shell) (d : DomainName) :
    sedAt (echo sh d.bytes) = d.bytes ↔ echo sh d.bytes = d.bytes := by
  constructor
  · intro h
    rcases echo_domain sh d with hsame | ⟨r, u, hd, hline, hu⟩
    · exact hsame
    have hr : (0x40 : UInt8) ∉ r := by
      intro hmem
      apply d.plain.2.2
      rw [hd]
      exact List.mem_cons_of_mem _ (List.mem_cons_of_mem _ hmem)
    cases hat : (echo sh d.bytes).idxOf? 0x40 with
    | none => rwa [sedAt, hat] at h
    | some i =>
      exfalso
      rw [sedAt, hat, hline, hd] at h
      rw [hline] at hat
      have hmem := List.isSome_idxOf?.mp (by rw [hat]; rfl)
      have hi := List.idxOf?_eq_some_iff.mp hat
      rcases hi with ⟨hlt, -, -⟩
      -- as long as the domain, the line is one byte before the dot, and that byte is the `@`
      have hlen := congrArg List.length h
      simp only [List.length_append, List.length_cons, List.length_take, List.length_drop] at hlen hlt
      have hupos := List.length_pos_iff.mpr hu
      have hone : u.length = 1 := by omega
      rcases List.length_eq_one_iff.mp hone with ⟨c, hc⟩
      subst hc
      simp only [List.cons_append, List.nil_append, List.mem_cons] at hmem
      rcases hmem with hc | hdot | hmem
      · rw [← hc] at h hat
        simp only [List.cons_append, List.nil_append, List.idxOf?_cons, beq_self_eq_true, if_true,
          Option.some.injEq] at hat
        rw [← hat] at h
        simp at h
      · cases hdot
      · exact hr hmem
  · intro h
    rw [h]
    exact sedAt_of_no_at d.plain.2.2

/-- Zone and name are right if and only if no zone goes before the longest one by mistake and no file
has changed the domain. -/
theorem Cloudflare.describeDomain_iff (sh : Shell) (d : DomainName) (zones : List ZoneName) :
    RightName zones d.bytes (Cloudflare.describeDomain sh d zones) ↔
      NoStray sh zones d.bytes ∧
        ∀ z, IsLongest zones d.bytes z → echo sh d.bytes = d.bytes := by
  rw [← findZone_iff]
  unfold Cloudflare.describeDomain
  cases findZone sh d.bytes zones with
  | none =>
    simp only [Option.map_none, RightName, PicksZone]
    exact ⟨fun h ↦ ⟨h, fun z hz ↦ absurd hz.2.1 (h z hz.1)⟩, fun h ↦ h.1⟩
  | some z =>
    simp only [Option.map_some, RightName, PicksZone, sedAt_echo_iff]
    exact ⟨fun h ↦ ⟨h.1, fun _ _ ↦ h.2⟩, fun h ↦ ⟨h.1, h.2 z h.1⟩⟩

end OpenWrtCompile.Ddns
