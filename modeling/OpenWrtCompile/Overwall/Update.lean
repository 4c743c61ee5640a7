import OpenWrtCompile.Base.Bytes
import OpenWrtCompile.Base.Run
import OpenWrtCompile.Overwall.Ports
import Mathlib.Logic.Function.Basic

/-!
# The update of the lists

`luci-app-overwall/root/usr/share/overwall/update` (21–27, 49–109), with the script `ipset` that loads
the two sets and the parts of `etc/init.d/overwall` (279–282, 1342–1379) and of `rules` (27–38, 49–67)
that take the lists into use. A download either fails or gives the decoded content of a list.
-/

namespace OpenWrtCompile.Overwall
open OpenWrtCompile.Base

/-- The lists in `/tmp/overwall`. -/
inductive ListFile
  | ipv4 | ipv6 | gfw | dns | direct
  deriving DecidableEq, Repr

/-- A change of the list takes a restart; the two others are loaded into an ip set. -/
def ListFile.atRestart : ListFile → Bool
  | .ipv4 | .ipv6 => false
  | .gfw | .dns | .direct => true

/-- The files in `/tmp/overwall`, as far as they are there. -/
abbrev Files : Type := ListFile → Option Bytes

/-- The options that decide which lists are used: `run_mode`, `gfw_mode`, whether `lan_gm_ips` is set
and whether `dports` selects ports. -/
structure UpdateConfig where
  runMode : Option RunMode
  gfwMode : Option Nat
  lanGmIps : Bool
  dports : Bool
  deriving DecidableEq, Repr

/-- The running service: what the ip sets were last loaded with, where they are there, and the files
of the last restart. -/
structure Service where
  sets : ListFile → Option (Option Bytes)
  present : Files

/-- The content of a list that the service uses. -/
def Service.inUse (s : Service) (f : ListFile) : Option (Option Bytes) :=
  if f.atRestart then some (s.present f) else s.sets f

/-- The files, and the service while it runs. -/
structure World where
  files : Files
  service : Option Service

/-- The lists in use are those in the files. -/
def World.InStep (w : World) : Prop :=
  ∀ s, w.service = some s → ∀ f c, s.inUse f = some c → w.files f = c

namespace UpdateConfig

variable (c : UpdateConfig)

/-- `run_mode` of `/etc/init.d/overwall`. -/
def mode : RunMode := c.runMode.getD .router

/-- `gfw_mode` of `/etc/init.d/overwall` is 0. -/
def gfwOn : Bool := c.gfwMode.getD 0 = 0

/-- The mode uses the list: the tests of `stop` and of `rules` in `/etc/init.d/overwall`. -/
def needs : ListFile → Bool
  | .ipv4 => c.mode = .router || c.mode = .gfw && c.lanGmIps || c.mode = .oversea
  | .ipv6 => c.mode = .router
  | .gfw => c.mode = .gfw || c.mode = .router && c.gfwOn
  | .dns => true
  | .direct => c.mode = .router

/-- The ip sets that `rules` loads: `A` or `C` for `over_v4`, the mode for `over_v6`. -/
def loads : ListFile → Bool
  | .ipv4 =>
    c.mode = .router || c.mode = .oversea || c.lanGmIps && !(c.mode = .all && !c.dports)
  | .ipv6 => c.mode = .router
  | _ => false

/-- `start`: the service runs if no list that it needs is missing or empty; `ok` is whether the rest of
the start succeeds. -/
def start (ok : Bool) (files : Files) : Option Service :=
  if ok && [ListFile.ipv4, .ipv6, .gfw, .dns, .direct].all
      (fun f ↦ !c.needs f || (files f).any (· ≠ [])) then
    some ⟨fun f ↦ if c.loads f then some (files f) else none, files⟩
  else none

/-- `restart`: `stop` removes the lists that the mode does not use. -/
def restart (ok : Bool) (w : World) : World :=
  let files : Files := fun f ↦ if c.needs f then w.files f else none
  ⟨files, c.start ok files⟩

/-- The lists that `update` fetches, in its order. An unset `gfw_mode` makes the test with `!` true. -/
def fetched : List ListFile :=
  (if c.runMode = some .router ∨ (c.runMode = some .gfw ∧ c.lanGmIps = true) ∨
      c.runMode = some .oversea then [.ipv4] else []) ++
  (if c.runMode = some .router then [.ipv6] else []) ++
  (if c.runMode = some .gfw ∨ (c.runMode = some .router ∧ c.gfwMode = none) then [.gfw] else []) ++
  [.dns] ++
  (if c.runMode = some .router then [.direct] else [])

end UpdateConfig

/-- What a run of `update` meets: whether a lock or the authorization ends it at once, what each
download gives, and whether a start that it makes succeeds. -/
structure UpdateRun where
  refused : Bool
  down : ListFile → Option Bytes
  ok : Bool

/-- A run of `update` on its way, with `$R`. -/
structure Pass where
  world : World
  r : Bool

/-- `ipset list … && $DIR/ipset`: the set is loaded again, if it is there. -/
def Service.reload (s : Service) (f : ListFile) (content : Option Bytes) : Service :=
  { s with sets := fun g ↦ if g = f then (s.sets f).map fun _ ↦ content else s.sets g }

/-- One list. A failed download ends the run through `clean`; a list that has changed is copied, and
`--First` leaves it at that. -/
def fetch (first : Bool) (down : ListFile → Option Bytes) (p : Pass) (f : ListFile) :
    Except Pass Pass :=
  match down f with
  | none => .error p
  | some new =>
    if p.world.files f = some new then .ok p
    else
      let files := Function.update p.world.files f (some new)
      if first then .ok ⟨⟨files, p.world.service⟩, p.r⟩
      else if f.atRestart then .ok ⟨⟨files, p.world.service⟩, true⟩
      else .ok ⟨⟨files, p.world.service.map fun s ↦ s.reload f (some new)⟩, p.r⟩

/-- `update`. -/
def update (c : UpdateConfig) (first : Bool) (w : World) (run : UpdateRun) : World :=
  if run.refused then w
  else
    match c.fetched.foldlM (fetch first run.down) ⟨w, false⟩ with
    | .error p => p.world
    | .ok p =>
      let w := if p.r then c.restart run.ok p.world else p.world
      if first && w.service.isNone then ⟨w.files, c.start run.ok w.files⟩ else w

/-! ## One run -/

/-- A service that has just started uses the lists in the files. -/
theorem inStep_start (c : UpdateConfig) (ok : Bool) (files : Files) :
    World.InStep ⟨files, c.start ok files⟩ := by
  intro s hs f content hf
  simp only [UpdateConfig.start] at hs
  split at hs
  · cases hs
    unfold Service.inUse at hf
    split at hf
    · exact Option.some.inj hf
    · simp only at hf
      split at hf
      · exact Option.some.inj hf
      · cases hf
  · cases hs

/-- What a run of an update has done once the lists `done` are through: they are in the files, the sets
are loaded with them, and `$R` is set if a list that waits for a restart has changed. -/
structure Through (w : World) (down : ListFile → Option Bytes) (done : List ListFile) (p : Pass) :
    Prop where
  got : ∀ f ∈ done, p.world.files f = down f
  kept : ∀ f, f ∉ done → p.world.files f = w.files f
  service : p.world.service.isSome = w.service.isSome
  inUse : ∀ s s', w.service = some s → p.world.service = some s' → ∀ f,
    if f.atRestart then s'.inUse f = s.inUse f
    else ∀ content, s'.inUse f = some content → p.world.files f = content
  r : p.r = true ↔ ∃ f ∈ done, f.atRestart = true ∧ w.files f ≠ down f

/-- Nothing is done at the start. -/
theorem through_nil {w : World} (hw : w.InStep) (down : ListFile → Option Bytes) :
    Through w down [] ⟨w, false⟩ where
  got _ h := absurd h List.not_mem_nil
  kept _ _ := rfl
  service := rfl
  inUse s s' hs hs' f := by
    cases hs.symm.trans hs'
    split
    · rfl
    · exact hw s hs f
  r := by simp

/-- Only a failed download ends a run. -/
theorem fetch_error {first : Bool} {down : ListFile → Option Bytes} {p p' : Pass} {f : ListFile}
    (h : fetch first down p f = .error p') : down f = none ∧ p' = p := by
  unfold fetch at h
  cases hdown : down f with
  | none =>
    rw [hdown] at h
    cases h
    exact ⟨rfl, rfl⟩
  | some new =>
    rw [hdown] at h
    dsimp only at h
    repeat' split at h
    all_goals cases h

/-- A run goes on behind a list that was downloaded. -/
theorem fetch_ok {first : Bool} {down : ListFile → Option Bytes} {p p' : Pass} {f : ListFile}
    (h : fetch first down p f = .ok p') : down f ≠ none := by
  intro hdown
  rw [fetch, hdown] at h
  cases h

/-- One more list is through. -/
theorem through_fetch {w : World} {down : ListFile → Option Bytes} {done : List ListFile} {p p' : Pass}
    {f : ListFile} (h : Through w down done p) (hf : f ∉ done)
    (hfetch : fetch false down p f = .ok p') : Through w down (done ++ [f]) p' := by
  have hold : p.world.files f = w.files f := h.kept f hf
  unfold fetch at hfetch
  cases hdown : down f with
  | none =>
    rw [hdown] at hfetch
    cases hfetch
  | some new =>
    rw [hdown] at hfetch
    simp only [Bool.false_eq_true, if_false] at hfetch
    by_cases hsame : p.world.files f = some new
    · rw [if_pos hsame] at hfetch
      cases hfetch
      constructor
      · intro g hg
        rcases List.mem_append.mp hg with hg | hg
        · exact h.got g hg
        · rw [List.mem_singleton.mp hg, hsame, hdown]
      · intro g hg
        exact h.kept g fun hmem ↦ hg (List.mem_append_left _ hmem)
      · exact h.service
      · exact h.inUse
      · have hkept : w.files f = down f := by rw [← hold, hsame, hdown]
        rw [h.r]
        simp only [List.mem_append, List.mem_singleton, or_and_right, exists_or, exists_eq_left,
          hkept, ne_eq, not_true, and_false, or_false]
    · rw [if_neg hsame] at hfetch
      have hgot : ∀ g ∈ done ++ [f], Function.update p.world.files f (some new) g = down g := by
        intro g hg
        by_cases hgf : g = f
        · rw [hgf, Function.update_self, hdown]
        · rw [Function.update_of_ne hgf]
          exact h.got g ((List.mem_append.mp hg).resolve_right (mt List.mem_singleton.mp hgf))
      have hkept : ∀ g, g ∉ done ++ [f] → Function.update p.world.files f (some new) g = w.files g := by
        intro g hg
        rw [List.mem_append, List.mem_singleton, not_or] at hg
        rw [Function.update_of_ne hg.2]
        exact h.kept g hg.1
      have hchanged : w.files f ≠ down f := by
        rw [← hold, hdown]
        exact hsame
      by_cases hrestart : f.atRestart = true
      · rw [if_pos hrestart] at hfetch
        cases hfetch
        refine ⟨hgot, hkept, h.service, ?_, ?_⟩
        · intro s s' hs hs' g
          have hg := h.inUse s s' hs hs' g
          split
          · next hon => rwa [if_pos hon] at hg
          · next hoff =>
            rw [if_neg hoff] at hg
            have hne : g ≠ f := by
              rintro rfl
              exact hoff hrestart
            intro content hcontent
            exact (Function.update_of_ne hne _ _).trans (hg content hcontent)
        · simp only [true_iff]
          exact ⟨f, List.mem_append_right _ (List.mem_singleton_self f), hrestart, hchanged⟩
      · rw [if_neg hrestart] at hfetch
        cases hfetch
        refine ⟨hgot, hkept, ?_, ?_, ?_⟩
        · rw [Option.isSome_map, h.service]
        · intro s s' hs hs' g
          obtain ⟨s₁, hs₁, rfl⟩ := Option.map_eq_some_iff.mp hs'
          have hg := h.inUse s s₁ hs hs₁ g
          split
          · next hon =>
            rw [if_pos hon] at hg
            rw [← hg, Service.inUse, Service.inUse, if_pos hon, if_pos hon, Service.reload]
          · next hoff =>
            rw [if_neg hoff] at hg
            intro content hcontent
            rw [Service.inUse, if_neg hoff] at hcontent
            simp only [Service.reload] at hcontent
            by_cases hgf : g = f
            · rw [if_pos hgf] at hcontent
              obtain ⟨-, -, rfl⟩ := Option.map_eq_some_iff.mp hcontent
              rw [hgf]
              exact Function.update_self _ _ _
            · rw [if_neg hgf] at hcontent
              refine (Function.update_of_ne hgf _ _).trans (hg content ?_)
              rw [Service.inUse, if_neg hoff]
              exact hcontent
        · rw [h.r]
          simp only [List.mem_append, List.mem_singleton, or_and_right, exists_or, exists_eq_left,
            hrestart, Bool.false_eq_true, false_and, or_false]

/-- The lists are through, or the run ended at one of them. -/
theorem through_foldlM {w : World} {down : ListFile → Option Bytes} {done fs : List ListFile} {p : Pass}
    (h : Through w down done p) (hnodup : (done ++ fs).Nodup) :
    (∃ p', fs.foldlM (fetch false down) p = .ok p' ∧ Through w down (done ++ fs) p' ∧
        ∀ f ∈ fs, down f ≠ none) ∨
      ∃ pre f post p', fs = pre ++ f :: post ∧ fs.foldlM (fetch false down) p = .error p' ∧
        Through w down (done ++ pre) p' ∧ down f = none ∧ ∀ g ∈ pre, down g ≠ none := by
  induction fs generalizing done p with
  | nil =>
    left
    rw [List.append_nil]
    exact ⟨p, rfl, h, nofun⟩
  | cons f fs ih =>
    have hf : f ∉ done := by
      intro hmem
      exact (List.nodup_append.mp hnodup).2.2 f hmem f List.mem_cons_self rfl
    rw [List.foldlM_cons]
    cases hfetch : fetch false down p f with
    | error p' =>
      right
      obtain ⟨hdown, rfl⟩ := fetch_error hfetch
      refine ⟨[], f, fs, p', rfl, rfl, ?_, hdown, nofun⟩
      rwa [List.append_nil]
    | ok p' =>
      have hstep := through_fetch h hf hfetch
      have hdown := fetch_ok hfetch
      rw [List.append_cons] at hnodup
      rcases ih hstep hnodup with ⟨q, hq, hthrough, hall⟩ | ⟨pre, g, post, q, rfl, hq, hthrough,
        hnone, hall⟩
      · left
        rw [List.append_assoc] at hthrough
        exact ⟨q, hq, hthrough, List.forall_mem_cons.mpr ⟨hdown, hall⟩⟩
      · right
        rw [List.append_assoc] at hthrough
        exact ⟨f :: pre, g, post, q, rfl, hq, hthrough, hnone, List.forall_mem_cons.mpr ⟨hdown, hall⟩⟩

/-- Behind lists of which none waits for a restart the service is in step. -/
theorem Through.inStep_of_r {w : World} {down : ListFile → Option Bytes} {done : List ListFile}
    {p : Pass} (h : Through w down done p) (hw : w.InStep) (hr : p.r = false) : p.world.InStep := by
  intro s' hs' f content hcontent
  obtain ⟨s, hs⟩ := Option.isSome_iff_exists.mp (h.service.symm.trans (hs' ▸ rfl))
  have hsame := h.inUse s s' hs hs' f
  split at hsame
  · next hrestart =>
    have hbefore := hw s hs f content (hsame.symm.trans hcontent)
    by_cases hf : f ∈ done
    · rw [h.got f hf, ← hbefore]
      by_contra hchanged
      have htrue := h.r.mpr ⟨f, hf, hrestart, Ne.symm hchanged⟩
      rw [hr] at htrue
      cases htrue
    · rw [h.kept f hf]
      exact hbefore
  · exact hsame content hcontent

/-- The service is in step behind the lists if none of them waits for a restart. -/
theorem Through.inStep_iff {w : World} {down : ListFile → Option Bytes} {done : List ListFile} {p : Pass}
    (h : Through w down done p) (hw : w.InStep) (hrunning : w.service ≠ none) :
    p.world.InStep ↔ p.r = false := by
  obtain ⟨s, hs⟩ := Option.ne_none_iff_exists'.mp hrunning
  constructor
  · intro hstep
    rw [← Bool.not_eq_true, h.r]
    rintro ⟨f, hf, hrestart, hchanged⟩
    obtain ⟨s', hs'⟩ := Option.isSome_iff_exists.mp (h.service.trans (hs ▸ rfl))
    have hsame := h.inUse s s' hs hs' f
    rw [if_pos hrestart] at hsame
    have hpresent : s.inUse f = some (s.present f) := if_pos hrestart
    have hnow := hstep s' hs' f _ (hsame.trans hpresent)
    rw [h.got f hf, ← hw s hs f _ hpresent] at hnow
    exact hchanged hnow.symm
  · exact h.inStep_of_r hw

/-- No list is fetched twice. -/
theorem UpdateConfig.fetched_nodup (c : UpdateConfig) : c.fetched.Nodup := by
  unfold fetched
  split_ifs <;> decide

/-- No list that waits for the restart is replaced in front of a download that fails. -/
def UpdateConfig.Flushed (c : UpdateConfig) (w : World) (run : UpdateRun) : Prop :=
  w.service ≠ none → run.refused = false → ∀ pre g post, c.fetched = pre ++ g :: post →
    (∀ f ∈ pre, run.down f ≠ none) → run.down g = none →
      ∀ f ∈ pre, f.atRestart = true → w.files f = run.down f

/-- The lists in front of the first download that fails. -/
theorem takeWhile_downloaded {down : ListFile → Option Bytes} {pre : List ListFile} {g : ListFile}
    (post : List ListFile) (hall : ∀ f ∈ pre, down f ≠ none) (hnone : down g = none) :
    (pre ++ g :: post).takeWhile (fun f ↦ (down f).isSome) = pre := by
  rw [List.takeWhile_append_of_pos, List.takeWhile_cons_of_neg, List.append_nil]
  · rw [hnone]
    exact Bool.false_ne_true
  · intro f hf
    exact Option.isSome_iff_ne_none.mpr (hall f hf)

/-- The lists are in step behind a run exactly when no list that waits for the restart is replaced in
front of a download that fails. -/
theorem update_inStep_iff (c : UpdateConfig) {w : World} (hw : w.InStep) (run : UpdateRun) :
    (update c false w run).InStep ↔ c.Flushed w run := by
  unfold update UpdateConfig.Flushed
  by_cases hrefused : run.refused = true
  · simp only [if_pos hrefused, hrefused, Bool.true_eq_false, false_implies, implies_true, iff_true]
    exact hw
  rw [if_neg hrefused]
  have hrun : run.refused = false := Bool.not_eq_true _ |>.mp hrefused
  have hthrough := @through_foldlM w run.down [] c.fetched ⟨w, false⟩ (through_nil hw run.down)
    c.fetched_nodup
  rcases hthrough with ⟨p, hp, hdone, hall⟩ | ⟨pre, g, post, p, hsplit, hp, hdone, hnone, hall⟩
  · have hflushed : c.Flushed w run := by
      intro _ _ pre g post hsplit _ hnone
      exact absurd hnone (hall g (hsplit ▸ List.mem_append_right pre List.mem_cons_self))
    refine iff_of_true ?_ hflushed
    rw [hp]
    simp only [Bool.false_and, Bool.false_eq_true, if_false]
    cases hr : p.r with
    | true => exact inStep_start c run.ok _
    | false => exact hdone.inStep_of_r hw hr
  · rw [hp]
    rw [List.nil_append] at hdone
    by_cases hstopped : w.service = none
    · refine iff_of_true ?_ fun hrunning ↦ absurd hstopped hrunning
      intro s hs
      have hsome := hdone.service
      rw [hs, hstopped] at hsome
      cases hsome
    · refine (hdone.inStep_iff hw hstopped).trans ?_
      constructor
      · intro hr _ _ pre' g' post' hsplit' hall' hnone' f hf hrestart
        have hpre : pre' = pre := by
          rw [← takeWhile_downloaded post' hall' hnone', ← takeWhile_downloaded post hall hnone,
            ← hsplit, ← hsplit']
        rw [hpre] at hf
        by_contra hchanged
        have htrue := hdone.r.mpr ⟨f, hf, hrestart, hchanged⟩
        rw [hr] at htrue
        cases htrue
      · intro hflushed
        rw [← Bool.not_eq_true, hdone.r]
        rintro ⟨f, hf, hrestart, hchanged⟩
        exact hchanged (hflushed hstopped hrun pre g post hsplit hall hnone f hf hrestart)

/-- In a sequence of runs the lists in use are those in the files behind every run exactly when in each
run no list that waits for the restart is replaced in front of a download that fails. -/
theorem updates_inStep_iff (c : UpdateConfig) (ok : Bool) (files : Files) (runs : List UpdateRun) :
    (∀ pre, pre <+: runs → World.InStep (pre.foldl (update c false) ⟨files, c.start ok files⟩)) ↔
      Along (fun w run ↦ some (update c false w run)) c.Flushed ⟨files, c.start ok files⟩ runs := by
  have hrun (w : World) (pre : List UpdateRun) :
      run (fun w run ↦ some (update c false w run)) w pre = some (pre.foldl (update c false) w) := by
    induction pre generalizing w with
    | nil => rfl
    | cons r pre ih => exact ih (update c false w r)
  rw [← forall_prefix_iff_along _ c.Flushed (fun _ ↦ True) World.InStep
    (fun w r _ hw ↦ ⟨_, rfl, trivial, update_inStep_iff c hw r⟩) trivial
    (inStep_start c ok files)]
  simp only [hrun, Option.some.injEq, exists_eq_left']

/-- A router in GFW mode. -/
def gfwConfig : UpdateConfig := ⟨some .gfw, none, false, false⟩

/-- Its lists. -/
def gfwFiles : Files
  | .gfw => some (ascii "example.org")
  | .dns => some (ascii "example.net")
  | _ => none

/-- A run that gets a new GFW list and no DNS list. -/
def cutRun : UpdateRun :=
  ⟨false, fun f ↦ if f = .gfw then some (ascii "example.com") else none, true⟩

/-- The new GFW list is in its file, the service goes on with the old one. -/
theorem not_inStep_cutRun :
    ¬ ∀ pre, pre <+: [cutRun] → World.InStep
      (pre.foldl (update gfwConfig false) ⟨gfwFiles, gfwConfig.start true gfwFiles⟩) := by
  intro h
  obtain ⟨s, hs⟩ : ∃ s, gfwConfig.start true gfwFiles = some s := ⟨_, rfl⟩
  have hpresent : s.inUse .gfw = some (some (ascii "example.org")) := by
    cases hs
    rfl
  have hstep := h [cutRun] (List.prefix_refl _)
  have hafter : ([cutRun].foldl (update gfwConfig false)
      ⟨gfwFiles, gfwConfig.start true gfwFiles⟩).service = some s := hs
  have hfile := hstep s hafter .gfw _ hpresent
  revert hfile
  decide

end OpenWrtCompile.Overwall
