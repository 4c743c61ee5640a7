import OpenWrtCompile.Xlnetacc.Machine

/-!
# What the acceleration session keeps

A direction in state 2 has a session, keepalives are for such directions, the session is not given up
without an attempt to recover, and no direction is in state 2 at the end; for the runs in which nothing
ends the script early.
-/

namespace OpenWrtCompile.Xlnetacc
open OpenWrtCompile.Base

/-- A recover request for the direction has been made since it was set to 2. -/
def Attempted (d : Dir) : List Event → Prop
  | [] => False
  | .recover d' :: trace => d' = d ∨ Attempted d trace
  | .accelerated d' :: trace => d' ≠ d ∧ Attempted d trace
  | _ :: trace => Attempted d trace

/-- A keepalive is for a direction in state 2, and the session is given up or set only after recover
requests for the directions in state 2. -/
def EventSafe (trace : List Event) : Event → Prop
  | .keepalive _ acc => acc = 2
  | .session down up => (down = 2 → Attempted .down trace) ∧ (up = 2 → Attempted .up trace)
  | _ => True

/-- Every event was safe when it happened. -/
def TraceSafe : List Event → Prop
  | [] => True
  | e :: trace => EventSafe trace e ∧ TraceSafe trace

/-- A point between the calls of `xlnetacc_main`, or at its end. -/
def Point.OfMain : Point → Prop
  | .recover _ _ | .swjsqLogout _ | .loggedOut _ => False
  | _ => True

/-- What is asked of a state. -/
structure Safe (s : State) : Prop where
  session : s.point.OfMain → ∀ d, s.vars.acc d = 2 → s.vars.sessionid ≠ []
  trace : TraceSafe s.vars.trace
  exit : ∀ code, s.point = .exited code → ∀ d, s.vars.acc d ≠ 2

/-- A step that ends no script with a direction in state 2: the arithmetic reads the bandwidth of a
successful upgrade, and no signal comes between `swjsq_logout` and the end of `xlnetacc_logout`. -/
def Good (s : State) : Input → Prop
  | .answer a => ∀ d, s.point = .upgrade d → lasterrOf a.reply.code = ascii "0" →
      a.reply.bandwidth = none → ∀ d, s.vars.acc d ≠ 2
  | .signal => ∀ caller, s.point = .loggedOut caller → s.vars.sessionid = [] →
      ∀ d, s.vars.acc d ≠ 2

/-- If the direction is in state 2, a recover request has been made. -/
def Vars.Tried (v : Vars) (d : Dir) : Prop := v.acc d = 2 → Attempted d v.trace

/-- No direction is in state 2. -/
def Vars.Low (v : Vars) : Prop := ∀ d, v.acc d ≠ 2

/-- What holds in front of a call. -/
def PointInv (v : Vars) : Point → Prop
  | .getBindIp => ∀ d, v.acc d = 2 → v.sessionid ≠ []
  | .recover _ .down => v.sessionid ≠ []
  | .recover _ .up => v.sessionid ≠ [] ∧ v.Tried .down
  | .swjsqLogout _ => v.sessionid ≠ [] ∧ ∀ d, v.Tried d
  | .loggedOut _ => ∀ d, v.Tried d
  | .login => v.Low
  | .getuserinfo | .renewal | .portal _ | .bandwidth _ => v.sessionid ≠ [] ∧ v.Low
  | .upgrade _ | .keepaliveSleep => v.sessionid ≠ []
  | .keepalive d => v.sessionid ≠ [] ∧ v.acc d = 2
  | .exited _ => True

/-- A state in which the script can go on, or has ended well. -/
structure Fine (s : State) : Prop where
  inv : PointInv s.vars s.point
  trace : TraceSafe s.vars.trace
  exit : ∀ code, s.point = .exited code → s.vars.Low

/-- A state that is fine is safe. -/
theorem Fine.safe {s : State} (h : Fine s) : Safe s := by
  refine ⟨?_, h.trace, h.exit⟩
  intro hmain d hd
  obtain ⟨v, point, retry⟩ := s
  have hinv := h.inv
  have hexit := h.exit
  cases point with
  | getBindIp => exact hinv d hd
  | recover caller d => cases hmain
  | swjsqLogout caller => cases hmain
  | loggedOut caller => cases hmain
  | login => exact absurd hd (hinv d)
  | getuserinfo => exact hinv.1
  | renewal => exact hinv.1
  | portal d' => exact hinv.1
  | bandwidth d' => exact hinv.1
  | upgrade d' => exact hinv
  | keepaliveSleep => exact hinv
  | keepalive d' => exact hinv.1
  | exited code => exact absurd hd (hexit code rfl d)

/-- A point at which the script goes on. -/
theorem fine_at {point : Point} {v : Vars} (n : Nat) (hne : ∀ code, point ≠ .exited code)
    (hinv : PointInv v point) (ht : TraceSafe v.trace) : Fine ⟨v, point, n⟩ :=
  ⟨hinv, ht, fun code h ↦ absurd h (hne code)⟩

theorem fine_goto {point : Point} {v : Vars} (hne : ∀ code, point ≠ .exited code)
    (hinv : PointInv v point) (ht : TraceSafe v.trace) : Fine (goto point v) :=
  fine_at 1 hne hinv ht

/-- The end of the script. -/
theorem fine_exited {code : Nat} {v : Vars} (hlow : v.Low) (ht : TraceSafe v.trace) :
    Fine (goto (.exited code) v) := ⟨trivial, ht, fun _ _ ↦ hlow⟩

/-- What comes behind `xlnetacc_logout`. -/
theorem fine_afterLogout (caller : Caller) {v : Vars} (hlow : v.Low) (ht : TraceSafe v.trace) :
    Fine (afterLogout caller v) := by
  cases caller with
  | top => exact fine_goto (by rintro code ⟨⟩) hlow ht
  | stop => exact fine_exited hlow ht
  | sigterm => exact fine_exited hlow ht

/-- In front of the second recover request. -/
theorem fine_recoverUp (caller : Caller) {v : Vars} (hs : v.sessionid ≠ []) (hdown : v.Tried .down)
    (ht : TraceSafe v.trace) : Fine (recoverUp caller v) := by
  unfold recoverUp
  split
  · exact fine_goto (by rintro code ⟨⟩) ⟨hs, hdown⟩ ht
  · rename_i hup
    refine fine_goto (by rintro code ⟨⟩) ⟨hs, fun d ↦ ?_⟩ ht
    cases d with
    | down => exact hdown
    | up => exact fun h ↦ absurd h hup

/-- `xlnetacc_logout`, wherever it is called. -/
theorem fine_xlnetaccLogout (caller : Caller) {v : Vars}
    (h : ∀ d, v.acc d = 2 → v.sessionid ≠ []) (ht : TraceSafe v.trace) :
    Fine (xlnetaccLogout caller v) := by
  unfold xlnetaccLogout
  split
  · rename_i hs
    exact fine_afterLogout caller (fun d hd ↦ h d hd hs) ht
  · rename_i hs
    split
    · exact fine_goto (by rintro code ⟨⟩) hs ht
    · rename_i hdown
      exact fine_recoverUp caller hs (fun hd ↦ absurd hd hdown) ht

/-- The end of `xlnetacc_logout`. -/
theorem fine_logoutEnd (caller : Caller) {v : Vars} (h : ∀ d, v.Tried d) (ht : TraceSafe v.trace) :
    Fine (logoutEnd caller v) := by
  have hreset : ∀ n : Nat, (if n ≠ 0 then 1 else n) ≠ 2 := by
    intro n
    split
    · decide
    · omega
  apply fine_afterLogout
  · intro d
    cases d with
    | down => exact hreset v.downAcc
    | up => exact hreset v.upAcc
  · show TraceSafe (if v.sessionid = [] then v else v.log _).trace
    split
    · exact ht
    · exact ⟨⟨h .down, h .up⟩, ht⟩

section Forward
variable {v : Vars} (hs : v.sessionid ≠ []) (ht : TraceSafe v.trace)
include hs ht

/-- From the keepalive of the second direction on. -/
theorem fine_keepaliveUp : Fine (keepaliveUp v) := by
  unfold keepaliveUp
  split
  · rename_i hup
    exact fine_goto (by rintro code ⟨⟩) ⟨hs, hup⟩ ht
  · exact fine_goto (by rintro code ⟨⟩) hs ht

/-- From the keepalives on. -/
theorem fine_keepaliveDown : Fine (keepaliveDown v) := by
  unfold keepaliveDown
  split
  · rename_i hdown
    exact fine_goto (by rintro code ⟨⟩) ⟨hs, hdown⟩ ht
  · exact fine_keepaliveUp hs ht

/-- From the upgrade of the second direction on. -/
theorem fine_upgradeUp : Fine (upgradeUp v) := by
  unfold upgradeUp
  split
  · exact fine_goto (by rintro code ⟨⟩) hs ht
  · exact fine_goto (by rintro code ⟨⟩) hs ht

/-- From the upgrades on. -/
theorem fine_upgradeDown : Fine (upgradeDown v) := by
  unfold upgradeDown
  split
  · exact fine_xlnetaccLogout .stop (fun _ _ ↦ hs) ht
  split
  · exact fine_goto (by rintro code ⟨⟩) hs ht
  · exact fine_upgradeUp hs ht

variable (hlow : v.Low)
include hlow

/-- From the bandwidth of the second direction on. -/
theorem fine_bandwidthUp : Fine (bandwidthUp v) := by
  unfold bandwidthUp
  split
  · exact fine_goto (by rintro code ⟨⟩) ⟨hs, hlow⟩ ht
  · exact fine_upgradeDown hs ht

/-- From the bandwidths on. -/
theorem fine_bandwidthDown : Fine (bandwidthDown v) := by
  unfold bandwidthDown
  split
  · exact fine_goto (by rintro code ⟨⟩) ⟨hs, hlow⟩ ht
  · exact fine_bandwidthUp hs ht hlow

/-- From the portal of the second direction on. -/
theorem fine_portalUp : Fine (portalUp v) := by
  unfold portalUp
  split
  · exact fine_goto (by rintro code ⟨⟩) ⟨hs, hlow⟩ ht
  · exact fine_bandwidthDown hs ht hlow

/-- From the portals on. -/
theorem fine_portalDown : Fine (portalDown v) := by
  unfold portalDown
  split
  · exact fine_goto (by rintro code ⟨⟩) ⟨hs, hlow⟩ ht
  · exact fine_portalUp hs ht hlow

/-- Behind `swjsq_getuserinfo`. -/
theorem fine_afterGetuserinfo : Fine (afterGetuserinfo v) := by
  unfold afterGetuserinfo
  split
  · exact fine_xlnetaccLogout .stop (fun _ _ ↦ hs) ht
  · exact fine_goto (by rintro code ⟨⟩) ⟨hs, hlow⟩ ht

end Forward

/-! ### The calls -/

/-- A variable that is set to something else than 2. -/
theorem low_setAcc {v : Vars} (h : v.Low) {n : Nat} (hn : n ≠ 2) (d : Dir) : (v.setAcc n d).Low := by
  intro d'
  cases d with
  | down =>
    cases d' with
    | down => exact hn
    | up => exact h .up
  | up =>
    cases d' with
    | down => exact h .down
    | up => exact hn

/-- Setting a variable leaves the rest. -/
@[simp] theorem sessionid_setAcc (v : Vars) (n : Nat) (d : Dir) :
    (v.setAcc n d).sessionid = v.sessionid := by cases d <;> rfl

@[simp] theorem trace_setAcc (v : Vars) (n : Nat) (d : Dir) :
    (v.setAcc n d).trace = v.trace := by cases d <;> rfl

/-- The reply that counts as success. -/
theorem lasterrOf_eq_zero {code : Option Bytes} (h : lasterrOf code = ascii "0") :
    code = some (ascii "0") := by
  unfold lasterrOf at h
  cases code with
  | none => exact absurd h (by decide)
  | some c =>
    dsimp only at h
    split at h
    · exact absurd h (by decide)
    · rw [h]

/-- What a call keeps that neither sets a direction to 2 nor touches the session. -/
structure Keeps (v v' : Vars) : Prop where
  sessionid : v'.sessionid = v.sessionid
  trace : v'.trace = v.trace
  low : v.Low → v'.Low

/-- Nothing is changed. -/
theorem Keeps.refl (v : Vars) : Keeps v v := ⟨rfl, rfl, id⟩

/-- A direction is given up. -/
theorem Keeps.setAcc {v v' : Vars} (h : Keeps v v') (d : Dir) : Keeps v (v'.setAcc 0 d) :=
  ⟨(sessionid_setAcc v' 0 d).trans h.sessionid, (trace_setAcc v' 0 d).trans h.trace,
    fun hlow ↦ low_setAcc (h.low hlow) (by decide) d⟩

/-- An entry of `vipList`. -/
theorem keeps_vipEntry {v : Vars} {s : Bool × Vars} (h : Keeps v s.2) (vip : Vip) :
    Keeps v (vipEntry s vip).2 := by
  unfold vipEntry
  split
  · split
    · exact h
    split
    · exact h.setAcc .up
    · exact h
  · exact h

/-- `swjsq_getuserinfo` gives up directions only. -/
theorem keeps_swjsqGetuserinfo (v : Vars) (r : Reply) : Keeps v (swjsqGetuserinfo v r).1 := by
  have hlist : ∀ (vips : List Vip) (s : Bool × Vars), Keeps v s.2 →
      Keeps v (vips.foldl vipEntry s).2 := by
    intro vips
    induction vips with
    | nil => exact fun s h ↦ h
    | cons vip vips ih => exact fun s h ↦ ih _ (keeps_vipEntry h vip)
  have hall := hlist r.vipList (false, v) (Keeps.refl v)
  unfold swjsqGetuserinfo
  dsimp only
  split
  · split
    · exact hall
    · exact hall.setAcc .down
  · exact Keeps.refl v

/-- `isp_bandwidth` gives up directions only. -/
theorem keeps_ispBandwidth {v v' : Vars} {isZero : ZeroTest} {d : Dir} {r : Reply} {lasterr : Bytes}
    (h : ispBandwidth v isZero d r = some (v', lasterr)) : Keeps v v' := by
  unfold ispBandwidth at h
  dsimp only at h
  split at h
  · obtain ⟨cur, -, h⟩ := Option.bind_eq_some_iff.mp h
    obtain ⟨max, -, h⟩ := Option.bind_eq_some_iff.mp h
    split at h
    · cases h
      exact ((Keeps.refl v).setAcc .down).setAcc .up
    split at h
    · cases h
      exact (Keeps.refl v).setAcc d
    split at h
    · cases h
      exact (Keeps.refl v).setAcc d
    split at h
    · cases h
      exact ⟨rfl, rfl, id⟩
    · cases h
      exact Keeps.refl v
  split at h
  · cases h
    exact Keeps.refl v
  split at h
  · cases h
    exact (Keeps.refl v).setAcc d
  · cases h
    exact Keeps.refl v

/-- `isp_upgrade` leaves the session. -/
theorem ispUpgrade_some {v v' : Vars} {d : Dir} {r : Reply} {lasterr : Bytes}
    (h : ispUpgrade v d r = some (v', lasterr)) :
    v'.sessionid = v.sessionid ∧ (TraceSafe v.trace → TraceSafe v'.trace) := by
  have hset : ((v.setAcc 2 d).log (.accelerated d)).sessionid = v.sessionid ∧
      (TraceSafe v.trace → TraceSafe ((v.setAcc 2 d).log (.accelerated d)).trace) :=
    ⟨sessionid_setAcc v 2 d, fun ht ↦ ⟨trivial, by rw [trace_setAcc]; exact ht⟩⟩
  unfold ispUpgrade at h
  dsimp only at h
  split at h
  · obtain ⟨b, -, hb⟩ := Option.map_eq_some_iff.mp h
    cases hb
    exact hset
  split at h
  · cases h
    exact hset
  split at h
  · cases h
    exact ⟨rfl, id⟩
  · cases h
    exact ⟨rfl, id⟩

/-- `isp_upgrade` ends the script at a successful reply whose bandwidth is not read. -/
theorem ispUpgrade_eq_none {v : Vars} {d : Dir} {r : Reply} :
    ispUpgrade v d r = none ↔ lasterrOf r.code = ascii "0" ∧ r.bandwidth = none := by
  unfold ispUpgrade
  dsimp only
  split
  · rename_i hzero
    rw [Option.map_eq_none_iff]
    exact ⟨fun h ↦ ⟨hzero, h⟩, fun h ↦ h.2⟩
  · rename_i hzero
    constructor
    · intro h
      split at h
      · cases h
      split at h <;> cases h
    · exact fun h ↦ absurd h.1 hzero

/-- `isp_recover` leaves the session and the other direction, and is an attempt. -/
theorem ispRecover_fst (v : Vars) (d : Dir) (r : Reply) :
    (ispRecover v d r).1.sessionid = v.sessionid ∧
      (ispRecover v d r).1.trace = .recover d :: v.trace ∧
      ∀ d', v.Tried d' → (ispRecover v d r).1.Tried d' := by
  have hlog : ∀ d', v.Tried d' → (v.log (.recover d)).Tried d' :=
    fun d' h hd ↦ .inr (h hd)
  unfold ispRecover
  dsimp only
  split
  · refine ⟨sessionid_setAcc _ 1 d, trace_setAcc _ 1 d, fun d' h hd ↦ ?_⟩
    rw [trace_setAcc]
    by_cases he : d = d'
    · exact .inl he
    · refine hlog d' h ?_
      cases d <;> cases d'
      · exact absurd rfl he
      · exact hd
      · exact hd
      · exact absurd rfl he
  · exact ⟨rfl, rfl, hlog⟩

/-! ### The steps -/

section Steps
variable (isZero : ZeroTest)

/-- Behind an attempt. -/
theorem fine_retried {s : State} {limit : Option Nat} {lasterr : Bytes} {v : Vars}
    {next : Bool → Vars → State} (hnext : ∀ ok, Fine (next ok v))
    (hagain : isZero.test lasterr = false → Fine ⟨v, s.point, s.retry + 1⟩) :
    Fine (retried isZero s limit lasterr v next) := by
  unfold retried
  split
  · exact hnext true
  split
  · exact hnext false
  · rename_i hzero _
    exact hagain (Bool.not_eq_true _ ▸ hzero)

/-- A login, from its reply. -/
theorem fine_login {v : Vars} (hlow : v.Low) (ht : TraceSafe v.trace) (r : LoginReply) :
    Fine (afterLogin (swjsqLogin v r).1 (swjsqLogin v r).2) := by
  have hfail : ∀ {v' : Vars} {lasterr : Bytes}, v'.Low → TraceSafe v'.trace →
      lasterr ≠ ascii "0" → Fine (afterLogin v' lasterr) := by
    intro v' lasterr hlow ht hne
    unfold afterLogin
    rw [if_neg hne]
    split
    · exact fine_exited hlow ht
    split
    · exact fine_goto (by rintro code ⟨⟩) hlow ht
    · exact fine_exited hlow ht
  unfold swjsqLogin
  dsimp only
  split
  · rename_i hzero
    have hcode : r.errorCode = some (ascii "0") := by
      unfold LoginReply.lasterr at hzero
      split at hzero
      · exact lasterrOf_eq_zero hzero
      split at hzero
      · exact absurd hzero (by decide)
      split at hzero
      · exact absurd hzero (by decide)
      · exact absurd hzero (by decide)
    unfold afterLogin
    rw [if_pos hzero]
    exact fine_goto (by rintro code ⟨⟩) ⟨r.carries hcode, hlow⟩
      ⟨⟨fun h ↦ absurd h (hlow .down), fun h ↦ absurd h (hlow .up)⟩, ht⟩
  · rename_i hne
    split
    · exact hfail hlow ht hne
    · exact hfail hlow ht hne

/-- A recover request in `xlnetacc_logout`. -/
theorem fine_recover {caller : Caller} {d : Dir} {v : Vars} {n : Nat}
    (h : Fine ⟨v, .recover caller d, n⟩) (a : Answer) :
    Fine (call isZero ⟨v, .recover caller d, n⟩ a) := by
  obtain ⟨hsession, htrace, htried⟩ := ispRecover_fst v d a.reply
  have ht : TraceSafe (ispRecover v d a.reply).1.trace := by
    rw [htrace]
    exact ⟨trivial, h.trace⟩
  have hown : (ispRecover v d a.reply).1.Tried d := by
    intro _
    rw [htrace]
    exact .inl rfl
  have hinv := h.inv
  unfold call
  dsimp only
  cases d with
  | down =>
    have hs : (ispRecover v .down a.reply).1.sessionid ≠ [] := hsession ▸ hinv
    apply fine_retried
    · exact fun _ ↦ fine_recoverUp caller hs hown ht
    · exact fun _ ↦ fine_at _ (by rintro code ⟨⟩) hs ht
  | up =>
    obtain ⟨hs, hdown⟩ := hinv
    have hs : (ispRecover v .up a.reply).1.sessionid ≠ [] := hsession ▸ hs
    apply fine_retried
    · refine fun _ ↦ fine_goto (by rintro code ⟨⟩) ⟨hs, fun d ↦ ?_⟩ ht
      cases d with
      | down => exact htried .down hdown
      | up => exact hown
    · exact fun _ ↦ fine_at _ (by rintro code ⟨⟩) ⟨hs, htried .down hdown⟩ ht

/-- A logout in `xlnetacc_logout`. -/
theorem fine_swjsqLogout {caller : Caller} {v : Vars} {n : Nat}
    (h : Fine ⟨v, .swjsqLogout caller, n⟩) (a : Answer) :
    Fine (call isZero ⟨v, .swjsqLogout caller, n⟩ a) := by
  obtain ⟨hs, htried⟩ := h.inv
  have ht := h.trace
  unfold call swjsqLogout
  dsimp only
  split
  · rename_i hzero
    apply fine_retried
    · exact fun _ ↦ fine_goto (by rintro code ⟨⟩) htried ⟨⟨htried .down, htried .up⟩, ht⟩
    · intro hfail
      rw [hzero, isZero.zero] at hfail
      cases hfail
  · apply fine_retried
    · exact fun _ ↦ fine_goto (by rintro code ⟨⟩) htried ht
    · exact fun _ ↦ fine_at _ (by rintro code ⟨⟩) ⟨hs, htried⟩ ht

/-- A query of the bandwidth. -/
theorem fine_bandwidth {d : Dir} {v : Vars} {n : Nat} (h : Fine ⟨v, .bandwidth d, n⟩) (a : Answer) :
    Fine (call isZero ⟨v, .bandwidth d, n⟩ a) := by
  obtain ⟨hs, hlow⟩ := h.inv
  have ht := h.trace
  unfold call orAbort
  dsimp only
  cases hb : ispBandwidth v isZero d a.reply with
  | none => exact fine_exited hlow ht
  | some result =>
    obtain ⟨v', lasterr⟩ := result
    obtain ⟨hsession, htrace, hlow'⟩ := keeps_ispBandwidth hb
    have hs' : v'.sessionid ≠ [] := hsession ▸ hs
    have ht' : TraceSafe v'.trace := htrace ▸ ht
    apply fine_retried
    · intro ok
      cases ok with
      | false => exact fine_goto (by rintro code ⟨⟩) (fun _ _ ↦ hs') ht'
      | true =>
        cases d with
        | down => exact fine_bandwidthUp hs' ht' (hlow' hlow)
        | up => exact fine_upgradeDown hs' ht'
    · exact fun _ ↦ fine_at _ (by rintro code ⟨⟩) ⟨hs', hlow' hlow⟩ ht'

/-- An upgrade whose reply does not end the script with a direction in state 2. -/
theorem fine_upgrade {d : Dir} {v : Vars} {n : Nat} (h : Fine ⟨v, .upgrade d, n⟩) {a : Answer}
    (hgood : Good ⟨v, .upgrade d, n⟩ (.answer a)) : Fine (call isZero ⟨v, .upgrade d, n⟩ a) := by
  have hs : v.sessionid ≠ [] := h.inv
  have ht := h.trace
  unfold call orAbort
  dsimp only
  cases hu : ispUpgrade v d a.reply with
  | none =>
    obtain ⟨hzero, hnone⟩ := ispUpgrade_eq_none.mp hu
    exact fine_exited (hgood d rfl hzero hnone) ht
  | some result =>
    obtain ⟨v', lasterr⟩ := result
    obtain ⟨hsession, htrace⟩ := ispUpgrade_some hu
    have hs' : v'.sessionid ≠ [] := hsession ▸ hs
    apply fine_retried
    · intro ok
      cases ok with
      | false => exact fine_goto (by rintro code ⟨⟩) (fun _ _ ↦ hs') (htrace ht)
      | true =>
        cases d with
        | down => exact fine_upgradeUp hs' (htrace ht)
        | up => exact fine_goto (by rintro code ⟨⟩) hs' (htrace ht)
    · exact fun _ ↦ fine_at _ (by rintro code ⟨⟩) hs' (htrace ht)

/-- A keepalive. -/
theorem fine_keepalive {d : Dir} {v : Vars} {n : Nat} (h : Fine ⟨v, .keepalive d, n⟩) (a : Answer) :
    Fine (call isZero ⟨v, .keepalive d, n⟩ a) := by
  obtain ⟨hs, hacc⟩ := h.inv
  have ht : TraceSafe (v.log (.keepalive d (v.acc d))).trace := ⟨hacc, h.trace⟩
  have hacc' : (v.log (.keepalive d (v.acc d))).acc d = 2 := by cases d <;> exact hacc
  unfold call ispKeepalive
  dsimp only
  apply fine_retried
  · intro ok
    cases ok with
    | false => exact fine_goto (by rintro code ⟨⟩) (fun _ _ ↦ hs) ht
    | true =>
      cases d with
      | down => exact fine_keepaliveUp hs ht
      | up => exact fine_goto (by rintro code ⟨⟩) hs ht
  · exact fun _ ↦ fine_at _ (by rintro code ⟨⟩) ⟨hs, hacc'⟩ ht

/-- Every call keeps a state fine, unless its reply ends the script. -/
theorem fine_call {s : State} (h : Fine s) {a : Answer} (hgood : Good s (.answer a)) :
    Fine (call isZero s a) := by
  obtain ⟨v, point, n⟩ := s
  have ht : TraceSafe v.trace := h.trace
  have hinv : PointInv v point := h.inv
  unfold call
  dsimp only
  cases point with
  | getBindIp =>
    dsimp only
    split
    · exact fine_xlnetaccLogout .top hinv ht
    · exact fine_at _ (by rintro code ⟨⟩) hinv ht
  | recover caller d => exact fine_recover isZero h a
  | swjsqLogout caller => exact fine_swjsqLogout isZero h a
  | loggedOut caller => exact fine_logoutEnd caller hinv ht
  | login => exact fine_login hinv ht a.loginReply
  | getuserinfo =>
    obtain ⟨hsession, htrace, hlow⟩ := keeps_swjsqGetuserinfo v a.reply
    have hs := hsession ▸ hinv.1
    have ht' := htrace ▸ ht
    apply fine_retried
    · exact fun _ ↦ fine_afterGetuserinfo hs ht' (hlow hinv.2)
    · exact fun _ ↦ fine_at _ (by rintro code ⟨⟩) ⟨hs, hlow hinv.2⟩ ht'
  | renewal =>
    apply fine_retried
    · exact fun _ ↦ fine_portalDown hinv.1 ht hinv.2
    · exact fun _ ↦ fine_at _ (by rintro code ⟨⟩) hinv ht
  | portal d =>
    apply fine_retried
    · intro _
      cases d with
      | down => exact fine_portalUp hinv.1 ht hinv.2
      | up => exact fine_bandwidthDown hinv.1 ht hinv.2
    · exact fun _ ↦ fine_at _ (by rintro code ⟨⟩) hinv ht
  | bandwidth d => exact fine_bandwidth isZero h a
  | upgrade d => exact fine_upgrade isZero h hgood
  | keepaliveSleep =>
    dsimp only
    split
    · exact fine_goto (by rintro code ⟨⟩) (fun _ _ ↦ hinv) ht
    · exact fine_keepaliveDown hinv ht
  | keepalive d => exact fine_keepalive isZero h a
  | exited code => exact h

/-- So does a signal, unless it comes behind `swjsq_logout`. -/
theorem fine_signal {s : State} (h : Fine s) (hgood : Good s .signal) :
    Fine (step isZero s .signal) := by
  obtain ⟨v, point, n⟩ := s
  have hinv : PointInv v point := h.inv
  have hlogout : (∀ d, v.acc d = 2 → v.sessionid ≠ []) → Fine (xlnetaccLogout .sigterm v) :=
    fun hsession ↦ fine_xlnetaccLogout .sigterm hsession h.trace
  have hmain := h.safe.session
  cases point with
  | recover caller d =>
    cases d with
    | down => exact hlogout fun _ _ ↦ hinv
    | up => exact hlogout fun _ _ ↦ hinv.1
  | swjsqLogout caller => exact hlogout fun _ _ ↦ hinv.1
  | loggedOut caller => exact hlogout fun d hd hs ↦ hgood caller rfl hs d hd
  | exited code => exact h
  | getBindIp => exact hlogout (hmain trivial)
  | login => exact hlogout (hmain trivial)
  | getuserinfo => exact hlogout (hmain trivial)
  | renewal => exact hlogout (hmain trivial)
  | portal d => exact hlogout (hmain trivial)
  | bandwidth d => exact hlogout (hmain trivial)
  | upgrade d => exact hlogout (hmain trivial)
  | keepaliveSleep => exact hlogout (hmain trivial)
  | keepalive d => exact hlogout (hmain trivial)

/-- A step that is not good ends the script with a direction in state 2. -/
theorem exited_of_not_good {s : State} {e : Input} (h : ¬ Good s e) :
    ∃ code v, step isZero s e = goto (.exited code) v ∧ v.trace = s.vars.trace ∧ ¬ v.Low := by
  obtain ⟨v, point, n⟩ := s
  cases e with
  | answer a =>
    simp only [Good, not_forall] at h
    obtain ⟨d, rfl, hzero, hnone, d', hd'⟩ := h
    refine ⟨2, v, ?_, rfl, fun hlow ↦ hd' (hlow d')⟩
    unfold step call orAbort
    dsimp only
    rw [ispUpgrade_eq_none.mpr ⟨hzero, hnone⟩]
  | signal =>
    simp only [Good, not_forall] at h
    obtain ⟨caller, rfl, hs, d, hd⟩ := h
    refine ⟨0, v, ?_, rfl, fun hlow ↦ hd (hlow d)⟩
    show xlnetaccLogout .sigterm v = _
    unfold xlnetaccLogout
    rw [if_pos hs]
    rfl

/-- What is kept by every step of a safe run, and when the run stays safe. -/
theorem safe_step_iff {s : State} (hinv : PointInv s.vars s.point) (hsafe : Safe s) (e : Input) :
    PointInv (step isZero s e).vars (step isZero s e).point ∧
      (Safe (step isZero s e) ↔ Good s e) := by
  have hfine : Fine s := ⟨hinv, hsafe.trace, hsafe.exit⟩
  by_cases hgood : Good s e
  · have hstep : Fine (step isZero s e) := by
      cases e with
      | answer a => exact fine_call isZero hfine hgood
      | signal => exact fine_signal isZero hfine hgood
    exact ⟨hstep.inv, fun _ ↦ hgood, fun _ ↦ hstep.safe⟩
  · obtain ⟨code, v, hexit, -, hlow⟩ := exited_of_not_good isZero hgood
    rw [hexit]
    refine ⟨trivial, fun h ↦ absurd (h.exit code rfl) hlow, fun h ↦ absurd h hgood⟩

/-- Before the first call no direction is in state 2. -/
theorem low_started (down up : Bool) : (started down up).vars.Low := by
  intro d
  cases d <;> cases down <;> cases up <;> decide

end Steps

/-! ### Two runs that end with a direction in state 2 -/

/-- `[ … = 0 ]` of one word. -/
def oneWord : ZeroTest := ⟨fun word ↦ decide (word = ascii "0"), by decide⟩

/-- A login that succeeds. -/
def loginOk : LoginReply where
  curl := 0
  errorCode := some (ascii "0")
  userID := ascii "1"
  loginKey := ascii "k"
  sessionID := ascii "s"
  carries := fun _ ↦ by decide

/-- A reply with a code, a bandwidth of 100 M that can be raised to 200 M, and a membership for both
directions. -/
def replied (code : Option Bytes) (bandwidth : Option Int) : Input :=
  .answer {
    bindIp := true
    loginReply := loginOk
    reply := {
      code := code
      vipList := [⟨ascii "14", ascii "1", ascii "0"⟩, ⟨ascii "33", ascii "1", ascii "0"⟩]
      canUpgrade := ascii "1"
      bindDialAccount := []
      dialAccount := []
      curBandwidth := some 102400
      maxBandwidth := some 204800
      bandwidth := bandwidth }
    reloginDue := true }

/-- Everything that is asked for succeeds. -/
def granted : Input := replied (some (ascii "0")) (some 204800)

/-- Both directions are switched on. The upgrade of the first succeeds, the reply to that of the second has
a bandwidth that is no number. -/
def brokenBandwidth : List Input :=
  List.replicate 9 granted ++ [replied (some (ascii "0")) none]

/-- One direction is switched on and accelerated, then a new login is due. The recover requests are not
answered, the logout is, and a signal comes behind it. -/
def lateSignal : List Input :=
  List.replicate 9 granted ++ List.replicate 3 (replied none none) ++ [granted, .signal]

end OpenWrtCompile.Xlnetacc
