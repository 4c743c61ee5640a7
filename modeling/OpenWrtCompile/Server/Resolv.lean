import OpenWrtCompile.Base.Run
import OpenWrtCompile.Server.Request
import Mathlib.Logic.Function.Basic

/-!
# The resolver's callbacks

`shadowsocksr-libev/src/server/resolv.c:88–93, 157–428` with its holder in `server.c:1067–1073`,
`1183–1189` and `1582–1589`: one query is two lookups that share a record. The lookups end in any
order, and the holder may cancel the query in between; a use of the freed record is `none`.
-/

namespace OpenWrtCompile.Server
open OpenWrtCompile.Base

/-- The bits of an address of the family. -/
def Family.bits : Family → Nat
  | .inet => 32
  | .inet6 => 128

/-- `struct sockaddr_in` and `struct sockaddr_in6`. -/
structure Sockaddr where
  family : Family
  port : UInt16
  addr : BitVec family.bits
  deriving DecidableEq

/-- `resolv_mode`. -/
inductive ResolvMode
  | ipv4Only | ipv6Only | ipv4First | ipv6First
  deriving DecidableEq, Repr

/-- The mode that `resolv_init` sets. -/
def resolvInit (ipv6first : Bool) : ResolvMode := if ipv6first then .ipv6First else .ipv4First

/-- The families that `resolv_query` asks for. -/
def ResolvMode.asks (mode : ResolvMode) : Family → Bool
  | .inet => mode ≠ .ipv6Only
  | .inet6 => mode ≠ .ipv4Only

/-- `struct ResolvQuery`: whether there is a `client_free_cb`, the lookups that have not ended, what
they collected, and the port. -/
structure ResolvQuery where
  clientFreeCb : Bool
  queries : Family → Bool
  responses : List Sockaddr
  port : UInt16

/-- A call to the client. -/
inductive ClientCall
  | callback (addr : Option Sockaddr)
  | free
  deriving DecidableEq

/-- The record until it is freed, the lookups that the DNS library has under way, whether the holder
has a handle, and the calls to the client. -/
structure Resolver where
  mode : ResolvMode
  record : Option ResolvQuery
  active : Family → Bool
  query : Bool
  calls : List ClientCall

/-- `all_queries_are_null`. -/
def allQueriesAreNull (queries : Family → Bool) : Bool := !queries .inet && !queries .inet6

/-- `choose_any`. -/
def chooseAny (responses : List Sockaddr) : Option Sockaddr := responses.head?

/-- The first response of the family, or the first of all. -/
def chooseFirst (family : Family) (responses : List Sockaddr) : Option Sockaddr :=
  match responses.find? fun a ↦ a.family = family with
  | some a => some a
  | none => chooseAny responses

/-- `choose_ipv4_first`. -/
def chooseIpv4First : List Sockaddr → Option Sockaddr := chooseFirst .inet

/-- `choose_ipv6_first`. -/
def chooseIpv6First : List Sockaddr → Option Sockaddr := chooseFirst .inet6

/-- The address that `process_client_callback` picks. -/
def bestAddress (mode : ResolvMode) (responses : List Sockaddr) : Option Sockaddr :=
  match mode with
  | .ipv4First => chooseIpv4First responses
  | .ipv6First => chooseIpv6First responses
  | _ => chooseAny responses

/-- `client_free_cb` is called if there is one. -/
def freeCalls (clientFreeCb : Bool) : List ClientCall := if clientFreeCb then [.free] else []

/-- `resolv_query`; `submit` says which submissions succeed. Freeing the record sets the handle that
is returned to `NULL`. -/
def resolvQuery (mode : ResolvMode) (clientFreeCb : Bool) (port : UInt16) (submit : Family → Bool) :
    Resolver :=
  let queries := fun f ↦ mode.asks f && submit f
  if allQueriesAreNull queries then ⟨mode, none, queries, false, freeCalls clientFreeCb⟩
  else ⟨mode, some ⟨clientFreeCb, queries, [], port⟩, queries, true, []⟩

/-- `dns_cancel` of a lookup that is under way. -/
def Resolver.dnsCancel (s : Resolver) (f : Family) : Option Resolver :=
  if s.active f then some { s with active := Function.update s.active f false } else none

/-- One turn of the loop of `resolv_cancel`. -/
def Resolver.cancelLookup (s : Resolver) (q : ResolvQuery) (f : Family) : Option Resolver :=
  if q.queries f then s.dnsCancel f else some s

/-- `resolv_cancel`. -/
def resolvCancel (s : Resolver) : Option Resolver := do
  let q ← s.record
  let s ← s.cancelLookup q .inet
  let s ← s.cancelLookup q .inet6
  some { s with record := none, calls := s.calls ++ freeCalls q.clientFreeCb }

/-- `client_cb`: the holder drops its handle. -/
def Resolver.clientCb (s : Resolver) (addr : Option Sockaddr) : Resolver :=
  { s with query := false, calls := s.calls ++ [.callback addr] }

/-- `process_client_callback`. -/
def processClientCallback (s : Resolver) (q : ResolvQuery) : Resolver :=
  let s := s.clientCb (bestAddress s.mode q.responses)
  { s with record := none, calls := s.calls ++ freeCalls q.clientFreeCb }

/-- What the callbacks of the lookups do with the addresses of a family. -/
def dnsQueryCb (f : Family) (result : Option (List (BitVec f.bits))) (s : Resolver) :
    Option Resolver := do
  let q ← s.record
  let q := { q with
    responses := q.responses ++ (result.getD []).map fun a ↦ ⟨f, q.port, a⟩
    queries := Function.update q.queries f false }
  let s := { s with record := some q }
  if allQueriesAreNull q.queries then some (processClientCallback s q) else some s

/-- `dns_query_v4_cb`. -/
def dnsQueryV4Cb : Option (List (BitVec 32)) → Resolver → Option Resolver := dnsQueryCb .inet

/-- `dns_query_v6_cb`. -/
def dnsQueryV6Cb : Option (List (BitVec 128)) → Resolver → Option Resolver := dnsQueryCb .inet6

/-- The callback that a lookup is submitted with. -/
def dnsCallback : (f : Family) → Option (List (BitVec f.bits)) → Resolver → Option Resolver
  | .inet => dnsQueryV4Cb
  | .inet6 => dnsQueryV6Cb

/-- `close_and_free_server`, as far as the query goes. -/
def closeQuery (s : Resolver) : Option Resolver :=
  if s.query then (resolvCancel s).map fun s ↦ { s with query := false } else some s

/-- A lookup ends, with the addresses it found or in failure, or the holder closes. -/
inductive ResolvEvent
  | ended (family : Family) (result : Option (List (BitVec family.bits)))
  | close
  deriving DecidableEq

/-- One event. The DNS library ends only lookups that are under way. -/
def resolvStep (s : Resolver) : ResolvEvent → Option Resolver
  | .ended f result =>
    if s.active f then dnsCallback f result { s with active := Function.update s.active f false }
    else some s
  | .close => closeQuery s

/-! ## What a query is for -/

/-- The events before the holder first closes. -/
def beforeClose (es : List ResolvEvent) : List ResolvEvent := es.takeWhile fun e ↦ e ≠ .close

/-- At least one lookup was submitted. -/
def Submitted (asked : Family → Bool) : Prop := ∃ f, asked f = true

/-- All lookups that were submitted have ended before the holder closed. -/
def Answered (asked : Family → Bool) (es : List ResolvEvent) : Prop :=
  ∀ f, asked f = true → ∃ result, .ended f result ∈ beforeClose es

/-- The query is not over. -/
def Pending (asked : Family → Bool) (es : List ResolvEvent) : Prop :=
  Submitted asked ∧ ¬ Answered asked es ∧ .close ∉ es

/-- What the lookups find before the holder closes, in the order in which they end. -/
def collected (port : UInt16) (asked : Family → Bool) : List ResolvEvent → List Sockaddr
  | [] => []
  | .ended f result :: es =>
    if asked f then
      (result.getD []).map (fun a ↦ ⟨f, port, a⟩) ++
        collected port (Function.update asked f false) es
    else collected port asked es
  | .close :: _ => []

/-- An address of the family if there is one, otherwise the first response, otherwise none. -/
structure Best (prefer : Family) (responses : List Sockaddr) (best : Option Sockaddr) : Prop where
  mem : ∀ a, best = some a → a ∈ responses
  preferred : (∃ a ∈ responses, a.family = prefer) → ∃ a, best = some a ∧ a.family = prefer
  other : (¬ ∃ a ∈ responses, a.family = prefer) → best = responses.head?

/-! ## Steps -/

/-- A query with lookups under way. -/
def waiting (mode : ResolvMode) (clientFreeCb : Bool) (port : UInt16) (asked : Family → Bool)
    (responses : List Sockaddr) : Resolver :=
  ⟨mode, some ⟨clientFreeCb, asked, responses, port⟩, asked, true, []⟩

/-- A query that is over. -/
def finished (mode : ResolvMode) (calls : List ClientCall) : Resolver :=
  ⟨mode, none, fun _ ↦ false, false, calls⟩

variable {mode : ResolvMode} {clientFreeCb : Bool} {port : UInt16} {asked : Family → Bool}
  {responses : List Sockaddr} {calls : List ClientCall}

/-- No lookup is left. -/
theorem allQueriesAreNull_iff : allQueriesAreNull asked = true ↔ ¬ Submitted asked := by
  unfold allQueriesAreNull Submitted
  constructor
  · intro h
    rw [Bool.and_eq_true, Bool.not_eq_true', Bool.not_eq_true'] at h
    rintro ⟨f, hf⟩
    cases f with
    | inet => exact Bool.false_ne_true (h.1.symm.trans hf)
    | inet6 => exact Bool.false_ne_true (h.2.symm.trans hf)
  · intro h
    cases hinet : asked .inet with
    | true => exact absurd ⟨_, hinet⟩ h
    | false =>
      cases hinet6 : asked .inet6 with
      | true => exact absurd ⟨_, hinet6⟩ h
      | false => rfl

/-- A query without lookups has none under way. -/
theorem eq_false_of_not_submitted (h : ¬ Submitted asked) : asked = fun _ ↦ false := by
  funext f
  apply Bool.eq_false_iff.mpr
  intro hf
  exact h ⟨f, hf⟩

/-- Both callbacks do the same for their family. -/
theorem dnsCallback_eq (f : Family) : dnsCallback f = dnsQueryCb f := by
  cases f <;> rfl

/-- Nothing happens to a query that is over. -/
theorem run_finished (es : List ResolvEvent) :
    run resolvStep (finished mode calls) es = some (finished mode calls) := by
  induction es with
  | nil => rfl
  | cons e es ih =>
    have hstep : resolvStep (finished mode calls) e = some (finished mode calls) := by
      cases e <;> rfl
    rw [run_cons_of_some resolvStep es hstep, ih]

/-- A lookup is not under way after its turn. -/
theorem cancelLookup_eq {s : Resolver} {q : ResolvQuery} {f : Family}
    (h : q.queries f = s.active f) :
    s.cancelLookup q f = some { s with active := Function.update s.active f false } := by
  unfold Resolver.cancelLookup Resolver.dnsCancel
  rw [h]
  cases hf : s.active f with
  | true => rfl
  | false =>
    rw [if_neg Bool.false_ne_true, ← hf, Function.update_eq_self]

/-- Without both families nothing is left. -/
theorem update_both (asked : Family → Bool) :
    Function.update (Function.update asked .inet false) .inet6 false = fun _ ↦ false := by
  funext f
  cases f <;> rfl

/-- The holder cancels a query that is pending. -/
theorem resolvCancel_waiting :
    resolvCancel (waiting mode clientFreeCb port asked responses) =
      some ⟨mode, none, fun _ ↦ false, true, freeCalls clientFreeCb⟩ := by
  unfold resolvCancel waiting
  simp only [Option.bind_eq_bind, Option.bind_some]
  rw [cancelLookup_eq rfl, Option.bind_some, cancelLookup_eq rfl, Option.bind_some,
    ← update_both asked]
  rfl

/-- A query that is over has no handle and no record to cancel. -/
theorem over_finished {P : Prop} (h : ¬ P) :
    ((finished mode calls).query = true ↔ P) ∧
      ((∃ t, resolvCancel (finished mode calls) = some t) ↔ P) := by
  constructor
  · exact ⟨fun hq ↦ absurd hq Bool.false_ne_true, fun hP ↦ absurd hP h⟩
  · constructor
    · rintro ⟨t, ht⟩
      cases ht
    · exact fun hP ↦ absurd hP h

/-- The holder closes while the query is pending. -/
theorem step_close :
    resolvStep (waiting mode clientFreeCb port asked responses) .close =
      some (finished mode (freeCalls clientFreeCb)) := by
  show (resolvCancel (waiting mode clientFreeCb port asked responses)).map _ = _
  rw [resolvCancel_waiting]
  rfl

/-- A lookup that is not under way does not end. -/
theorem step_not_asked {f : Family} (hf : asked f = false) (result : Option (List (BitVec f.bits))) :
    resolvStep (waiting mode clientFreeCb port asked responses) (.ended f result) =
      some (waiting mode clientFreeCb port asked responses) := by
  have hactive : (waiting mode clientFreeCb port asked responses).active f ≠ true := by
    rw [show (waiting mode clientFreeCb port asked responses).active f = asked f from rfl, hf]
    exact Bool.false_ne_true
  exact if_neg hactive

/-- A lookup ends. -/
theorem step_asked {f : Family} (hf : asked f = true) (result : Option (List (BitVec f.bits))) :
    resolvStep (waiting mode clientFreeCb port asked responses) (.ended f result) =
      let rest := Function.update asked f false
      let collected := responses ++ (result.getD []).map fun a ↦ ⟨f, port, a⟩
      if allQueriesAreNull rest then
        some (finished mode (.callback (bestAddress mode collected) :: freeCalls clientFreeCb))
      else some (waiting mode clientFreeCb port rest collected) := by
  have hactive : (waiting mode clientFreeCb port asked responses).active f = true := hf
  show (if _ then dnsCallback f result _ else _) = _
  rw [if_pos hactive, dnsCallback_eq]
  show (if allQueriesAreNull (Function.update asked f false) then _ else _ : Option Resolver) = _
  by_cases hnull : allQueriesAreNull (Function.update asked f false) = true
  · have hfalse := eq_false_of_not_submitted (allQueriesAreNull_iff.mp hnull)
    simp only [if_pos hnull]
    unfold processClientCallback Resolver.clientCb finished waiting
    simp only [hfalse, List.nil_append, List.singleton_append]
  · simp only [if_neg hnull]
    rfl

/-! ## Runs -/

/-- The rest of the lookups decide when one has ended. -/
theorem answered_ended {f : Family} (result : Option (List (BitVec f.bits)))
    (es : List ResolvEvent) :
    Answered asked (.ended f result :: es) ↔ Answered (Function.update asked f false) es := by
  unfold Answered beforeClose
  rw [List.takeWhile_cons_of_pos (by simp)]
  constructor
  · intro h g hg
    have hne : g ≠ f := by
      intro hgf
      rw [hgf, Function.update_self] at hg
      cases hg
    rw [Function.update_of_ne hne] at hg
    obtain ⟨r, hr⟩ := h g hg
    rcases List.mem_cons.mp hr with heq | hmem
    · cases heq
      exact absurd rfl hne
    · exact ⟨r, hmem⟩
  · intro h g hg
    by_cases hgf : g = f
    · cases hgf
      exact ⟨result, List.mem_cons_self⟩
    · obtain ⟨r, hr⟩ := h g (by rwa [Function.update_of_ne hgf])
      exact ⟨r, List.mem_cons_of_mem _ hr⟩

/-- A lookup that ends leaves the query pending where the rest is. -/
theorem pending_ended {f : Family} (result : Option (List (BitVec f.bits))) (es : List ResolvEvent) :
    Pending asked (.ended f result :: es) ↔ Pending (Function.update asked f false) es := by
  unfold Pending
  rw [answered_ended, List.mem_cons, or_iff_right (by simp)]
  constructor
  · rintro ⟨_, hopen, hclose⟩
    refine ⟨?_, hopen, hclose⟩
    -- what has not been answered has been asked
    by_contra hnone
    exact hopen fun g hg ↦ absurd ⟨g, hg⟩ hnone
  · rintro ⟨⟨g, hg⟩, hopen, hclose⟩
    refine ⟨⟨g, ?_⟩, hopen, hclose⟩
    by_cases hgf : g = f
    · rw [hgf, Function.update_self] at hg
      cases hg
    · rwa [Function.update_of_ne hgf] at hg

/-- Nothing is collected without lookups. -/
theorem collected_of_not_submitted (h : ¬ Submitted asked) (es : List ResolvEvent) :
    collected port asked es = [] := by
  induction es with
  | nil => rfl
  | cons e es ih =>
    cases e with
    | close => rfl
    | ended f result =>
      have hf : ¬ asked f = true := fun hf ↦ h ⟨f, hf⟩
      unfold collected
      rw [if_neg hf]
      exact ih

/-- A pending query after any events: it is still pending, has been answered, or was cancelled. -/
theorem run_waiting (hasked : Submitted asked) (es : List ResolvEvent) :
    (Pending asked es ∧ ∃ rest more, run resolvStep (waiting mode clientFreeCb port asked responses)
        es = some (waiting mode clientFreeCb port rest more)) ∨
      (Answered asked es ∧ run resolvStep (waiting mode clientFreeCb port asked responses) es =
        some (finished mode (.callback (bestAddress mode (responses ++ collected port asked es)) ::
          freeCalls clientFreeCb))) ∨
      (¬ Pending asked es ∧ ¬ Answered asked es ∧
        run resolvStep (waiting mode clientFreeCb port asked responses) es =
          some (finished mode (freeCalls clientFreeCb))) := by
  induction es generalizing asked responses with
  | nil =>
    left
    refine ⟨⟨hasked, ?_, List.not_mem_nil⟩, asked, responses, rfl⟩
    intro h
    obtain ⟨f, hf⟩ := hasked
    obtain ⟨r, hr⟩ := h f hf
    cases hr
  | cons e es ih =>
    cases e with
    | close =>
      right
      right
      refine ⟨fun h ↦ h.2.2 List.mem_cons_self, ?_, ?_⟩
      · intro h
        obtain ⟨f, hf⟩ := hasked
        obtain ⟨r, hr⟩ := h f hf
        cases hr
      · rw [run_cons_of_some resolvStep es step_close, run_finished]
    | ended f result =>
      rw [pending_ended, answered_ended]
      cases hf : asked f with
      | false =>
        have hsame : Function.update asked f false = asked := by
          rw [← hf, Function.update_eq_self]
        rw [hsame, run_cons_of_some resolvStep es (step_not_asked hf result)]
        have hcollected : collected port asked (.ended f result :: es) = collected port asked es := by
          show (if asked f then _ else _) = _
          rw [hf]
          rfl
        rw [hcollected]
        exact ih hasked
      | true =>
        have hstep := @step_asked mode clientFreeCb port asked responses f hf result
        have hcollected : collected port asked (.ended f result :: es) =
            (result.getD []).map (fun a ↦ ⟨f, port, a⟩) ++
              collected port (Function.update asked f false) es := if_pos hf
        rw [hcollected, ← List.append_assoc]
        by_cases hrest : Submitted (Function.update asked f false)
        · simp only [if_neg fun h ↦ allQueriesAreNull_iff.mp h hrest] at hstep
          rw [run_cons_of_some resolvStep es hstep]
          exact ih hrest
        · simp only [if_pos (allQueriesAreNull_iff.mpr hrest)] at hstep
          rw [run_cons_of_some resolvStep es hstep, run_finished]
          right
          left
          refine ⟨fun g hg ↦ absurd ⟨g, hg⟩ hrest, ?_⟩
          rw [collected_of_not_submitted hrest, List.append_nil]

/-- The address that is picked for either preference. -/
theorem best_chooseFirst (prefer : Family) (responses : List Sockaddr) :
    Best prefer responses (chooseFirst prefer responses) := by
  unfold chooseFirst chooseAny
  cases h : responses.find? fun a ↦ a.family = prefer with
  | none =>
    have hnone : ¬ ∃ a ∈ responses, a.family = prefer := by
      rintro ⟨a, ha, hfamily⟩
      have hmiss := List.find?_eq_none.mp h a ha
      exact hmiss (decide_eq_true hfamily)
    refine ⟨fun a ha ↦ List.mem_of_head? ha, fun hsome ↦ absurd hsome hnone, fun _ ↦ rfl⟩
  | some a =>
    have hmem := List.mem_of_find?_eq_some h
    have hfamily : a.family = prefer := by simpa using List.find?_some h
    refine ⟨fun b hb ↦ ?_, fun _ ↦ ⟨a, rfl, hfamily⟩, fun hnone ↦ absurd ⟨a, hmem, hfamily⟩ hnone⟩
    rw [← Option.some.inj hb]
    exact hmem

/-- The family that `resolv_init` prefers. -/
def preferred (ipv6first : Bool) : Family := if ipv6first then .inet6 else .inet

/-- The address for the mode that `resolv_init` sets. -/
theorem bestAddress_resolvInit (ipv6first : Bool) (responses : List Sockaddr) :
    Best (preferred ipv6first) responses (bestAddress (resolvInit ipv6first) responses) := by
  cases ipv6first with
  | false => exact best_chooseFirst .inet responses
  | true => exact best_chooseFirst .inet6 responses

/-- With either preference both families are asked for. -/
theorem resolvQuery_resolvInit (ipv6first clientFreeCb : Bool) (port : UInt16)
    (submit : Family → Bool) :
    resolvQuery (resolvInit ipv6first) clientFreeCb port submit =
      if allQueriesAreNull submit then
        finished (resolvInit ipv6first) (freeCalls clientFreeCb)
      else waiting (resolvInit ipv6first) clientFreeCb port submit [] := by
  have hasks : (fun f ↦ (resolvInit ipv6first).asks f && submit f) = submit := by
    funext f
    cases ipv6first <;> cases f <;> rfl
  unfold resolvQuery
  simp only [hasks]
  by_cases hnull : allQueriesAreNull submit = true
  · simp only [if_pos hnull]
    have hfalse := eq_false_of_not_submitted (allQueriesAreNull_iff.mp hnull)
    unfold finished
    rw [hfalse]
  · simp only [if_neg hnull]
    rfl

/-- Whatever is submitted, ends and is closed, no step touches a freed record; the holder has a
handle, and the query may be cancelled, exactly while it is pending; the client is called back once,
with the best address, when all submitted lookups have ended; and its data is freed once, when the
query is over. -/
theorem resolver_discipline (ipv6first clientFreeCb : Bool) (port : UInt16)
    (submit : Family → Bool) (es : List ResolvEvent) :
    ∃ s best, run resolvStep (resolvQuery (resolvInit ipv6first) clientFreeCb port submit) es =
        some s ∧
      Best (preferred ipv6first) (collected port submit es) best ∧
      (s.query = true ↔ Pending submit es) ∧
      ((∃ t, resolvCancel s = some t) ↔ Pending submit es) ∧
      (Pending submit es → s.calls = []) ∧
      (Submitted submit → Answered submit es →
        s.calls = .callback best :: freeCalls clientFreeCb) ∧
      (¬ Pending submit es → ¬ (Submitted submit ∧ Answered submit es) →
        s.calls = freeCalls clientFreeCb) := by
  have hbest := bestAddress_resolvInit ipv6first (collected port submit es)
  rw [resolvQuery_resolvInit]
  by_cases hsubmitted : Submitted submit
  · rw [if_neg fun h ↦ allQueriesAreNull_iff.mp h hsubmitted]
    rcases @run_waiting (resolvInit ipv6first) clientFreeCb port submit [] hsubmitted es with
      ⟨hpending, rest, more, hrun⟩ | ⟨hanswered, hrun⟩ | ⟨hover, hopen, hrun⟩
    · refine ⟨_, _, hrun, hbest, ⟨fun _ ↦ hpending, fun _ ↦ rfl⟩,
        ⟨fun _ ↦ hpending, fun _ ↦ ⟨_, resolvCancel_waiting⟩⟩, fun _ ↦ rfl, ?_, ?_⟩
      · exact fun _ h ↦ absurd h hpending.2.1
      · exact fun h ↦ absurd hpending h
    · have hover : ¬ Pending submit es := fun h ↦ h.2.1 hanswered
      refine ⟨_, _, hrun, hbest, (over_finished hover).1, (over_finished hover).2,
        fun h ↦ absurd h hover, fun _ _ ↦ rfl, ?_⟩
      exact fun _ h ↦ absurd ⟨hsubmitted, hanswered⟩ h
    · refine ⟨_, _, hrun, hbest, (over_finished hover).1, (over_finished hover).2,
        fun h ↦ absurd h hover, ?_, fun _ _ ↦ rfl⟩
      exact fun _ h ↦ absurd h hopen
  · have hover : ¬ Pending submit es := fun h ↦ hsubmitted h.1
    rw [if_pos (allQueriesAreNull_iff.mpr hsubmitted)]
    refine ⟨_, _, run_finished es, hbest, (over_finished hover).1, (over_finished hover).2,
      fun h ↦ absurd h hover, ?_, fun _ _ ↦ rfl⟩
    exact fun h ↦ absurd h hsubmitted

end OpenWrtCompile.Server
