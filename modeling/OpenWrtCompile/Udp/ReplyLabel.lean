import OpenWrtCompile.Udp.Relay

/-!
# The header of a forwarded reply

`remote_recv_cb` puts the `addr_header` of a domain context before every reply that arrives on its
socket (`udprelay.c:757–789`), but `query_resolve_cb` sends the datagrams of other domains through
that socket too (`udprelay.c:579–643`).
-/

namespace OpenWrtCompile.Udp
open OpenWrtCompile.Base

/-- The header of a reply is the peer's own address and port, or names the domain and port whose
datagrams, and no other ones, went to that peer through the same context. -/
def LabelRight (lib : AddrLib) (sent : List Sent) (f : Forwarded) : Prop :=
  f.label = constructUdprelayHeader f.peer ∨
    ∃ d, destination lib f.label = some d ∧ (∃ x ∈ sent, x.remote = f.remote ∧ x.dst = f.peer) ∧
      ∀ x ∈ sent, x.remote = f.remote → x.dst = f.peer → destination lib x.addrHeader = some d

/-- What holds of a relay as long as each domain context serves one destination. -/
structure LabelInv (env : RelayEnv) (s : Relay) : Prop where
  right : ∀ f ∈ s.forwarded, LabelRight env.lib s.sent f
  labels : ∀ f ∈ s.forwarded, ∀ c, s.remote f.remote = some c →
    if c.af = .unspec then f.label = c.addrHeader else f.label = constructUdprelayHeader f.peer
  forwardedBy : ∀ f ∈ s.forwarded, f.remote < s.remotes.length
  sent : ∀ x ∈ s.sent, ∀ c, s.remote x.remote = some c → c.af = .unspec →
    destination env.lib x.addrHeader = destination env.lib c.addrHeader
  sentBy : ∀ x ∈ s.sent, x.remote < s.remotes.length
  remotes : ∀ id c, s.remote id = some c → c.af = .unspec →
    ∃ d, destination env.lib c.addrHeader = some d
  queries : ∀ (i : Nat) q, s.queries[i]?.join = some q →
    ∃ d, destination env.lib q.addrHeader = some d
  inUse : ∀ e ∈ s.connCache, e.2 < s.remotes.length
  family : ∀ e ∈ s.connCache, ∀ c, s.remote e.2 = some c → c.af = e.1.1

/-- An answer goes to a domain context of its own destination only, and a domain context hears from
no peer but those it has sent to. -/
structure OwnContext (env : RelayEnv) (s : Relay) (e : Event) : Prop where
  answer : ∀ k i a q id c, e = .answer k i (some a) → s.queries[i]?.join = some q →
    answerRemote s q = some id → s.remote id = some c → c.af = .unspec →
      destination env.lib q.addrHeader = destination env.lib c.addrHeader
  reply : ∀ id peer data c, e = .reply id peer data true → s.remote id = some c →
    c.af = .unspec → ∃ x ∈ s.sent, x.remote = id ∧ x.dst = peer

namespace LabelInv

variable {env : RelayEnv} {s : Relay}

/-- Nothing has happened yet. -/
theorem start : LabelInv env .start where
  right f hf := by cases hf
  labels f hf := by cases hf
  forwardedBy f hf := by cases hf
  sent x hx := by cases hx
  sentBy x hx := by cases hx
  remotes id c h := by cases h
  queries i q h := by cases h
  inUse e he := by cases he
  family e he := by cases he

/-- Reordering the cache changes nothing. -/
theorem withCache (hi : LabelInv env s) {cache : List ((AddrFamily × SockAddr) × Nat)}
    (hp : cache.Perm s.connCache) : LabelInv env (s.withCache cache) :=
  { hi with
    inUse := fun e he ↦ hi.inUse e (hp.mem_iff.mp he)
    family := fun e he ↦ hi.family e (hp.mem_iff.mp he) }

/-- A datagram of the context's own destination. -/
theorem sendTo (hi : LabelInv env s) (k : Kernel) {x : Sent} {c : RemoteCtx}
    (hc : s.remote x.remote = some c)
    (hx : c.af = .unspec → destination env.lib x.addrHeader = destination env.lib c.addrHeader) :
    LabelInv env (s.sendTo k x) where
  right f hf := by
    rw [Relay.forwarded_sendTo] at hf
    rcases hi.right f hf with h | ⟨d, hd, ⟨y, hy, hyr, hyd⟩, hall⟩
    · exact .inl h
    · by_cases hown : f.label = constructUdprelayHeader f.peer
      · exact .inl hown
      · refine .inr ⟨d, hd, ⟨y, s.sent_subset_sendTo k x hy, hyr, hyd⟩, ?_⟩
        intro z hz hzr hzd
        rcases Relay.mem_sendTo hz with h | h
        · exact hall z h hzr hzd
        · -- the new datagram went through the context that labelled the reply
          rw [h] at hzr ⊢
          have hlabel := hi.labels f hf c (by rw [← hzr]; exact hc)
          split at hlabel
          · next haf => rw [hx haf, ← hlabel, hd]
          · exact absurd hlabel hown
  labels := by simpa only [Relay.forwarded_sendTo, Relay.remote_sendTo] using hi.labels
  forwardedBy := by
    simpa only [Relay.forwarded_sendTo, Relay.remotes_sendTo] using hi.forwardedBy
  sent y hy d hd haf := by
    rw [Relay.remote_sendTo] at hd
    rcases Relay.mem_sendTo hy with h | h
    · exact hi.sent y h d hd haf
    · rw [h] at hd ⊢
      rw [hc] at hd
      rw [← Option.some.inj hd] at haf ⊢
      exact hx haf
  sentBy y hy := by
    rw [Relay.remotes_sendTo]
    rcases Relay.mem_sendTo hy with h | h
    · exact hi.sentBy y h
    · rw [h]
      exact Relay.lt_of_remote hc
  remotes := by simpa only [Relay.remote_sendTo] using hi.remotes
  queries := by simpa only [Relay.queries_sendTo] using hi.queries
  inUse := by simpa only [Relay.connCache_sendTo, Relay.remotes_sendTo] using hi.inUse
  family := by simpa only [Relay.connCache_sendTo, Relay.remote_sendTo] using hi.family

/-- A query for a domain. -/
theorem addQuery (hi : LabelInv env s) {q : QueryCtx}
    (hq : ∃ d, destination env.lib q.addrHeader = some d) : LabelInv env (s.addQuery q) :=
  { hi with
    queries := by
      intro i p hp
      simp only [Relay.addQuery, List.getElem?_append] at hp
      split at hp
      · exact hi.queries i p hp
      · cases hn : i - s.queries.length with
        | zero =>
          rw [hn] at hp
          rw [← Option.some.inj hp]
          exact hq
        | succ n =>
          rw [hn] at hp
          cases hp }

/-- A new context and the datagram it was made for, under its own header. -/
theorem openRemote (hi : LabelInv env s) (k : Kernel) {c : RemoteCtx} {data : Bytes}
    (hc : c.af = .unspec → ∃ d, destination env.lib c.addrHeader = some d) :
    LabelInv env (s.openRemote k c data) := by
  unfold Relay.openRemote
  split
  · next hok =>
    rw [Bool.and_eq_true] at hok
    have hsend : s.sendTo k ⟨s.remotes.length, c.addrHeader, c.dstAddr, data⟩ =
        { s with sent := s.sent ++ [⟨s.remotes.length, c.addrHeader, c.dstAddr, data⟩] } := by
      unfold Relay.sendTo
      rw [if_pos hok.2]
    have hlen : s.remotes.length < ((s.sendTo k
        ⟨s.remotes.length, c.addrHeader, c.dstAddr, data⟩).addRemote c).remotes.length := by
      unfold Relay.addRemote
      simp only [Relay.remotes_sendTo]
      split <;> simp
    have hremote (j : Nat) (d : RemoteCtx) (h : ((s.sendTo k
          ⟨s.remotes.length, c.addrHeader, c.dstAddr, data⟩).addRemote c).remote j = some d) :
        (j = s.remotes.length ∧ d = c) ∨ (j < s.remotes.length ∧ s.remote j = some d) := by
      have := Relay.remote_addRemote h
      simpa only [Relay.remotes_sendTo, Relay.remote_sendTo] using this
    have hcache (e) (he : e ∈ ((s.sendTo k
          ⟨s.remotes.length, c.addrHeader, c.dstAddr, data⟩).addRemote c).connCache) :
        e ∈ s.connCache ∨ e = ((c.af, c.srcAddr), s.remotes.length) := by
      have := Lru.mem_of_mem_insert he
      simpa only [Relay.connCache_sendTo, Relay.remotes_sendTo] using this
    have hsent (x) (hx : x ∈ ((s.sendTo k
          ⟨s.remotes.length, c.addrHeader, c.dstAddr, data⟩).addRemote c).sent) :
        x ∈ s.sent ∨ x = ⟨s.remotes.length, c.addrHeader, c.dstAddr, data⟩ := Relay.mem_sendTo hx
    have hforwarded : ((s.sendTo k
        ⟨s.remotes.length, c.addrHeader, c.dstAddr, data⟩).addRemote c).forwarded = s.forwarded :=
      Relay.forwarded_sendTo s k _
    refine ⟨?_, ?_, ?_, ?_, ?_, ?_, ?_, ?_, ?_⟩
    · intro f hf
      rw [hforwarded] at hf
      rcases hi.right f hf with h | ⟨d, hd, ⟨y, hy, hyr, hyd⟩, hall⟩
      · exact .inl h
      · refine .inr ⟨d, hd, ⟨y, s.sent_subset_sendTo k _ hy, hyr, hyd⟩, ?_⟩
        intro z hz hzr hzd
        rcases hsent z hz with h | h
        · exact hall z h hzr hzd
        · have := hi.forwardedBy f hf
          rw [h] at hzr
          simp only at hzr
          omega
    · intro f hf d hd
      rw [hforwarded] at hf
      have hlt := hi.forwardedBy f hf
      rcases hremote _ d hd with ⟨hid, -⟩ | ⟨-, h⟩
      · omega
      · exact hi.labels f hf d h
    · intro f hf
      rw [hforwarded] at hf
      exact Nat.lt_trans (hi.forwardedBy f hf) hlen
    · intro x hx d hd haf
      rcases hsent x hx with h | h
      · have hlt := hi.sentBy x h
        rcases hremote _ d hd with ⟨hid, -⟩ | ⟨-, hold⟩
        · omega
        · exact hi.sent x h d hold haf
      · rw [h] at hd ⊢
        rcases hremote _ d hd with ⟨-, hdc⟩ | ⟨hlt, -⟩
        · rw [hdc]
        · exact absurd hlt (Nat.lt_irrefl _)
    · intro x hx
      rcases hsent x hx with h | h
      · exact Nat.lt_trans (hi.sentBy x h) hlen
      · rw [h]
        exact hlen
    · intro id d hd haf
      rcases hremote id d hd with ⟨-, h⟩ | ⟨-, h⟩
      · rw [h] at haf ⊢
        exact hc haf
      · exact hi.remotes id d h haf
    · intro i q hq
      have hq' : s.queries[i]?.join = some q := by
        rw [hsend] at hq
        exact hq
      exact hi.queries i q hq'
    · intro e he
      rcases hcache e he with h | h
      · exact Nat.lt_trans (hi.inUse e h) hlen
      · rw [h]
        exact hlen
    · intro e he d hd
      rcases hcache e he with h | h
      · have hlt := hi.inUse e h
        rcases hremote _ d hd with ⟨hid, -⟩ | ⟨-, hold⟩
        · omega
        · exact hi.family e h d hold
      · rw [h] at hd ⊢
        rcases hremote _ d hd with ⟨-, hdc⟩ | ⟨hlt, -⟩
        · rw [hdc]
        · exact absurd hlt (Nat.lt_irrefl _)
  · exact hi

/-- A query that is answered. -/
theorem resolve (hi : LabelInv env s) (i : Nat) (r : Resolved) : LabelInv env (s.resolve i r) :=
  { hi with
    queries := by
      intro j q h
      simp only [Relay.resolve, List.getElem?_set] at h
      split at h
      · split at h <;> cases h
      · exact hi.queries j q h }

/-- Contexts may be overwritten if they keep their family and header, and freed. -/
theorem setRemote (hi : LabelInv env s) (id : Nat) (oc : Option RemoteCtx)
    (hoc : ∀ d, oc = some d → ∃ c, s.remote id = some c ∧ d.af = c.af ∧
      d.addrHeader = c.addrHeader) :
    LabelInv env { s with remotes := s.remotes.set id oc } := by
  have hold (j : Nat) (d : RemoteCtx)
      (h : Relay.remote { s with remotes := s.remotes.set id oc } j = some d) :
      ∃ c, s.remote j = some c ∧ d.af = c.af ∧ d.addrHeader = c.addrHeader := by
    rcases Relay.remote_set h with ⟨hj, h⟩ | ⟨-, h⟩
    · rw [hj]
      exact hoc d h
    · exact ⟨d, h, rfl, rfl⟩
  refine ⟨hi.right, ?_, ?_, ?_, ?_, ?_, hi.queries, ?_, ?_⟩
  · intro f hf d hd
    rcases hold _ d hd with ⟨c, hc, haf, hh⟩
    rw [haf, hh]
    exact hi.labels f hf c hc
  · simpa only [List.length_set] using hi.forwardedBy
  · intro x hx d hd haf'
    rcases hold _ d hd with ⟨c, hc, haf, hh⟩
    rw [hh]
    exact hi.sent x hx c hc (haf ▸ haf')
  · simpa only [List.length_set] using hi.sentBy
  · intro j d hd haf'
    rcases hold j d hd with ⟨c, hc, haf, hh⟩
    rw [hh]
    exact hi.remotes j c hc (haf ▸ haf')
  · simpa only [List.length_set] using hi.inUse
  · intro e he d hd
    rcases hold _ d hd with ⟨c, hc, haf, -⟩
    rw [haf]
    exact hi.family e he c hc

end LabelInv

/-- A step through a context of its own destination keeps every label right. -/
theorem labelInv_step (env : RelayEnv) (s : Relay) (e : Event) (t : Relay) (hi : LabelInv env s)
    (hgood : OwnContext env s e) (h : relayStep env s e = some t) : LabelInv env t := by
  cases relayStep_effect env s t e h with
  | same => exact hi
  | noAnswer k i =>
    refine { hi with queries := ?_ }
    intro j q hq
    simp only [List.getElem?_set] at hq
    split at hq
    · split at hq <;> cases hq
    · exact hi.queries j q hq
  | dropped k src buf cache perm => exact hi.withCache perm
  | queried k src buf cache perm hd parsed name remoteCtx alive =>
    apply (hi.withCache perm).addQuery
    rw [destination_take env.lib buf hd parsed, if_pos name]
    exact ⟨_, rfl⟩
  | opened k src buf cache perm hd parsed literal miss =>
    apply (hi.withCache perm).openRemote k
    intro haf
    exact absurd haf literal
  | sentLiteral k src buf cache perm hd parsed literal id c hit alive =>
    apply (hi.withCache perm).sendTo k (c := c)
    · exact alive
    · intro haf
      -- the context was found under the family of the literal
      have hfam := hi.family _ (Lru.mem_of_lookup hit) c alive
      rw [haf] at hfam
      exact absurd hfam.symm literal
  | sentKnown k src buf cache perm hd parsed id c hit alive same =>
    apply (hi.withCache perm).sendTo k (c := c)
    · exact alive
    · intro _
      rw [same]
  | answered k i family addr cache perm q query id c hit alive =>
    unfold resolveHit
    have hset := ((hi.resolve i ⟨q.host, family, addr⟩).withCache perm).setRemote id
      (some { c with dstAddr := ⟨family, addr, q.port⟩, dstOf := (q.host, q.port) })
      (fun d hd ↦ ⟨c, alive, by rw [← Option.some.inj hd], by rw [← Option.some.inj hd]⟩)
    apply hset.sendTo k
    · unfold Relay.remote
      simp only [Relay.withCache, Relay.resolve]
      rw [List.getElem?_set_self (Relay.lt_of_remote alive)]
      rfl
    · intro haf
      exact hgood.answer k i (family, addr) q id c rfl query hit alive haf
  | answeredNew k i family addr cache perm q query miss =>
    apply ((hi.resolve i _).withCache perm).openRemote k
    intro _
    exact hi.queries i q query
  | replied id peer data c alive =>
    refine ⟨?_, ?_, ?_, hi.sent, hi.sentBy, hi.remotes, hi.queries, hi.inUse, hi.family⟩
    · intro f hf
      rcases List.mem_append.mp hf with hold | hnew
      · exact hi.right f hold
      · rw [List.mem_singleton.mp hnew]
        unfold replyLabel
        by_cases haf : c.af = .unspec
        · rcases hi.remotes id c alive haf with ⟨d, hd⟩
          refine .inr ⟨d, ?_, hgood.reply id peer data c rfl alive haf, ?_⟩
          · simp only [haf, reduceCtorEq, or_self, if_false, hd]
          · intro x hx hxr _
            rw [hi.sent x hx c (by rw [hxr]; exact alive) haf, hd]
        · left
          have hin : c.af = .inet ∨ c.af = .inet6 := by
            cases hc : c.af with
            | unspec => exact absurd hc haf
            | inet => exact .inl rfl
            | inet6 => exact .inr rfl
          simp only [hin, if_true]
    · intro f hf d hd
      rcases List.mem_append.mp hf with hold | hnew
      · exact hi.labels f hold d hd
      · rw [List.mem_singleton.mp hnew] at hd ⊢
        have hcd : c = d := Option.some.inj (alive.symm.trans hd)
        rw [← hcd]
        unfold replyLabel
        cases hc : c.af with
        | unspec => simp
        | inet => simp
        | inet6 => simp
    · intro f hf
      rcases List.mem_append.mp hf with hold | hnew
      · exact hi.forwardedBy f hold
      · rw [List.mem_singleton.mp hnew]
        exact Relay.lt_of_remote alive
  | expired id key old =>
    have hset := hi.setRemote old none (fun d hd ↦ by cases hd)
    exact { hset with
      inUse := fun e he ↦ hset.inUse e (Lru.mem_of_mem_remove he)
      family := fun e he ↦ hset.family e (Lru.mem_of_mem_remove he) }

/-- **Labels.** In a run in which each answer goes to a domain context of its own destination, and
domain contexts hear only from peers they have sent to, every reply is forwarded under the peer's own
address or under the one domain and port whose datagrams went to that peer. -/
theorem replies_carry_own_label (env : RelayEnv) (es : List Event)
    (ha : Along (relayStep env) (OwnContext env) .start es) (t : Relay)
    (ht : run (relayStep env) .start es = some t) :
    ∀ f ∈ t.forwarded, LabelRight env.lib t.sent f :=
  (run_invariant_along (relayStep env) (OwnContext env) (LabelInv env) (labelInv_step env)
    LabelInv.start ha ht).right

/-- Datagrams for `a:80` and `b:80` are answered in turn; the reply of `b` is forwarded under the
header of `a:80`. -/
theorem reply_under_other_label :
    ∃ t, run (relayStep plainRelay) .start
        [.datagram allOk exampleClient [3, 1, 97, 0, 80, 1],
          .datagram allOk exampleClient [3, 1, 98, 0, 80, 2],
          .answer allOk 0 (some (.inet, [1, 1, 1, 1])), .answer allOk 1 (some (.inet, [2, 2, 2, 2])),
          .reply 0 ⟨.inet, [2, 2, 2, 2], [0, 80]⟩ [7] true] = some t ∧
      Forwarded.mk 0 exampleClient ⟨.inet, [2, 2, 2, 2], [0, 80]⟩ [3, 1, 97, 0, 80] [7] ∈
        t.forwarded ∧
      ¬ ∀ f ∈ t.forwarded, LabelRight plainRelay.lib t.sent f := by
  refine ⟨_, rfl, by decide, ?_⟩
  intro h
  have hf := h ⟨0, exampleClient, ⟨.inet, [2, 2, 2, 2], [0, 80]⟩, [3, 1, 97, 0, 80], [7]⟩
    (by decide)
  rcases hf with hpeer | ⟨d, hd, -, hall⟩
  · revert hpeer
    decide
  · -- the label names `a`, but what went to the peer was for `b`
    have hd' : d = ([97], [0, 80]) := (Option.some.inj hd).symm
    have hx := hall ⟨0, [3, 1, 98, 0, 80], ⟨.inet, [2, 2, 2, 2], [0, 80]⟩, [2]⟩ (by decide)
      rfl rfl
    rw [hd'] at hx
    revert hx
    decide

/-- `replies_carry_own_label` on one domain and the reply of its address. -/
theorem reply_of_one_domain :
    ∃ t, run (relayStep plainRelay) .start
        [.datagram allOk exampleClient [3, 1, 97, 0, 80, 1], .answer allOk 0 (some (.inet, [1, 1, 1, 1])),
          .reply 0 ⟨.inet, [1, 1, 1, 1], [0, 80]⟩ [7] true] = some t ∧
      ∀ f ∈ t.forwarded, LabelRight plainRelay.lib t.sent f := by
  refine ⟨_, rfl, ?_⟩
  apply replies_carry_own_label plainRelay
    [.datagram allOk exampleClient [3, 1, 97, 0, 80, 1], .answer allOk 0 (some (.inet, [1, 1, 1, 1])),
      .reply 0 ⟨.inet, [1, 1, 1, 1], [0, 80]⟩ [7] true] _ _ rfl
  refine ⟨⟨?_, ?_⟩, fun s hs ↦ ⟨⟨?_, ?_⟩, fun u hu ↦ ⟨⟨?_, ?_⟩, fun _ _ ↦ trivial⟩⟩⟩
  · intro k i a q id c he
    cases he
  · intro id peer data c he
    cases he
  · intro k i a q id c he hq hid hc
    cases he
    rw [← Option.some.inj hs] at hq hid hc
    rw [← Option.some.inj hq] at hid
    cases hid
  · intro id peer data c he
    cases he
  · intro k i a q id c he
    cases he
  · intro id peer data c he hc haf
    cases he
    rw [← Option.some.inj hs] at hu
    rw [← Option.some.inj hu]
    exact ⟨⟨0, [3, 1, 97, 0, 80], ⟨.inet, [1, 1, 1, 1], [0, 80]⟩, [1]⟩, by decide, rfl, rfl⟩

end OpenWrtCompile.Udp
