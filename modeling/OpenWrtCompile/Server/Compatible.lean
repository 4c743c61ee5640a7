import OpenWrtCompile.Base.Run
import OpenWrtCompile.Server.Plugins

/-!
# The compatible modes

`shadowsocksr-libev/src/server/server.c:677–772` and `1279–1309`. With `obfs_compatible` or
`protocol_compatible` a segment that a plugin does not take goes on as it was. A request is compared
with a server without the two options, and a response with the layers of the request.
-/

namespace OpenWrtCompile.Server.LayeredConn
open OpenWrtCompile.Base

variable {σ κ ρ π : Type} (env : ServerEnv σ κ) (plugins : Plugins ρ π) (compatible : Compatible)

/-- What `server_decode` returns, where there is one. -/
def decodeOf (s : LayeredConn σ κ ρ π) (buf : Buffer) : Option Int :=
  (plugins.obfs.bind (·.serverDecode)).bind fun f ↦ (f s.obfs buf.array buf.len).map (·.ret)

/-- What `server_post_decrypt` returns, where there is one. -/
def postDecryptOf (s : LayeredConn σ κ ρ π) (buf : Buffer) : Option Int :=
  (plugins.protocol.bind (·.serverPostDecrypt)).bind fun f ↦
    (f s.protocol buf.array buf.len).map (·.ret)

/-- What `server_decode` returns for a segment, where it is called. -/
def decodeReturns (s : LayeredConn σ κ ρ π) (seg : Bytes) : Option Int :=
  match readStage env s.conn seg with
  | .next (_, buf) => decodeOf plugins s buf
  | _ => none

/-- What `server_post_decrypt` returns for a segment, where it is called. -/
def postDecryptReturns (s : LayeredConn σ κ ρ π) (seg : Bytes) : Option Int :=
  match readStage env s.conn seg with
  | .next (conn, buf) =>
    match decodeStage plugins compatible s buf with
    | some (s, buf, false) =>
      (decryptSegment env conn.dCtx buf).bind fun r ↦ postDecryptOf plugins s r.2
    | _ => none
  | _ => none

/-- A segment is too little for `server_post_decrypt` to put anything out. -/
def starves (s : LayeredConn σ κ ρ π) : Event → Bool
  | .serverRecv seg _ _ _ _ => postDecryptReturns env plugins strict s seg = some 0
  | _ => false

/-- The obfs plugin is set aside. -/
def obfsFallsBack (s : LayeredConn σ κ ρ π) : Event → Bool
  | .serverRecv seg _ _ _ _ => compatible.obfs && (decodeReturns env plugins s seg).any (· < 0)
  | _ => false

/-- The protocol plugin is set aside. -/
def protocolFallsBack (s : LayeredConn σ κ ρ π) : Event → Bool
  | .serverRecv seg _ _ _ _ =>
    compatible.protocol && (postDecryptReturns env plugins compatible s seg).any (· ≤ 0)
  | _ => false

/-! ## The layers of a request -/

section Stages

variable {env plugins compatible} {s t : LayeredConn σ κ ρ π} {buf : Buffer}

/-- How the obfs layer lets a segment through. -/
theorem decodeStage_cases {r : LayeredConn σ κ ρ π × Buffer × Bool}
    (h : decodeStage plugins compatible s buf = some r) :
    (plugins.obfs.bind (·.serverDecode) = none ∧ r = (s, buf, false)) ∨
      ∃ f d, plugins.obfs.bind (·.serverDecode) = some f ∧ f s.obfs buf.array buf.len = some d ∧
        ((0 ≤ d.ret ∧ r = ({ s with obfs := d.data }, d.result buf, d.needsendback)) ∨
          (d.ret < 0 ∧ compatible.obfs = true ∧ ∃ restored, d.restore buf = some restored ∧
            r = ({ s with obfs := d.data, obfsCompatibleState := true }, restored,
              d.needsendback))) := by
  unfold decodeStage at h
  split at h
  · next hhook =>
    exact .inl ⟨hhook, (Option.some.inj h).symm⟩
  · next f hhook =>
    split at h
    · cases h
    · next d hcall =>
      refine .inr ⟨f, d, hhook, hcall, ?_⟩
      simp only at h
      split at h
      · next hret =>
        exact .inl ⟨hret, (Option.some.inj h).symm⟩
      · next hret =>
        split at h
        · next hcompatible =>
          obtain ⟨restored, hrestore, hr⟩ := Option.map_eq_some_iff.mp h
          exact .inr ⟨Int.not_le.mp hret, hcompatible, restored, hrestore, hr.symm⟩
        · cases h

/-- What the obfs layer does to the flags. -/
theorem decodeStage_flags {buf' : Buffer} {answer : Bool}
    (h : decodeStage plugins compatible s buf = some (t, buf', answer)) :
    t.obfsCompatibleState = (s.obfsCompatibleState ||
        compatible.obfs && (decodeOf plugins s buf).any (· < 0)) ∧
      t.protocolCompatibleState = s.protocolCompatibleState := by
  rcases decodeStage_cases h with ⟨hhook, hr⟩ | ⟨f, d, hhook, hcall, ⟨hret, hr⟩ | ⟨hret, hon, _, -, hr⟩⟩
  · cases hr
    simp [decodeOf, hhook]
  · cases hr
    simp [decodeOf, hhook, hcall, Int.not_lt.mpr hret]
  · cases hr
    simp [decodeOf, hhook, hcall, hret, hon]

/-- The obfs layer of a compatible server does what that of a strict one does. -/
theorem decodeStage_of_strict {r : LayeredConn σ κ ρ π × Buffer × Bool}
    (h : decodeStage plugins strict s buf = some r) :
    decodeStage plugins compatible s buf = some r := by
  rcases decodeStage_cases h with ⟨hhook, rfl⟩ | ⟨f, d, hhook, hcall, ⟨hret, rfl⟩ | ⟨-, hon, -⟩⟩
  · rw [decodeStage, hhook]
  · simp only [decodeStage, hhook, hcall, hret, if_true]
  · cases hon

/-- How the protocol layer ends. -/
theorem postDecryptStage_cases (plugins : Plugins ρ π) (compatible : Compatible)
    (s : LayeredConn σ κ ρ π) (buf : Buffer) :
    (plugins.protocol.bind (·.serverPostDecrypt) = none ∧
        postDecryptStage plugins compatible s buf = .next (s, buf)) ∨
      postDecryptStage plugins compatible s buf = .closed ∨
      ∃ f d, plugins.protocol.bind (·.serverPostDecrypt) = some f ∧
        f s.protocol buf.array buf.len = some d ∧
        ((0 < d.ret ∧ postDecryptStage plugins compatible s buf =
            .next ({ s with protocol := d.data }, d.result buf)) ∨
          (d.ret ≤ 0 ∧ compatible.protocol = true ∧ ∃ restored,
            postDecryptStage plugins compatible s buf =
              .next ({ s with protocol := d.data, protocolCompatibleState := true }, restored)) ∨
          (d.ret = 0 ∧ compatible.protocol = false ∧ postDecryptStage plugins compatible s buf =
            .waiting ({ s with protocol := d.data }, d.result buf))) := by
  unfold postDecryptStage
  cases hhook : plugins.protocol.bind (·.serverPostDecrypt) with
  | none => exact .inl ⟨rfl, rfl⟩
  | some f =>
    right
    cases hcall : f s.protocol buf.array buf.len with
    | none => exact .inl (by simp only [hcall])
    | some d =>
      simp only [hcall]
      by_cases hpos : 0 < d.ret
      · exact .inr ⟨f, d, rfl, hcall, .inl ⟨hpos, if_pos hpos⟩⟩
      · rw [if_neg hpos]
        cases hon : compatible.protocol with
        | true =>
          rw [if_pos rfl]
          cases d.restore buf with
          | none => exact .inl rfl
          | some restored =>
            by_cases hfreed : (decide (d.ret < 0) && decide (restored.len = 0)) = true
            · exact .inl (if_pos hfreed)
            · exact .inr ⟨f, d, rfl, hcall, .inr (.inl ⟨Int.not_lt.mp hpos, rfl, restored,
                if_neg hfreed⟩)⟩
        | false =>
          rw [if_neg (by decide)]
          by_cases hneg : d.ret < 0
          · exact .inl (if_pos hneg)
          · exact .inr ⟨f, d, rfl, hcall, .inr (.inr ⟨by omega, rfl, if_neg hneg⟩)⟩

/-- What the protocol layer does to the flags. -/
theorem postDecryptStage_flags {buf' : Buffer}
    (h : postDecryptStage plugins compatible s buf = .next (t, buf') ∨
      postDecryptStage plugins compatible s buf = .waiting (t, buf')) :
    t.obfsCompatibleState = s.obfsCompatibleState ∧
      t.protocolCompatibleState = (s.protocolCompatibleState ||
        compatible.protocol && (postDecryptOf plugins s buf).any (· ≤ 0)) := by
  rcases postDecryptStage_cases plugins compatible s buf with ⟨hhook, hr⟩ | hr |
    ⟨f, d, hhook, hcall, ⟨hret, hr⟩ | ⟨hret, hon, restored, hr⟩ | ⟨hret, hoff, hr⟩⟩
  · rcases h with h | h
    · cases hr.symm.trans h
      simp [postDecryptOf, hhook]
    · cases hr.symm.trans h
  · rcases h with h | h <;> cases hr.symm.trans h
  · rcases h with h | h
    · cases hr.symm.trans h
      simp [postDecryptOf, hhook, hcall, Int.not_le.mpr hret]
    · cases hr.symm.trans h
  · rcases h with h | h
    · cases hr.symm.trans h
      simp [postDecryptOf, hhook, hcall, hret, hon]
    · cases hr.symm.trans h
  · rcases h with h | h
    · cases hr.symm.trans h
    · cases hr.symm.trans h
      simp [hoff]

/-- The answer of the obfs plugin does not touch the flags. -/
theorem sendback_flags {mem : Bytes} {taken : Nat} (h : sendback plugins mem taken s = some t) :
    t.obfsCompatibleState = s.obfsCompatibleState ∧
      t.protocolCompatibleState = s.protocolCompatibleState := by
  unfold sendback at h
  split at h
  · cases h
    exact ⟨rfl, rfl⟩
  · split at h
    · cases h
    · split at h
      · cases h
      · cases h
        exact ⟨rfl, rfl⟩

/-- How a segment goes through the layers. -/
theorem serverRecvCb_cases {mem : Bytes} {taken : Nat} {connect : ConnectReply} {reply : SendReply}
    {seg : Bytes}
    (h : serverRecvCb env plugins compatible mem taken connect reply s seg = some t) :
    (∃ conn, readStage env s.conn seg = .waiting conn ∧ t = { s with conn }) ∨
      ∃ conn buf s₁ buf₁ answer, readStage env s.conn seg = .next (conn, buf) ∧
        decodeStage plugins compatible s buf = some (s₁, buf₁, answer) ∧
        ((answer = true ∧
            sendback plugins mem taken { s₁ with conn := conn.setRecvBuf buf₁ } = some t) ∨
          (answer = false ∧ ∃ dCtx buf₂ s₂ buf₃,
            decryptSegment env conn.dCtx buf₁ = some (dCtx, buf₂) ∧
            ((postDecryptStage plugins compatible s₁ buf₂ = .waiting (s₂, buf₃) ∧
                t = { s₂ with conn := { conn with dCtx }.setRecvBuf buf₃ }) ∨
              (postDecryptStage plugins compatible s₁ buf₂ = .next (s₂, buf₃) ∧ ∃ conn',
                relayStage env connect reply
                    (headerStage env.parse.auth ({ conn with dCtx }.setRecvBuf buf₃)) = some conn' ∧
                  t = { s₂ with conn := conn', handed := s₂.handed ++ [buf₃.data] })))) := by
  unfold serverRecvCb at h
  cases hread : readStage env s.conn seg with
  | closed =>
    rw [hread] at h
    cases h
  | waiting conn =>
    rw [hread] at h
    exact .inl ⟨conn, rfl, (Option.some.inj h).symm⟩
  | next a =>
    obtain ⟨conn, buf⟩ := a
    rw [hread] at h
    simp only at h
    right
    cases hdecode : decodeStage plugins compatible s buf with
    | none =>
      rw [hdecode] at h
      cases h
    | some r =>
      obtain ⟨s₁, buf₁, answer⟩ := r
      rw [hdecode] at h
      refine ⟨conn, buf, s₁, buf₁, answer, rfl, hdecode, ?_⟩
      cases answer with
      | true => exact .inl ⟨rfl, h⟩
      | false =>
        right
        simp only at h
        cases hdecrypt : decryptSegment env conn.dCtx buf₁ with
        | none =>
          rw [hdecrypt] at h
          cases h
        | some d =>
          obtain ⟨dCtx, buf₂⟩ := d
          rw [hdecrypt] at h
          simp only at h
          cases hpost : postDecryptStage plugins compatible s₁ buf₂ with
          | closed =>
            rw [hpost] at h
            cases h
          | waiting b =>
            obtain ⟨s₂, buf₃⟩ := b
            rw [hpost] at h
            exact ⟨rfl, dCtx, buf₂, s₂, buf₃, rfl, .inl ⟨hpost, (Option.some.inj h).symm⟩⟩
          | next b =>
            obtain ⟨s₂, buf₃⟩ := b
            rw [hpost] at h
            obtain ⟨conn', hrelay, ht⟩ := Option.map_eq_some_iff.mp h
            exact ⟨rfl, dCtx, buf₂, s₂, buf₃, rfl, .inr ⟨hpost, conn', hrelay, ht.symm⟩⟩

end Stages

section Steps

variable {env plugins compatible} {s t : LayeredConn σ κ ρ π} {e : Event}

/-- A segment sets the flag of each plugin that falls back. -/
theorem serverRecvCb_flags {mem : Bytes} {taken : Nat} {connect : ConnectReply} {reply : SendReply}
    {seg : Bytes}
    (h : serverRecvCb env plugins compatible mem taken connect reply s seg = some t) :
    t.obfsCompatibleState = (s.obfsCompatibleState ||
        compatible.obfs && (decodeReturns env plugins s seg).any (· < 0)) ∧
      t.protocolCompatibleState = (s.protocolCompatibleState ||
        compatible.protocol && (postDecryptReturns env plugins compatible s seg).any (· ≤ 0)) := by
  unfold decodeReturns postDecryptReturns
  rcases serverRecvCb_cases h with ⟨conn, hread, rfl⟩ |
    ⟨conn, buf, s₁, buf₁, answer, hread, hdecode, ⟨rfl, hanswer⟩ | ⟨rfl, dCtx, buf₂, s₂, buf₃,
      hdecrypt, hpost⟩⟩
  · simp only [hread, Option.any_none, Bool.and_false, Bool.or_false, and_self]
  · obtain ⟨hobfs, hprotocol⟩ := decodeStage_flags hdecode
    obtain ⟨hobfs', hprotocol'⟩ := sendback_flags hanswer
    simp only [hread, hdecode, Option.any_none, Bool.and_false, Bool.or_false, hobfs', hprotocol',
      hobfs, hprotocol, and_self]
  · obtain ⟨hobfs, hprotocol⟩ := decodeStage_flags hdecode
    have hend : t.obfsCompatibleState = s₂.obfsCompatibleState ∧
        t.protocolCompatibleState = s₂.protocolCompatibleState := by
      rcases hpost with ⟨-, rfl⟩ | ⟨-, conn', -, rfl⟩ <;> exact ⟨rfl, rfl⟩
    have hflags := postDecryptStage_flags (hpost.symm.imp And.left And.left)
    simp only [hread, hdecode, hdecrypt, Option.bind_some, hend.1, hend.2, hflags.1, hflags.2, hobfs,
      hprotocol, and_self]

/-- The response callback does not touch the flags. -/
theorem remoteRecvCb_flags {reply : SendReply} {r : Remote} {data : Bytes}
    (h : (remoteRecvCb env plugins reply r s data).next = some t) :
    t.obfsCompatibleState = s.obfsCompatibleState ∧
      t.protocolCompatibleState = s.protocolCompatibleState := by
  unfold remoteRecvCb at h
  simp only at h
  split at h
  · cases h
  · split at h
    · cases h
    · unfold sendResponse at h
      simp only at h
      split at h
      · split at h
        · cases h
          exact ⟨rfl, rfl⟩
        · cases h
          exact ⟨rfl, rfl⟩
      · cases h
        exact ⟨rfl, rfl⟩
      · cases h

/-- Sending to the client does not touch the flags. -/
theorem serverSendCb_flags {reply : SendReply} (h : serverSendCb reply s = some t) :
    t.obfsCompatibleState = s.obfsCompatibleState ∧
      t.protocolCompatibleState = s.protocolCompatibleState := by
  unfold serverSendCb at h
  split at h
  · cases h
  · split at h
    · cases h
    · split at h
      · simp only at h
        split at h
        · cases h
          exact ⟨rfl, rfl⟩
        · cases h
          exact ⟨rfl, rfl⟩
      · cases h
        exact ⟨rfl, rfl⟩
      · cases h

/-- One callback sets the flag of each plugin that falls back in it. -/
theorem step_flags (h : step env plugins compatible s e = some t) :
    t.obfsCompatibleState = (s.obfsCompatibleState || obfsFallsBack env plugins compatible s e) ∧
      t.protocolCompatibleState =
        (s.protocolCompatibleState || protocolFallsBack env plugins compatible s e) := by
  cases e with
  | serverRecv seg mem taken connect reply => exact serverRecvCb_flags h
  | serverSend reply =>
    simp only [obfsFallsBack, protocolFallsBack, Bool.or_false]
    exact serverSendCb_flags h
  | serverResolve connect resolved =>
    obtain ⟨conn, -, rfl⟩ := Option.map_eq_some_iff.mp h
    simp only [obfsFallsBack, protocolFallsBack, Bool.or_false, and_self]
  | remoteRecv data reply =>
    simp only [obfsFallsBack, protocolFallsBack, Bool.or_false]
    unfold step at h
    simp only at h
    split at h
    · cases h
    · exact remoteRecvCb_flags h
  | remoteSend peer reply =>
    obtain ⟨conn, -, rfl⟩ := Option.map_eq_some_iff.mp h
    simp only [obfsFallsBack, protocolFallsBack, Bool.or_false, and_self]

/-- A strict server has no fallback. -/
theorem step_strict_flags (h : step env plugins strict s e = some t) :
    t.obfsCompatibleState = s.obfsCompatibleState ∧
      t.protocolCompatibleState = s.protocolCompatibleState := by
  have hflags := step_flags h
  cases e <;> simpa only [obfsFallsBack, protocolFallsBack, strict, Bool.false_and, Bool.or_false]
    using hflags

/-- The protocol layer of a compatible server does what that of a strict one does, except where the
plugin puts nothing out. -/
theorem postDecryptStage_of_strict {buf : Buffer}
    (h : postDecryptStage plugins strict s buf ≠ .closed)
    (hfed : compatible.protocol = false ∨ postDecryptOf plugins s buf ≠ some 0) :
    postDecryptStage plugins compatible s buf = postDecryptStage plugins strict s buf := by
  rcases postDecryptStage_cases plugins strict s buf with ⟨hhook, hr⟩ | hr |
    ⟨f, d, hhook, hcall, ⟨hret, hr⟩ | ⟨-, hon, -⟩ | ⟨hret, -, hr⟩⟩
  · rw [hr, postDecryptStage, hhook]
  · exact absurd hr h
  · rw [hr]
    simp only [postDecryptStage, hhook, hcall, hret, if_true]
  · cases hon
  · have hzero : postDecryptOf plugins s buf = some 0 := by
      simp only [postDecryptOf, hhook, Option.bind_some, hcall, Option.map_some, hret]
    have hoff := hfed.resolve_right (not_not_intro hzero)
    rw [hr]
    simp only [postDecryptStage, hhook, hcall, hret, hoff, Int.lt_irrefl, if_false,
      Bool.false_eq_true]

/-- A segment that a strict server takes, and that does not starve its protocol plugin, goes through
the layers of a compatible server in the same way. -/
theorem step_of_strict (h : step env plugins strict s e = some t)
    (hfed : compatible.protocol = false ∨ starves env plugins s e = false) :
    step env plugins compatible s e = some t := by
  cases e with
  | serverSend reply => exact h
  | serverResolve connect resolved => exact h
  | remoteRecv data reply => exact h
  | remoteSend peer reply => exact h
  | serverRecv seg mem taken connect reply =>
    show serverRecvCb env plugins compatible mem taken connect reply s seg = some t
    simp only [starves, postDecryptReturns] at hfed
    rcases serverRecvCb_cases h with ⟨conn, hread, rfl⟩ |
      ⟨conn, buf, s₁, buf₁, answer, hread, hdecode, ⟨rfl, hanswer⟩ | ⟨rfl, dCtx, buf₂, s₂, buf₃,
        hdecrypt, hpost⟩⟩
    · simp only [serverRecvCb, hread]
    · simp only [serverRecvCb, hread, decodeStage_of_strict hdecode, hanswer]
    · simp only [hread, hdecode, hdecrypt, Option.bind_some, decide_eq_false_iff_not] at hfed
      have hopen : postDecryptStage plugins strict s₁ buf₂ ≠ .closed := by
        rcases hpost with ⟨hpost, -⟩ | ⟨hpost, -⟩ <;> simp [hpost]
      have hsame := postDecryptStage_of_strict hopen hfed
      rcases hpost with ⟨hpost, rfl⟩ | ⟨hpost, conn', hrelay, rfl⟩
      · simp only [serverRecvCb, hread, decodeStage_of_strict hdecode, hdecrypt, hsame, hpost]
      · simp only [serverRecvCb, hread, decodeStage_of_strict hdecode, hdecrypt, hsame, hpost, hrelay,
          Option.map_some]

/-- Where a strict server calls `server_post_decrypt`, a compatible one gets the same from it. -/
theorem postDecryptReturns_of_strict {seg : Bytes} {r : Int}
    (h : postDecryptReturns env plugins strict s seg = some r) :
    postDecryptReturns env plugins compatible s seg = some r := by
  unfold postDecryptReturns at h ⊢
  cases hread : readStage env s.conn seg with
  | closed =>
    rw [hread] at h
    cases h
  | waiting conn =>
    rw [hread] at h
    cases h
  | next a =>
    rw [hread] at h
    simp only at h ⊢
    cases hdecode : decodeStage plugins strict s a.2 with
    | none =>
      rw [hdecode] at h
      cases h
    | some d =>
      rw [hdecode] at h
      rw [decodeStage_of_strict hdecode]
      exact h

/-- A segment that starves the protocol plugin of a strict server switches a compatible one. -/
theorem switches_of_starves (hon : compatible.protocol = true)
    (hstarved : starves env plugins s e = true) (h : step env plugins compatible s e = some t) :
    t.protocolCompatibleState = true := by
  rw [(step_flags h).2]
  cases e with
  | serverRecv seg mem taken connect reply =>
    have hzero := @postDecryptReturns_of_strict _ _ _ _ env plugins compatible s seg 0
      (of_decide_eq_true hstarved)
    simp [protocolFallsBack, hon, hzero]
  | _ => cases hstarved

end Steps

/-! ## Requests -/

section Requests

variable {env plugins compatible} {s t : LayeredConn σ κ ρ π} {es : List Event}

/-- Once set, a flag stays. -/
theorem run_switched (hs : s.protocolCompatibleState = true)
    (h : run (step env plugins compatible) s es = some t) : t.protocolCompatibleState = true := by
  apply run_invariant _ (fun s : LayeredConn σ κ ρ π ↦ s.protocolCompatibleState = true) _ hs h
  intro s e t hs ht
  rw [(step_flags ht).2, hs, Bool.true_or]

/-- In a strict server no flag is set. -/
theorem run_strict_flags (h : run (step env plugins strict) s es = some t) :
    t.obfsCompatibleState = s.obfsCompatibleState ∧
      t.protocolCompatibleState = s.protocolCompatibleState := by
  apply run_invariant (step env plugins strict) (fun t : LayeredConn σ κ ρ π ↦
    t.obfsCompatibleState = s.obfsCompatibleState ∧
      t.protocolCompatibleState = s.protocolCompatibleState) _ ⟨rfl, rfl⟩ h
  intro u e t hu ht
  obtain ⟨hobfs, hprotocol⟩ := step_strict_flags ht
  exact ⟨hobfs.trans hu.1, hprotocol.trans hu.2⟩

/-- A run of a strict server in which no segment starves the protocol plugin is a run of a compatible
one. -/
theorem run_of_strict (h : run (step env plugins strict) s es = some t)
    (hfed : Along (step env plugins strict)
      (fun s e ↦ compatible.protocol = false ∨ starves env plugins s e = false) s es) :
    run (step env plugins compatible) s es = some t := by
  induction es generalizing s with
  | nil => exact h
  | cons e es ih =>
    obtain ⟨u, hu, hrest⟩ := (run_cons_eq_some _).mp h
    rw [run_cons_of_some _ es (step_of_strict hu hfed.1)]
    exact ih hrest (hfed.2 u hu)

/-- A segment of a strict server's run that starves the protocol plugin switches a compatible one. -/
theorem run_switches (h : run (step env plugins strict) s es = some t)
    (hstarved : ¬ Along (step env plugins strict)
      (fun s e ↦ compatible.protocol = false ∨ starves env plugins s e = false) s es)
    {u : LayeredConn σ κ ρ π} (hu : run (step env plugins compatible) s es = some u) :
    u.protocolCompatibleState = true := by
  induction es generalizing s with
  | nil => exact absurd trivial hstarved
  | cons e es ih =>
    obtain ⟨v, hv, hrest⟩ := (run_cons_eq_some _).mp h
    obtain ⟨w, hw, hrest'⟩ := (run_cons_eq_some _).mp hu
    by_cases hfed : compatible.protocol = false ∨ starves env plugins s e = false
    · have hsame : w = v := Option.some.inj (hw.symm.trans (step_of_strict hv hfed))
      subst hsame
      apply ih hrest _ hrest'
      intro hrestFed
      apply hstarved
      refine ⟨hfed, ?_⟩
      intro x hx
      cases hv.symm.trans hx
      exact hrestFed
    · rw [not_or, Bool.not_eq_false, Bool.not_eq_false] at hfed
      exact run_switched (switches_of_starves hfed.1 hfed.2 hw) hrest'

end Requests

/-- Whatever segments a strict server takes, a server with compatible modes hands the same bytes to
the header parser and the relay and sets no plugin aside, exactly when `protocol_compatible` is off
or no segment leaves `server_post_decrypt` without output. -/
theorem compatible_transparent_iff (conn : Conn σ κ) (evp : σ) (iv : Bytes) (obfs : ρ) (protocol : π)
    (es : List Event) (t : LayeredConn σ κ ρ π)
    (hstrict : run (step env plugins strict) (accept conn evp iv obfs protocol) es = some t) :
    (∃ u, run (step env plugins compatible) (accept conn evp iv obfs protocol) es = some u ∧
        u.handed = t.handed ∧ u.obfsCompatibleState = false ∧ u.protocolCompatibleState = false) ↔
      Along (step env plugins strict)
        (fun s e ↦ compatible.protocol = false ∨ starves env plugins s e = false)
        (accept conn evp iv obfs protocol) es := by
  constructor
  · rintro ⟨u, hu, -, -, hnever⟩
    by_contra hstarved
    rw [run_switches hstrict hstarved hu] at hnever
    cases hnever
  · intro hfed
    obtain ⟨hobfs, hprotocol⟩ := run_strict_flags hstrict
    exact ⟨t, run_of_strict hstrict hfed, rfl, hobfs, hprotocol⟩

/-- A listener with `verify_simple` and without an obfs plugin. -/
def verifyOnly : Plugins Unit Bytes := ⟨none, some (verifySimple (fun _ ↦ 0) fun _ ↦ 0)⟩

/-- A frame of `verify_simple` with a request header for 127.0.0.1, port 80. -/
def requestFrame : Bytes :=
  Protocol.VerifySimple.packData 0 (fun _ ↦ 0) [1, 127, 0, 0, 1, 0, 80]

/-- Segments of a client, as they arrive; the connection to the target is opened without delay. -/
def arrivals (segs : List Bytes) : List Event :=
  segs.map fun seg ↦ .serverRecv seg [] 0 ⟨false, .again, false, []⟩ .again

/-- A new connection of a listener with `verify_simple`. -/
def verifyConn : LayeredConn Unit Unit Unit Bytes :=
  accept (newServer () () [] []) () (List.replicate 8 0) () []

/-- A request that arrives in one segment is relayed in both modes. -/
theorem whole_frame_transparent :
    ∃ t, run (step (plainEnv false) verifyOnly strict) verifyConn
        (arrivals (wire (xorCipher 0x5A) (List.replicate 8 1) [requestFrame])) = some t ∧
      ∃ u, run (step (plainEnv false) verifyOnly ⟨false, true⟩) verifyConn
          (arrivals (wire (xorCipher 0x5A) (List.replicate 8 1) [requestFrame])) = some u ∧
        u.handed = t.handed ∧ u.obfsCompatibleState = false ∧ u.protocolCompatibleState = false := by
  have haccepted : (run (step (plainEnv false) verifyOnly strict) verifyConn
      (arrivals (wire (xorCipher 0x5A) (List.replicate 8 1) [requestFrame]))).isSome = true := by
    decide +kernel
  obtain ⟨t, ht⟩ := Option.isSome_iff_exists.mp haccepted
  refine ⟨t, ht, ?_⟩
  apply (compatible_transparent_iff (plainEnv false) verifyOnly ⟨false, true⟩ _ _ _ _ _ _ t ht).mpr
  refine ⟨.inr ?_, fun _ _ ↦ trivial⟩
  decide +kernel

/-- A request that arrives in two segments is relayed by a strict server; with `protocol_compatible`
the first segment sets the plugin aside. -/
theorem split_frame_switches :
    ∃ t, run (step (plainEnv false) verifyOnly strict) verifyConn
        (arrivals (wire (xorCipher 0x5A) (List.replicate 8 1)
          [requestFrame.take 3, requestFrame.drop 3])) = some t ∧
      t.handed = [[1, 127, 0, 0, 1, 0, 80]] ∧
      ¬ ∃ u, run (step (plainEnv false) verifyOnly ⟨false, true⟩) verifyConn
          (arrivals (wire (xorCipher 0x5A) (List.replicate 8 1)
            [requestFrame.take 3, requestFrame.drop 3])) = some u ∧
        u.handed = t.handed ∧ u.obfsCompatibleState = false ∧ u.protocolCompatibleState = false := by
  have hstrict : (run (step (plainEnv false) verifyOnly strict) verifyConn
      (arrivals (wire (xorCipher 0x5A) (List.replicate 8 1)
        [requestFrame.take 3, requestFrame.drop 3]))).map handed =
          some [[1, 127, 0, 0, 1, 0, 80]] := by
    decide +kernel
  have hcompatible : (run (step (plainEnv false) verifyOnly ⟨false, true⟩) verifyConn
      (arrivals (wire (xorCipher 0x5A) (List.replicate 8 1)
        [requestFrame.take 3, requestFrame.drop 3]))).map protocolCompatibleState ≠ some false := by
    decide +kernel
  obtain ⟨t, ht, hhanded⟩ := Option.map_eq_some_iff.mp hstrict
  refine ⟨t, ht, hhanded, ?_⟩
  rintro ⟨u, hu, -, -, hflag⟩
  apply hcompatible
  rw [hu, Option.map_some, hflag]

/-! ## Responses -/

/-- The layers of a response are those of the request: each plugin with a hook for responses is
called exactly when its flag is 0. -/
def Mirrors (s : LayeredConn σ κ ρ π) : Prop :=
  ∀ reply r data,
    ((remoteRecvCb env plugins reply r s data).protocolWraps = true ↔
        (plugins.protocol.bind (·.serverPreEncrypt)).isSome = true ∧
          s.protocolCompatibleState = false) ∧
      ((remoteRecvCb env plugins reply r s data).next.isSome = true →
        ((remoteRecvCb env plugins reply r s data).obfsWraps = true ↔
          (plugins.obfs.bind (·.serverEncode)).isSome = true ∧ s.obfsCompatibleState = false))

/-- The two flags agree, or no hook of the protocol plugin wraps responses. -/
def FlagsAgree (s : LayeredConn σ κ ρ π) : Prop :=
  (plugins.protocol.bind (·.serverPreEncrypt)).isSome = true →
    s.obfsCompatibleState = s.protocolCompatibleState

/-- After a callback both plugins are set aside or neither is, or no hook of the protocol plugin
wraps responses. -/
def FallBackTogether (s : LayeredConn σ κ ρ π) (e : Event) : Prop :=
  (plugins.protocol.bind (·.serverPreEncrypt)).isSome = true →
    (s.obfsCompatibleState || obfsFallsBack env plugins compatible s e) =
      (s.protocolCompatibleState || protocolFallsBack env plugins compatible s e)

/-- Whether a layer is put on. -/
theorem wrapLayer_fst (on : Bool) (hook : Option (Hook ρ)) (data : ρ) (buf : Buffer) :
    (wrapLayer on hook data buf).1 = (on && hook.isSome) := by
  cases on with
  | false => rfl
  | true => cases hook <;> rfl

/-- Both layers of a response are put on where `obfs_compatible_state` is 0. -/
theorem remoteRecvCb_wraps (reply : SendReply) (r : Remote) (s : LayeredConn σ κ ρ π) (data : Bytes) :
    (remoteRecvCb env plugins reply r s data).protocolWraps =
        (!s.obfsCompatibleState && (plugins.protocol.bind (·.serverPreEncrypt)).isSome) ∧
      ((remoteRecvCb env plugins reply r s data).next.isSome = true →
        (remoteRecvCb env plugins reply r s data).obfsWraps =
          (!s.obfsCompatibleState && (plugins.obfs.bind (·.serverEncode)).isSome)) := by
  unfold remoteRecvCb
  simp only
  split
  · exact ⟨wrapLayer_fst _ _ _ _, fun h ↦ absurd h Bool.false_ne_true⟩
  · split
    · exact ⟨wrapLayer_fst _ _ _ _, fun h ↦ absurd h Bool.false_ne_true⟩
    · exact ⟨wrapLayer_fst _ _ _ _, fun _ ↦ wrapLayer_fst _ _ _ _⟩

/-- In one state responses mirror the request's layers exactly when the flags agree. -/
theorem mirrors_iff (s : LayeredConn σ κ ρ π) : Mirrors env plugins s ↔ FlagsAgree plugins s := by
  constructor
  · intro h hhook
    have hwraps := (h .again (newRemote []) []).1
    rw [(remoteRecvCb_wraps env plugins _ _ s _).1, hhook] at hwraps
    cases hobfs : s.obfsCompatibleState <;> cases hprotocol : s.protocolCompatibleState <;>
      simp_all
  · intro h reply r data
    obtain ⟨hprotocol, hobfs⟩ := remoteRecvCb_wraps env plugins reply r s data
    constructor
    · rw [hprotocol, Bool.and_eq_true, Bool.not_eq_true', and_comm]
      apply and_congr_right
      intro hhook
      rw [h hhook]
    · intro hnext
      rw [hobfs hnext, Bool.and_eq_true, Bool.not_eq_true', and_comm]

/-- The flags agree behind a callback in which the plugins fall back together. -/
theorem flagsAgree_step_iff {s t : LayeredConn σ κ ρ π} {e : Event}
    (h : step env plugins compatible s e = some t) :
    FlagsAgree plugins t ↔ FallBackTogether env plugins compatible s e := by
  rw [FlagsAgree, FallBackTogether, (step_flags h).1, (step_flags h).2]

/-- Flags that agree go on agreeing while the plugins fall back together. -/
theorem mirrors_run_iff {s t : LayeredConn σ κ ρ π} {es : List Event}
    (hs : FlagsAgree plugins s) (h : run (step env plugins compatible) s es = some t) :
    (∀ n u, run (step env plugins compatible) s (es.take n) = some u → Mirrors env plugins u) ↔
      Along (step env plugins compatible) (FallBackTogether env plugins compatible) s es := by
  induction es generalizing s with
  | nil =>
    constructor
    · intro _
      trivial
    · intro _ n u hu
      rw [List.take_nil] at hu
      rw [← Option.some.inj hu, mirrors_iff]
      exact hs
  | cons e es ih =>
    obtain ⟨v, hv, hrest⟩ := (run_cons_eq_some _).mp h
    constructor
    · intro hmirrors
      have hagree : FlagsAgree plugins v :=
        (mirrors_iff env plugins v).mp (hmirrors 1 v (run_cons_of_some _ [] hv))
      refine ⟨(flagsAgree_step_iff env plugins compatible hv).mp hagree, ?_⟩
      intro w hw
      cases hv.symm.trans hw
      apply (ih hagree hrest).mp
      intro n u hu
      apply hmirrors (n + 1) u
      rw [List.take_succ_cons, run_cons_of_some _ _ hv, hu]
    · rintro ⟨htogether, hothers⟩ n u hu
      cases n with
      | zero =>
        rw [← Option.some.inj hu, mirrors_iff]
        exact hs
      | succ n =>
        rw [List.take_succ_cons, run_cons_of_some _ _ hv] at hu
        have hagree := (flagsAgree_step_iff env plugins compatible hv).mpr htogether
        exact (ih hagree hrest).mpr (hothers v hv) n u hu

/-- In a run of a server with compatible modes every state puts on a response the layers of the
request exactly when the plugins are set aside by the same callbacks. -/
theorem responses_mirror_iff (conn : Conn σ κ) (evp : σ) (iv : Bytes) (obfs : ρ) (protocol : π)
    (es : List Event) (t : LayeredConn σ κ ρ π)
    (h : run (step env plugins compatible) (accept conn evp iv obfs protocol) es = some t) :
    (∀ n u, run (step env plugins compatible) (accept conn evp iv obfs protocol) (es.take n) =
        some u → Mirrors env plugins u) ↔
      Along (step env plugins compatible) (FallBackTogether env plugins compatible)
        (accept conn evp iv obfs protocol) es :=
  mirrors_run_iff env plugins compatible (fun _ ↦ rfl) h

/-- A listener with `http_simple` and `verify_simple`. -/
def httpAndVerify : Plugins Http.HttpObfs Bytes :=
  ⟨some (httpSimple ⟨[], [], [], []⟩ Http.exampleTm),
    some (verifySimple (fun _ ↦ 0) fun _ ↦ 0)⟩

/-- A new connection of a listener with `http_simple` and `verify_simple`. -/
def httpAndVerifyConn : LayeredConn Unit Unit Http.HttpObfs Bytes :=
  accept (newServer () () [] []) () (List.replicate 8 0)
    (Http.httpSimpleNewObfs ⟨[], 80, none, 7⟩) []

/-- A client without plugins gets its responses without layers. -/
theorem plain_client_mirrored :
    ∃ t, run (step (plainEnv false) httpAndVerify ⟨true, true⟩) httpAndVerifyConn
        (arrivals (wire (xorCipher 0x5A) (List.replicate 8 1) [[1, 127, 0, 0, 1, 0, 80]])) = some t ∧
      ∀ n u, run (step (plainEnv false) httpAndVerify ⟨true, true⟩) httpAndVerifyConn
          ((arrivals (wire (xorCipher 0x5A) (List.replicate 8 1)
            [[1, 127, 0, 0, 1, 0, 80]])).take n) = some u →
        Mirrors (plainEnv false) httpAndVerify u := by
  have haccepted : (run (step (plainEnv false) httpAndVerify ⟨true, true⟩) httpAndVerifyConn
      (arrivals (wire (xorCipher 0x5A) (List.replicate 8 1)
        [[1, 127, 0, 0, 1, 0, 80]]))).isSome = true := by
    decide +kernel
  obtain ⟨t, ht⟩ := Option.isSome_iff_exists.mp haccepted
  refine ⟨t, ht, ?_⟩
  apply (responses_mirror_iff (plainEnv false) httpAndVerify ⟨true, true⟩ _ _ _ _ _ _ t ht).mpr
  refine ⟨fun _ ↦ ?_, fun _ _ ↦ trivial⟩
  decide

/-- A client with the protocol plugin alone gets its responses without it. -/
theorem protocol_client_not_mirrored :
    ∃ t, run (step (plainEnv false) httpAndVerify ⟨true, true⟩) httpAndVerifyConn
        (arrivals (wire (xorCipher 0x5A) (List.replicate 8 1) [requestFrame])) = some t ∧
      t.handed = [[1, 127, 0, 0, 1, 0, 80]] ∧ t.protocolCompatibleState = false ∧
        ¬ Mirrors (plainEnv false) httpAndVerify t := by
  have hrun : (run (step (plainEnv false) httpAndVerify ⟨true, true⟩) httpAndVerifyConn
      (arrivals (wire (xorCipher 0x5A) (List.replicate 8 1) [requestFrame]))).map
        (fun t ↦ (t.handed, t.protocolCompatibleState, t.obfsCompatibleState)) =
          some ([[1, 127, 0, 0, 1, 0, 80]], false, true) := by
    decide +kernel
  obtain ⟨t, ht, hflags⟩ := Option.map_eq_some_iff.mp hrun
  simp only [Prod.mk.injEq] at hflags
  obtain ⟨hhanded, hprotocol, hobfs⟩ := hflags
  refine ⟨t, ht, hhanded, hprotocol, ?_⟩
  intro hmirrors
  have hagree := (mirrors_iff _ _ _).mp hmirrors rfl
  rw [hprotocol, hobfs] at hagree
  cases hagree

end OpenWrtCompile.Server.LayeredConn
