import OpenWrtCompile.Base.Pump
import OpenWrtCompile.Server.FirstSegment

/-!
# The relay between client and remote

`shadowsocksr-libev/src/server/server.c`: `server_recv_cb` (610–1082), `server_send_cb` (1084–1137),
`remote_recv_cb` (1237–1339) and `remote_send_cb` (1341–1428) as callbacks of watchers that they
start and stop themselves. The kernel takes as much of what is sent as it likes, and the callbacks
come in any order that the watchers allow.
-/

namespace OpenWrtCompile.Server
open OpenWrtCompile.Base

variable {σ κ ρ π : Type}

/-- What waits for `remote_send_cb`. -/
def Remote.unsent (r : Remote) : Bytes := if r.sendIo then r.buf.pending else []

namespace LayeredConn

/-- What waits for `server_send_cb`. -/
def unsent (s : LayeredConn σ κ ρ π) : Bytes := if s.sendIo then s.conn.buf.pending else []

/-- The watcher of a callback is started, and there is something to read; a query is outstanding for
`server_resolve_cb`. -/
def Watched (s : LayeredConn σ κ ρ π) : Event → Prop
  | .serverRecv seg _ _ _ _ => seg ≠ [] ∧ s.conn.recvIo = true
  | .serverSend _ => s.sendIo = true
  | .serverResolve _ _ => s.conn.stage = .resolve ∧ s.conn.remote = none
  | .remoteRecv data _ => data ≠ [] ∧ ∃ r, s.conn.remote = some r ∧ r.recvIo = true
  | .remoteSend _ _ => ∃ r, s.conn.remote = some r ∧ r.sendIo = true

/-- Whether a callback can come can be tested. -/
instance decidableWatched (s : LayeredConn σ κ ρ π) : (e : Event) → Decidable (s.Watched e)
  | .serverRecv seg _ _ _ _ => inferInstanceAs (Decidable (seg ≠ [] ∧ s.conn.recvIo = true))
  | .serverSend _ => inferInstanceAs (Decidable (s.sendIo = true))
  | .serverResolve _ _ =>
    decidable_of_iff (s.conn.stage = .resolve ∧ s.conn.remote.isNone = true) (by
      rw [Option.isNone_iff_eq_none, Watched])
  | .remoteRecv data _ =>
    decidable_of_iff (data ≠ [] ∧ s.conn.remote.any (·.recvIo) = true) (by
      rw [Option.any_eq_true, Watched])
  | .remoteSend _ _ =>
    decidable_of_iff (s.conn.remote.any (·.sendIo) = true) (by rw [Option.any_eq_true, Watched])

/-- Which watchers are started in which stage. In the last one the remote is connected, and each
direction either reads or writes. -/
def Wired (s : LayeredConn σ κ ρ π) : Prop :=
  match s.conn.stage, s.conn.remote with
  | .error, none | .init, none | .handshake, none => s.conn.recvIo = true ∧ s.sendIo = false
  | .resolve, none => s.conn.recvIo = false ∧ s.sendIo = false
  | .parse, some r | .resolve, some r =>
    s.conn.recvIo = false ∧ s.sendIo = false ∧ r.sendIo = true ∧ r.recvIo = false
  | .stream, some r => r.connected = true ∧ s.conn.recvIo = !r.sendIo ∧ r.recvIo = !s.sendIo
  | _, _ => False

variable (env : ServerEnv σ κ) (plugins : Plugins ρ π) (compatible : Compatible)

/-- A segment of the relay, decoded, decrypted and unwrapped, up to line 772. -/
def unwrapped (s : LayeredConn σ κ ρ π) (seg : Bytes) : Option Bytes :=
  match readStage env s.conn seg with
  | .next (conn, buf) =>
    match decodeStage plugins compatible s buf with
    | some (s, buf, false) =>
      match decryptSegment env conn.dCtx buf with
      | some (_, buf) =>
        match postDecryptStage plugins compatible s buf with
        | .next (_, buf) => some buf.data
        | _ => none
      | none => none
    | _ => none
  | _ => none

/-- What a callback has for the remote: the verified data of a segment. -/
def forwarded (s : LayeredConn σ κ ρ π) : Event → Bytes
  | .serverRecv seg _ _ _ _ =>
    ((unwrapped env plugins compatible s seg).bind fun data ↦
      if s.conn.auth then (env.checkHash s.conn.chunk data).map Prod.snd else some data).getD []
  | _ => []

/-- What the kernel takes of the answer of the obfs plugin to a segment. -/
def answered (s : LayeredConn σ κ ρ π) (seg mem : Bytes) (taken : Nat) : Bytes :=
  match readStage env s.conn seg with
  | .next (_, buf) =>
    match decodeStage plugins compatible s buf with
    | some (s, _, true) =>
      match plugins.obfs.bind (·.serverEncode) with
      | none => []
      | some serverEncode =>
        ((serverEncode s.obfs mem 0).map fun h ↦ (h.block.take h.ret.toNat).take taken).getD []
    | _ => []
  | _ => []

/-- A response with its layers, as it is sent. -/
def wrapped (s : LayeredConn σ κ ρ π) (data : Bytes) : Bytes :=
  let buf := s.conn.buf.assign data
  let obfs := (plugins.obfs.map fun p ↦ p.setHeadLen s.obfs (getHeadSize data 30)).getD s.obfs
  let inner := wrapLayer (!s.obfsCompatibleState) (plugins.protocol.bind (·.serverPreEncrypt))
    s.protocol buf
  match inner.2 with
  | none => []
  | some (_, buf) =>
    let outer := wrapLayer (!s.obfsCompatibleState) (plugins.obfs.bind (·.serverEncode)) obfs
      (ssEncrypt env.cipher s.iv s.eCtx buf).2
    match outer.2 with
    | none => []
    | some (_, buf) => buf.data

/-- What a callback has for the client. -/
def returned (s : LayeredConn σ κ ρ π) : Event → Bytes
  | .serverRecv seg mem taken _ _ => answered env plugins compatible s seg mem taken
  | .remoteRecv data _ => wrapped env plugins s data
  | _ => []

/-- The stream to the remote. -/
def upstream (s : LayeredConn σ κ ρ π) : Pump UInt8 :=
  match s.conn.remote with
  | none => ⟨[], []⟩
  | some r => ⟨r.sent, r.unsent⟩

/-- The stream to the client. -/
def downstream (s : LayeredConn σ κ ρ π) : Pump UInt8 := ⟨s.toClient, s.unsent⟩

end LayeredConn

/-! ## The request -/

/-- The stages that read a request. -/
def Stage.Reads (stage : Stage) : Prop := stage = .error ∨ stage = .init ∨ stage = .handshake

/-- A part of `server_recv_cb` that ends before the stage is `STAGE_STREAM`: nothing is opened yet. -/
def Received.Requesting : Received σ κ → Prop
  | .closed => True
  | .waiting c => c.stage.Reads ∧ c.remote = none ∧ c.recvIo = true
  | .parse c => c.stage = .parse ∧ c.remote = none
  | .stream _ _ => False

/-- A header that is collected opens nothing. -/
theorem handshakeStage_requesting (auth : Bool) {c : Conn σ κ} (hstage : c.stage = .handshake)
    (hremote : c.remote = none) (hio : c.recvIo = true) :
    (handshakeStage auth c).Requesting := by
  unfold handshakeStage
  dsimp only
  split
  · exact ⟨rfl, hremote⟩
  · exact ⟨.inl rfl, hremote, hio⟩
  · exact ⟨.inr (.inr hstage), hremote, hio⟩

/-- The tests of the header open nothing. -/
theorem headerStage_requesting (auth : Bool) {c : Conn σ κ}
    (hstage : c.stage = .init ∨ c.stage = .handshake) (hremote : c.remote = none)
    (hio : c.recvIo = true) : (headerStage auth c).Requesting := by
  rcases hstage with hstage | hstage
  · rw [headerStage, hstage]
    dsimp only
    unfold initStage
    split
    · exact ⟨rfl, hremote⟩
    · exact ⟨.inl rfl, hremote, hio⟩
    · exact handshakeStage_requesting auth rfl hremote hio
  · rw [headerStage, hstage]
    exact handshakeStage_requesting auth hstage hremote hio

/-- Parsing a request starts and stops no watcher. -/
theorem requestStage_keeps {env : ServerEnv σ κ} {c : Conn σ κ} {r : Target × Conn σ κ}
    (h : requestStage env c = some r) : r.2.stage = c.stage ∧ r.2.remote = c.remote := by
  unfold requestStage at h
  repeat' split at h
  all_goals cases h
  all_goals exact ⟨rfl, rfl⟩

/-- The watchers of a new remote are stopped. -/
theorem connectToRemote_stopped {fastOpen : Bool} {reply : ConnectReply} {buf : Buffer}
    {r : Remote × Buffer} (h : connectToRemote fastOpen reply buf = some r) :
    r.1.recvIo = false := by
  unfold connectToRemote at h
  dsimp only at h
  repeat' split at h
  all_goals cases h
  all_goals rfl

/-- Behind a literal address the connection waits for its remote. -/
theorem literalStage_waits {env : ServerEnv σ κ} {reply : ConnectReply} {c c' : Conn σ κ}
    (h : literalStage env reply c = some c') :
    c'.stage = c.stage ∧ c'.recvIo = false ∧
      ∃ r, c'.remote = some r ∧ r.sendIo = true ∧ r.recvIo = false := by
  unfold literalStage at h
  split at h
  · cases h
  · next r buf hconnect =>
    have hstopped := connectToRemote_stopped hconnect
    split at h <;> cases h <;> exact ⟨rfl, rfl, _, rfl, rfl, hstopped⟩

namespace LayeredConn

/-- The connection of a request that goes on, waits, or has been passed on. -/
theorem relayStage_wired {env : ServerEnv σ κ} {connect : ConnectReply} {reply : SendReply}
    {r : Received σ κ} (hr : r.Requesting) {c : Conn σ κ} (h : relayStage env connect reply r = some c)
    {s : LayeredConn σ κ ρ π} (hs : s.sendIo = false) : Wired { s with conn := c } := by
  cases r with
  | closed => cases h
  | stream _ _ => cases hr
  | waiting c' =>
    cases h
    obtain ⟨hstage, hremote, hio⟩ := hr
    rcases hstage with hstage | hstage | hstage <;>
    · unfold Wired
      simp only [hstage, hremote]
      exact ⟨hio, hs⟩
  | parse c' =>
    obtain ⟨hstage, hremote⟩ := hr
    unfold relayStage at h
    dsimp only at h
    split at h
    · cases h
    · next hreq =>
      have hsame := (requestStage_keeps hreq).1.trans hstage
      obtain ⟨hkept, hio, r, hopened, hsend, hrecv⟩ := literalStage_waits h
      unfold Wired
      simp only [hkept.trans hsame, hopened]
      exact ⟨hio, hs, hsend, hrecv⟩
    · next host port asked hreq =>
      have hsame : asked.remote = none := (requestStage_keeps hreq).2.trans hremote
      cases h
      unfold Wired queryStage
      simp only [hsame]
      exact ⟨trivial, hs⟩

/-- A connection that reads a request. -/
theorem wired_reads_iff {s : LayeredConn σ κ ρ π} (hstage : s.conn.stage.Reads) :
    s.Wired ↔ s.conn.remote = none ∧ s.conn.recvIo = true ∧ s.sendIo = false := by
  unfold Wired
  rcases hstage with h | h | h <;>
  · rw [h]
    cases s.conn.remote <;> simp

/-- The connection of the last stage. -/
theorem wired_stream_iff {s : LayeredConn σ κ ρ π} (hstage : s.conn.stage = .stream) :
    s.Wired ↔ ∃ r, s.conn.remote = some r ∧ r.connected = true ∧ s.conn.recvIo = !r.sendIo ∧
      r.recvIo = !s.sendIo := by
  unfold Wired
  rw [hstage]
  cases s.conn.remote <;> simp

/-- A connection that waits for its remote. -/
theorem wired_waits {s : LayeredConn σ κ ρ π} {r : Remote} (hremote : s.conn.remote = some r)
    (hstage : s.conn.stage = .parse ∨ s.conn.stage = .resolve) :
    s.Wired ↔ s.conn.recvIo = false ∧ s.sendIo = false ∧ r.sendIo = true ∧ r.recvIo = false := by
  unfold Wired
  rw [hremote]
  rcases hstage with h | h <;> rw [h]

/-- With a remote, a connection waits for it or relays. -/
theorem Wired.waits_or_relays {s : LayeredConn σ κ ρ π} {r : Remote} (hs : s.Wired)
    (hremote : s.conn.remote = some r) :
    (s.conn.stage = .parse ∨ s.conn.stage = .resolve) ∨ s.conn.stage = .stream := by
  unfold Wired at hs
  rw [hremote] at hs
  cases hstage : s.conn.stage <;> simp_all

/-- The client is written in the last stage alone. -/
theorem Wired.stream_of_sendIo {s : LayeredConn σ κ ρ π} (hs : s.Wired) (hio : s.sendIo = true) :
    s.conn.stage = .stream := by
  unfold Wired at hs
  split at hs <;> simp_all

/-- The remote is read in the last stage alone. -/
theorem Wired.stream_of_recvIo {s : LayeredConn σ κ ρ π} {r : Remote} (hs : s.Wired)
    (hremote : s.conn.remote = some r) (hio : r.recvIo = true) : s.conn.stage = .stream := by
  rcases hs.waits_or_relays hremote with hstage | hstage
  · rw [((wired_waits hremote hstage).mp hs).2.2.2] at hio
    cases hio
  · exact hstage

/-- Some watcher is started, or a query is outstanding. -/
theorem Wired.watched {s : LayeredConn σ κ ρ π} (hs : s.Wired) : ∃ e, s.Watched e := by
  have hread (hio : s.conn.recvIo = true) : ∃ e, s.Watched e :=
    ⟨.serverRecv [0] [] 0 ⟨true, .error, true, []⟩ .error, List.cons_ne_nil _ _, hio⟩
  have hwrite {r : Remote} (hremote : s.conn.remote = some r) (hio : r.sendIo = true) :
      ∃ e, s.Watched e := ⟨.remoteSend true .error, r, hremote, hio⟩
  unfold Wired at hs
  split at hs
  · exact hread hs.1
  · exact hread hs.1
  · exact hread hs.1
  · next hstage hremote => exact ⟨.serverResolve ⟨true, .error, true, []⟩ true, hstage, hremote⟩
  · next hremote => exact hwrite hremote hs.2.2.1
  · next hremote => exact hwrite hremote hs.2.2.1
  · next r hstage hremote =>
    cases hio : r.sendIo with
    | true => exact hwrite hremote hio
    | false => exact hread (by rw [hs.2.1, hio]; rfl)
  · cases hs

/-- The client is read in the stages of a request and in the last one. -/
theorem Wired.reads_or_stream {s : LayeredConn σ κ ρ π} (hs : s.Wired) (hio : s.conn.recvIo = true) :
    s.conn.stage.Reads ∨ s.conn.stage = .stream := by
  unfold Wired at hs
  unfold Stage.Reads
  split at hs <;> simp_all

/-! ## Partial writes -/

/-- What was not sent of a new chunk is still in the buffer. -/
theorem pending_after (b : Buffer) (n : Nat) :
    ({ b with len := b.len - n, idx := n } : Buffer).pending = b.data.drop n := by
  simp only [Buffer.pending, Buffer.data, window, List.drop_take]

/-- What was not sent of the rest of a chunk is still in the buffer. -/
theorem pending_later (b : Buffer) (n : Nat) :
    ({ b with len := b.len - n, idx := b.idx + n } : Buffer).pending = b.pending.drop n := by
  simp only [Buffer.pending, window, List.drop_take, List.drop_drop]

/-- A write of all bytes leaves nothing. -/
theorem drop_pending {b : Buffer} {n : Nat} (h : ¬ n < b.len) : b.pending.drop n = [] :=
  List.drop_eq_nil_of_le ((length_window_le _ _ _).trans (Nat.le_of_not_lt h))

/-- A write of all bytes of a new chunk leaves nothing. -/
theorem drop_data {b : Buffer} {n : Nat} (h : ¬ n < b.len) : b.data.drop n = [] :=
  List.drop_eq_nil_of_le ((List.length_take_le _ _).trans (Nat.le_of_not_lt h))

/-! ## One segment of the client -/

section Segment

variable {env : ServerEnv σ κ} {plugins : Plugins ρ π} {compatible : Compatible}
  {s t : LayeredConn σ κ ρ π} {mem seg : Bytes} {taken : Nat} {connect : ConnectReply}
  {reply : SendReply}

/-- The plugin layers leave the connection and its watchers alone. -/
theorem decodeStage_keeps {buf : Buffer} {r : LayeredConn σ κ ρ π × Buffer × Bool}
    (h : decodeStage plugins compatible s buf = some r) :
    r.1.conn = s.conn ∧ r.1.sendIo = s.sendIo ∧ r.1.toClient = s.toClient := by
  rcases decodeStage_cases h with ⟨-, rfl⟩ | ⟨f, d, -, -, ⟨-, rfl⟩ | ⟨-, -, _, -, rfl⟩⟩
  · exact ⟨rfl, rfl, rfl⟩
  · exact ⟨rfl, rfl, rfl⟩
  · exact ⟨rfl, rfl, rfl⟩

/-- The protocol layer leaves them alone as well. -/
theorem postDecryptStage_keeps {buf : Buffer} {r : LayeredConn σ κ ρ π × Buffer}
    (h : postDecryptStage plugins compatible s buf = .next r ∨
      postDecryptStage plugins compatible s buf = .waiting r) :
    r.1.conn = s.conn ∧ r.1.sendIo = s.sendIo ∧ r.1.toClient = s.toClient := by
  rcases postDecryptStage_cases plugins compatible s buf with ⟨-, hr⟩ | hr |
    ⟨f, d, -, -, ⟨-, hr⟩ | ⟨-, -, restored, hr⟩ | ⟨-, -, hr⟩⟩
  all_goals
    rw [hr] at h
    rcases h with h | h <;> cases h
  all_goals exact ⟨rfl, rfl, rfl⟩

/-- An answer is written to the client, and nothing else changes. -/
theorem sendback_eq (h : sendback plugins mem taken s = some t) :
    t = { s with
      obfs := t.obfs
      toClient := s.toClient ++
        match plugins.obfs.bind (·.serverEncode) with
        | none => []
        | some serverEncode =>
          ((serverEncode s.obfs mem 0).map fun h ↦ (h.block.take h.ret.toNat).take taken).getD [] } := by
  unfold sendback at h
  split at h
  · next hhook =>
    cases h
    simp only [hhook, List.append_nil]
  · next hhook =>
    split at h
    · cases h
    · next d hcall =>
      split at h
      · cases h
      · cases h
        simp only [hhook, hcall, Option.map_some, Option.getD_some]

/-- The ways through `server_recv_cb`. The connection waits for more, the obfs plugin answers, or the
segment goes to the header parser and the relay. -/
theorem serverRecvCb_ways
    (h : serverRecvCb env plugins compatible mem taken connect reply s seg = some t) :
    (∃ conn, readStage env s.conn seg = .waiting conn ∧ t = { s with conn }) ∨
      ∃ conn buf s₁ buf₁ answer, readStage env s.conn seg = .next (conn, buf) ∧
        decodeStage plugins compatible s buf = some (s₁, buf₁, answer) ∧
        ((answer = true ∧ sendback plugins mem taken { s₁ with conn := conn.setRecvBuf buf₁ } = some t) ∨
          answer = false ∧ ∃ dCtx buf₂ s₂ buf₃,
            decryptSegment env conn.dCtx buf₁ = some (dCtx, buf₂) ∧
            ((postDecryptStage plugins compatible s₁ buf₂ = .waiting (s₂, buf₃) ∧
                t = { s₂ with conn := { conn with dCtx }.setRecvBuf buf₃ }) ∨
              postDecryptStage plugins compatible s₁ buf₂ = .next (s₂, buf₃) ∧
              ∃ c, relayStage env connect reply
                  (headerStage env.parse.auth ({ conn with dCtx }.setRecvBuf buf₃)) = some c ∧
                t = { s₂ with conn := c, handed := s₂.handed ++ [buf₃.data] })) := by
  unfold serverRecvCb at h
  split at h
  · cases h
  · next conn hread =>
    exact .inl ⟨conn, hread, (Option.some.inj h).symm⟩
  · next conn buf hread =>
    right
    split at h
    · cases h
    · next s₁ buf₁ hdecode =>
      exact ⟨conn, buf, s₁, buf₁, true, hread, hdecode, .inl ⟨rfl, h⟩⟩
    · next s₁ buf₁ hdecode =>
      refine ⟨conn, buf, s₁, buf₁, false, hread, hdecode, .inr ⟨rfl, ?_⟩⟩
      split at h
      · cases h
      · next dCtx buf₂ hdecrypt =>
        split at h
        · cases h
        · next s₂ buf₃ hpost =>
          exact ⟨dCtx, buf₂, s₂, buf₃, hdecrypt, .inl ⟨hpost, (Option.some.inj h).symm⟩⟩
        · next s₂ buf₃ hpost =>
          obtain ⟨c, hrelay, ht⟩ := Option.map_eq_some_iff.mp h
          exact ⟨dCtx, buf₂, s₂, buf₃, hdecrypt, .inr ⟨hpost, c, hrelay, ht.symm⟩⟩

/-- A segment that is kept for later changes the buffer alone. -/
theorem readStage_waiting {c c' : Conn σ κ} (h : readStage env c seg = .waiting c') :
    c' = { c with buf := c'.buf } := by
  unfold readStage at h
  repeat' split at h
  all_goals cases h
  all_goals rfl

/-- A segment that goes on does so in one of three stages. -/
theorem readStage_next {c c' : Conn σ κ} {buf : Buffer}
    (h : readStage env c seg = .next (c', buf)) (hreads : c.stage.Reads) :
    c' = c ∧ (c.stage = .init ∨ c.stage = .handshake) := by
  refine ⟨readStage_ctx.2 c' buf h, ?_⟩
  rcases hreads with hstage | hstage
  · unfold readStage at h
    simp only [hstage] at h
    split at h <;> cases h
  · exact hstage

/-- Another buffer starts and stops no watcher. -/
theorem setRecvBuf_reads {c : Conn σ κ} (hreads : c.stage.Reads) (buf : Buffer) :
    c.setRecvBuf buf = { c with buf } := by
  unfold Conn.setRecvBuf
  rw [if_neg]
  rcases hreads with h | h | h <;> rw [h] <;> exact nofun

/-- A segment of a request leaves the watchers as the stage has them. -/
theorem serverRecvCb_reads (hs : s.Wired) (hreads : s.conn.stage.Reads)
    (h : serverRecvCb env plugins compatible mem taken connect reply s seg = some t) : t.Wired := by
  obtain ⟨hremote, hio, hsend⟩ := (wired_reads_iff hreads).mp hs
  rcases serverRecvCb_ways h with ⟨conn, hread, rfl⟩ |
    ⟨conn, buf, s₁, buf₁, answer, hread, hdecode, hways⟩
  · rw [readStage_waiting hread]
    exact (wired_reads_iff hreads).mpr ⟨hremote, hio, hsend⟩
  · obtain ⟨rfl, hstage⟩ := readStage_next hread hreads
    obtain ⟨-, hsend₁, -⟩ := decodeStage_keeps hdecode
    rcases hways with ⟨-, hback⟩ | ⟨-, dCtx, buf₂, s₂, buf₃, -, ⟨hpost, rfl⟩ | ⟨hpost, c, hrelay, rfl⟩⟩
    · rw [sendback_eq hback, setRecvBuf_reads hreads]
      refine (wired_reads_iff ?_).mpr ⟨hremote, hio, hsend₁.trans hsend⟩
      exact hreads
    · obtain ⟨-, hsend₂, -⟩ := postDecryptStage_keeps (.inr hpost)
      have hreads' : ({ s.conn with dCtx } : Conn σ κ).stage.Reads := hreads
      rw [setRecvBuf_reads hreads']
      refine (wired_reads_iff ?_).mpr ⟨hremote, hio, hsend₂.trans (hsend₁.trans hsend)⟩
      exact hreads
    · obtain ⟨-, hsend₂, -⟩ := postDecryptStage_keeps (.inl hpost)
      have hreads' : ({ s.conn with dCtx } : Conn σ κ).stage.Reads := hreads
      rw [setRecvBuf_reads hreads'] at hrelay
      have hrequest := headerStage_requesting env.parse.auth
        (c := { s.conn with dCtx, buf := buf₃ }) hstage hremote hio
      have hsend₃ : ({ s₂ with handed := s₂.handed ++ [buf₃.data] } : LayeredConn σ κ ρ π).sendIo =
        false := hsend₂.trans (hsend₁.trans hsend)
      exact relayStage_wired hrequest hrelay hsend₃

/-- The end of `server_recv_cb` in the last stage: verified data is sent as far as it goes, and while
some of it is left, the client is not read. -/
theorem streamStage_moves {c c' : Conn σ κ} {r : Remote} (h : streamStage env reply c r = some c') :
    ∃ k data n r', (if c.auth then env.checkHash c.chunk r.buf.data else some (c.chunk, r.buf.data)) =
        some (k, data) ∧
      c' = { c with chunk := k, remote := some r', recvIo := c'.recvIo } ∧
      (r'.recvIo = r.recvIo ∧ r'.connected = r.connected) ∧ r'.sent = r.sent ++ data.take n ∧
      ((r'.sendIo = true ∧ c'.recvIo = false ∧ r'.buf.pending = data.drop n) ∨
        r'.sendIo = r.sendIo ∧ c'.recvIo = c.recvIo ∧ data.drop n = []) := by
  unfold streamStage at h
  dsimp only at h
  split at h
  · cases h
  · next k data hcheck =>
    refine ⟨k, data, ?_⟩
    have hdata : (r.buf.assign data).data = data := Buffer.data_assign r.buf data
    split at h
    · next n =>
      refine ⟨n, ?_⟩
      split at h
      · cases h
        refine ⟨_, hcheck, rfl, ⟨rfl, rfl⟩, rfl, .inl ⟨rfl, rfl, ?_⟩⟩
        rw [pending_after, hdata]
      · next hall =>
        cases h
        refine ⟨_, hcheck, rfl, ⟨rfl, rfl⟩, rfl, .inr ⟨rfl, rfl, ?_⟩⟩
        rw [Buffer.len_assign] at hall
        exact List.drop_eq_nil_of_le (Nat.le_of_not_lt hall)
    · cases h
      refine ⟨0, _, hcheck, rfl, ⟨rfl, rfl⟩, ?_, .inl ⟨rfl, rfl, ?_⟩⟩
      · rw [List.take_zero, List.append_nil]
      · rw [Buffer.pending_eq_data _ rfl, List.drop_zero]
        exact hdata
    · cases h

/-- A segment of the last stage goes on to the plugin. -/
theorem readStage_stream {c : Conn σ κ} {r : Remote} (hstage : c.stage = .stream)
    (hremote : c.remote = some r) : readStage env c seg = .next (c, r.buf.assign seg) := by
  unfold readStage
  simp only [hstage, hremote]

/-- In the last stage another buffer is that of the remote. -/
theorem setRecvBuf_stream {c : Conn σ κ} {r : Remote} (hstage : c.stage = .stream)
    (hremote : c.remote = some r) (buf : Buffer) :
    c.setRecvBuf buf = { c with remote := some { r with buf } } := by
  unfold Conn.setRecvBuf
  rw [if_pos hstage, hremote]
  rfl

/-- A segment of the last stage: its data goes to the remote, an answer to the client. -/
theorem serverRecvCb_moves {r : Remote} (hstage : s.conn.stage = .stream)
    (hremote : s.conn.remote = some r)
    (h : serverRecvCb env plugins compatible mem taken connect reply s seg = some t) :
    t.conn.stage = .stream ∧ t.conn.buf = s.conn.buf ∧ t.sendIo = s.sendIo ∧
      t.toClient = s.toClient ++ answered env plugins compatible s seg mem taken ∧
      ∃ r', t.conn.remote = some r' ∧ (r'.recvIo = r.recvIo ∧ r'.connected = r.connected) ∧
        ((forwarded env plugins compatible s (.serverRecv seg mem taken connect reply) = [] ∧
            r'.sent = r.sent ∧ r'.sendIo = r.sendIo ∧ t.conn.recvIo = s.conn.recvIo) ∨
          ∃ data n, forwarded env plugins compatible s (.serverRecv seg mem taken connect reply) = data ∧
            r'.sent = r.sent ++ data.take n ∧
            ((r'.sendIo = true ∧ t.conn.recvIo = false ∧ r'.buf.pending = data.drop n) ∨
              r'.sendIo = r.sendIo ∧ t.conn.recvIo = s.conn.recvIo ∧ data.drop n = [])) := by
  have hread : readStage env s.conn seg = .next (s.conn, r.buf.assign seg) :=
    readStage_stream hstage hremote
  rcases serverRecvCb_ways h with ⟨conn, hwait, -⟩ |
    ⟨conn, buf, s₁, buf₁, answer, hnext, hdecode, hways⟩
  · cases hread.symm.trans hwait
  · cases hread.symm.trans hnext
    obtain ⟨hconn₁, hsend₁, hclient₁⟩ := decodeStage_keeps hdecode
    rcases hways with ⟨rfl, hback⟩ | ⟨rfl, dCtx, buf₂, s₂, buf₃, hdecrypt, hways⟩
    · rw [sendback_eq hback, setRecvBuf_stream hstage hremote]
      refine ⟨hstage, rfl, hsend₁, ?_, _, rfl, ⟨rfl, rfl⟩, .inl ⟨?_, rfl, rfl, rfl⟩⟩
      · dsimp only at hclient₁
        simp only [answered, hread, hdecode, hclient₁]
      · simp only [forwarded, unwrapped, hread, hdecode, Option.bind_none, Option.getD_none]
    · have hanswered : answered env plugins compatible s seg mem taken = [] := by
        simp only [answered, hread, hdecode]
      have hstage' : ({ s.conn with dCtx } : Conn σ κ).stage = .stream := hstage
      have hremote' : ({ s.conn with dCtx } : Conn σ κ).remote = some r := hremote
      rcases hways with ⟨hpost, rfl⟩ | ⟨hpost, c, hrelay, rfl⟩
      · obtain ⟨-, hsend₂, hclient₂⟩ := postDecryptStage_keeps (.inr hpost)
        rw [setRecvBuf_stream hstage' hremote', hanswered, List.append_nil]
        refine ⟨hstage, rfl, hsend₂.trans hsend₁, hclient₂.trans hclient₁, _, rfl, ⟨rfl, rfl⟩,
          .inl ⟨?_, rfl, rfl, rfl⟩⟩
        simp only [forwarded, unwrapped, hread, hdecode, hdecrypt, hpost, Option.bind_none,
          Option.getD_none]
      · obtain ⟨-, hsend₂, hclient₂⟩ := postDecryptStage_keeps (.inl hpost)
        rw [setRecvBuf_stream hstage' hremote', headerStage] at hrelay
        simp only [hstage] at hrelay
        obtain ⟨k, data, n, r', hcheck, hc, hio, hsent, hrest⟩ := streamStage_moves hrelay
        rw [hanswered, List.append_nil, hc]
        refine ⟨rfl, rfl, hsend₂.trans hsend₁, hclient₂.trans hclient₁, r', rfl, hio,
          .inr ⟨data, n, ?_, hsent, hrest⟩⟩
        dsimp only at hcheck
        simp only [forwarded, unwrapped, hread, hdecode, hdecrypt, hpost, Option.bind_some]
        split at hcheck
        · next hauth => rw [if_pos hauth, hcheck, Option.map_some, Option.getD_some]
        · next hauth =>
          cases hcheck
          rw [if_neg hauth, Option.getD_some]

end Segment

/-! ## The other callbacks -/

section Callbacks

variable {env : ServerEnv σ κ} {plugins : Plugins ρ π} {compatible : Compatible}
  {s t : LayeredConn σ κ ρ π} {reply : SendReply}

/-- What a layer of a response makes of the data of its plugin. -/
theorem wrapLayer_data {hook : Option (Hook ρ)} {on : Bool} {data data' : ρ} {buf buf' : Buffer}
    {P : ρ → Prop} (h : ∀ f, hook = some f → ∀ block n d, f data block n = some d → 0 ≤ d.ret → P d.data)
    (hs : P data) (hwrap : (wrapLayer on hook data buf).2 = some (data', buf')) : P data' := by
  unfold wrapLayer at hwrap
  split at hwrap
  · next f =>
    obtain ⟨d, hcall, hd⟩ := Option.bind_eq_some_iff.mp hwrap
    split at hd
    · cases hd
    · next hret =>
      cases hd
      exact h f rfl _ _ d hcall (Int.not_lt.mp hret)
  · cases hwrap
    exact hs

/-- What holds of the data of the obfs plugin holds of it with a head length as well. -/
theorem setHeadLen_keeps {P : ρ → Prop}
    (h : ∀ c, plugins.obfs = some c → ∀ s n, P s → P (c.setHeadLen s n)) {o : ρ} (hs : P o) (n : Int) :
    P ((plugins.obfs.map fun p ↦ p.setHeadLen o n).getD o) := by
  cases hclass : plugins.obfs with
  | none => exact hs
  | some c => exact h c hclass o n hs

/-- Sending to the client changes only the buffer, the watchers and what the client has. -/
theorem sendResponse_eq_some {r : Remote} {buf : Buffer} (h : sendResponse reply r s buf = some t) :
    ∃ buf' remote sendIo toClient,
      t = { s with conn := { s.conn with buf := buf', remote }, sendIo, toClient } := by
  unfold sendResponse at h
  dsimp only at h
  repeat' split at h
  all_goals cases h
  all_goals exact ⟨_, _, _, _, rfl⟩

/-- A response that is sent has got through both plugins: what each of them made of it. -/
theorem remoteRecvCb_eq_some {r : Remote} {data : Bytes}
    (h : (remoteRecvCb env plugins reply r s data).next = some t) :
    ∃ protocol buf obfs out,
      (wrapLayer (!s.obfsCompatibleState) (plugins.protocol.bind (·.serverPreEncrypt)) s.protocol
        (s.conn.buf.assign data)).2 = some (protocol, buf) ∧
      (wrapLayer (!s.obfsCompatibleState) (plugins.obfs.bind (·.serverEncode))
        ((plugins.obfs.map fun p ↦ p.setHeadLen s.obfs (getHeadSize data 30)).getD s.obfs)
        (ssEncrypt env.cipher s.iv s.eCtx buf).2).2 = some (obfs, out) ∧
      wrapped env plugins s data = out.data ∧
      sendResponse reply r
        { s with eCtx := (ssEncrypt env.cipher s.iv s.eCtx buf).1, obfs, protocol } out = some t := by
  unfold remoteRecvCb at h
  unfold wrapped
  dsimp only at h ⊢
  cases hinner : (wrapLayer (!s.obfsCompatibleState) (plugins.protocol.bind (·.serverPreEncrypt))
      s.protocol (s.conn.buf.assign data)).2 with
  | none =>
    rw [hinner] at h
    cases h
  | some inner =>
    obtain ⟨protocol, buf⟩ := inner
    rw [hinner] at h
    dsimp only at h
    cases houter : (wrapLayer (!s.obfsCompatibleState) (plugins.obfs.bind (·.serverEncode))
        ((plugins.obfs.map fun p ↦ p.setHeadLen s.obfs (getHeadSize data 30)).getD s.obfs)
        (ssEncrypt env.cipher s.iv s.eCtx buf).2).2 with
    | none =>
      rw [houter] at h
      cases h
    | some outer =>
      obtain ⟨obfs, out⟩ := outer
      rw [houter] at h
      refine ⟨protocol, buf, obfs, out, rfl, houter, ?_, h⟩
      dsimp only
      rw [houter]

/-- A response is sent as far as it goes, and while some of it is left, the remote is not read. -/
theorem remoteRecvCb_moves {r : Remote} {data : Bytes}
    (h : (remoteRecvCb env plugins reply r s data).next = some t)
    (hremote : s.conn.remote = some r) :
    t.conn.stage = s.conn.stage ∧ t.conn.recvIo = s.conn.recvIo ∧
      ∃ r' n, t.conn.remote = some r' ∧ r' = { r with recvIo := r'.recvIo } ∧
        t.toClient = s.toClient ++ (wrapped env plugins s data).take n ∧
        ((t.sendIo = true ∧ r'.recvIo = false ∧
            t.conn.buf.pending = (wrapped env plugins s data).drop n) ∨
          t.sendIo = s.sendIo ∧ r'.recvIo = r.recvIo ∧ (wrapped env plugins s data).drop n = []) := by
  replace h := remoteRecvCb_eq_some h
  obtain ⟨protocol, buf, obfs, out, -, -, hwrapped, h⟩ := h
  rw [hwrapped]
  unfold sendResponse at h
  dsimp only at h
  split at h
  · next n =>
    split at h
    · cases h
      exact ⟨rfl, rfl, _, n, rfl, rfl, rfl, .inl ⟨rfl, rfl, pending_after _ n⟩⟩
    · next hall =>
      cases h
      exact ⟨rfl, rfl, r, n, hremote, rfl, rfl, .inr ⟨rfl, rfl, drop_data hall⟩⟩
  · cases h
    refine ⟨rfl, rfl, _, 0, rfl, rfl, ?_, .inl ⟨rfl, rfl, ?_⟩⟩
    · rw [List.take_zero, List.append_nil]
    · rw [Buffer.pending_eq_data _ rfl, List.drop_zero]
      rfl
  · cases h

/-- The rest of a response is sent, and then the remote is read again. -/
theorem serverSendCb_moves (h : serverSendCb reply s = some t) :
    t.conn.stage = s.conn.stage ∧ t.conn.recvIo = s.conn.recvIo ∧
      ∃ r r' n, s.conn.remote = some r ∧ t.conn.remote = some r' ∧
        r' = { r with recvIo := r'.recvIo } ∧
        t.toClient = s.toClient ++ s.conn.buf.pending.take n ∧
        ((t.sendIo = s.sendIo ∧ r'.recvIo = r.recvIo ∧
            t.conn.buf.pending = s.conn.buf.pending.drop n) ∨
          t.sendIo = false ∧ r'.recvIo = true ∧ s.conn.buf.pending.drop n = []) := by
  unfold serverSendCb at h
  split at h
  · cases h
  · next r hremote =>
    split at h
    · cases h
    · split at h
      · next n =>
        dsimp only at h
        split at h
        · cases h
          exact ⟨rfl, rfl, r, r, n, hremote, hremote, rfl, rfl, .inl ⟨rfl, rfl, pending_later _ n⟩⟩
        · next hall =>
          cases h
          exact ⟨rfl, rfl, r, _, n, hremote, rfl, rfl, rfl, .inr ⟨rfl, rfl, drop_pending hall⟩⟩
      · cases h
        refine ⟨rfl, rfl, r, r, 0, hremote, hremote, rfl, ?_, .inl ⟨rfl, rfl, rfl⟩⟩
        rw [List.take_zero, List.append_nil]
      · cases h

/-- The rest of a segment is sent, and then the client is read. The first time the remote is read as
well. -/
theorem remoteSend_moves {c c' : Conn σ κ} {r : Remote} (h : remoteSend reply c r = some c')
    (hremote : c.remote = some r) :
    ∃ r' n, c'.remote = some r' ∧ (c'.buf = c.buf ∧ r'.connected = r.connected) ∧
      r'.sent = r.sent ++ r.buf.pending.take n ∧
      ((c'.stage = c.stage ∧ c'.recvIo = c.recvIo ∧ r'.sendIo = r.sendIo ∧ r'.recvIo = r.recvIo ∧
          r'.buf.pending = r.buf.pending.drop n) ∨
        c'.stage = .stream ∧ c'.recvIo = true ∧ r'.sendIo = false ∧
          (c.stage = .stream → r'.recvIo = r.recvIo) ∧ (c.stage ≠ .stream → r'.recvIo = true) ∧
          r.buf.pending.drop n = []) := by
  unfold remoteSend at h
  split at h
  · next n =>
    dsimp only at h
    split at h
    · cases h
      exact ⟨_, n, rfl, ⟨rfl, rfl⟩, rfl, .inl ⟨rfl, rfl, rfl, rfl, pending_later _ n⟩⟩
    · next hall =>
      cases h
      exact ⟨_, n, rfl, ⟨rfl, rfl⟩, rfl,
        .inr ⟨rfl, rfl, rfl, fun hstage ↦ if_pos hstage, fun hstage ↦ if_neg hstage,
          drop_pending hall⟩⟩
  · cases h
    refine ⟨r, 0, hremote, ⟨rfl, rfl⟩, ?_, .inl ⟨rfl, rfl, rfl, rfl, rfl⟩⟩
    rw [List.take_zero, List.append_nil]
  · cases h

/-- `remote_send_cb`: the connection is made, or something is sent, or both. -/
theorem remoteSendCb_moves {peer : Bool} {c c' : Conn σ κ}
    (h : remoteSendCb peer reply c = some c') :
    ∃ r r' n, c.remote = some r ∧ c'.remote = some r' ∧ (c'.buf = c.buf ∧ r'.connected = true) ∧
      r'.sent = r.sent ++ r.buf.pending.take n ∧
      ((c'.stage = c.stage ∧ c'.recvIo = c.recvIo ∧ r'.sendIo = r.sendIo ∧ r'.recvIo = r.recvIo ∧
          r'.buf.pending = r.buf.pending.drop n) ∨
        c'.stage = .stream ∧ c'.recvIo = true ∧ r'.sendIo = false ∧
          (c.stage = .stream → r.connected = true → r'.recvIo = r.recvIo) ∧
          (c.stage ≠ .stream → r'.recvIo = true) ∧ r.buf.pending.drop n = []) := by
  unfold remoteSendCb at h
  split at h
  · cases h
  · next r hremote =>
    split at h
    · next hconnected =>
      split at h
      · cases h
      · obtain ⟨r', n, hr', ⟨hbuf, hkeep⟩, hsent, hrest⟩ := remoteSend_moves h hremote
        refine ⟨r, r', n, hremote, hr', ⟨hbuf, hkeep.trans hconnected⟩, hsent, ?_⟩
        rcases hrest with hpending | ⟨hstage, hio, hstop, hstream, hrest⟩
        · exact .inl hpending
        · exact .inr ⟨hstage, hio, hstop, fun hs _ ↦ hstream hs, hrest⟩
    · next hnew =>
      split at h
      · cases h
      · dsimp only at h
        split at h
        · next hempty =>
          cases h
          refine ⟨r, _, 0, hremote, rfl, ⟨rfl, rfl⟩, ?_, .inr ⟨rfl, rfl, rfl, ?_, fun _ ↦ rfl, ?_⟩⟩
          · rw [List.take_zero, List.append_nil]
          · exact fun _ hconnected ↦ absurd hconnected hnew
          · rw [List.drop_zero, Buffer.pending, window, hempty, List.take_zero]
        · obtain ⟨r', n, hr', hkeep, hsent, hrest⟩ := remoteSend_moves h rfl
          refine ⟨r, r', n, hremote, hr', hkeep, hsent, ?_⟩
          rcases hrest with hpending | ⟨hstage, hio, hstop, hstream, hrest⟩
          · exact .inl hpending
          · exact .inr ⟨hstage, hio, hstop, fun hs _ ↦ hstream hs, hrest⟩

/-- Behind a name the connection waits for its remote. -/
theorem serverResolveCb_waits {connect : ConnectReply} {resolved : Bool} {c c' : Conn σ κ}
    (h : serverResolveCb env connect resolved c = some c') :
    c'.stage = c.stage ∧ c'.recvIo = c.recvIo ∧
      ∃ r, c'.remote = some r ∧ r.sendIo = true ∧ r.recvIo = false := by
  unfold serverResolveCb at h
  split at h
  · cases h
  · split at h
    · cases h
    · next r buf hconnect =>
      have hstopped := connectToRemote_stopped hconnect
      split at h <;> cases h <;> exact ⟨rfl, rfl, _, rfl, rfl, hstopped⟩

/-- A segment leaves the watchers as the stage behind it has them. -/
theorem serverRecvCb_wired {mem seg : Bytes} {taken : Nat} {connect : ConnectReply} (hs : s.Wired)
    (hread : s.conn.recvIo = true)
    (h : serverRecvCb env plugins compatible mem taken connect reply s seg = some t) : t.Wired := by
  rcases hs.reads_or_stream hread with hreads | hstage
  · exact serverRecvCb_reads hs hreads h
  · obtain ⟨r, hremote, hconnected, hio, hrecv⟩ := (wired_stream_iff hstage).mp hs
    obtain ⟨hstage', -, hsend, -, r', hremote', ⟨hrecv', hconnected'⟩, hmoves⟩ :=
      serverRecvCb_moves hstage hremote h
    refine (wired_stream_iff hstage').mpr
      ⟨r', hremote', hconnected'.trans hconnected, ?_, by rw [hrecv', hrecv, hsend]⟩
    rcases hmoves with ⟨-, -, hkeep, hsame⟩ | ⟨data, n, -, -, ⟨hstart, hstop, -⟩ | ⟨hkeep, hsame, -⟩⟩
    · rw [hsame, hkeep, hio]
    · rw [hstart, hstop]
      rfl
    · rw [hsame, hkeep, hio]

/-- So does the rest of a response. -/
theorem serverSendCb_wired (hs : s.Wired) (hsend : s.sendIo = true)
    (h : serverSendCb reply s = some t) : t.Wired := by
  have hstage := hs.stream_of_sendIo hsend
  obtain ⟨r, hremote, hconnected, hio, hrecv⟩ := (wired_stream_iff hstage).mp hs
  obtain ⟨hstage', hio', r₀, r', n, hremote₀, hremote', hr', -, hmoves⟩ := serverSendCb_moves h
  cases hremote.symm.trans hremote₀
  refine (wired_stream_iff (hstage'.trans hstage)).mpr ⟨r', hremote', ?_, ?_, ?_⟩
  · rw [hr', hconnected]
  · rw [hio', hio, hr']
  · rcases hmoves with ⟨hkeep, hsame, -⟩ | ⟨hstop, hstart, -⟩
    · rw [hsame, hkeep, hrecv]
    · rw [hstop, hstart]
      rfl

/-- So does a new response. -/
theorem remoteRecvCb_wired {data : Bytes} {r : Remote} (hs : s.Wired)
    (hremote : s.conn.remote = some r) (hread : r.recvIo = true)
    (h : (remoteRecvCb env plugins reply r s data).next = some t) : t.Wired := by
  have hstage := hs.stream_of_recvIo hremote hread
  obtain ⟨r₀, hremote₀, hconnected, hio, hrecv₀⟩ := (wired_stream_iff hstage).mp hs
  cases hremote.symm.trans hremote₀
  obtain ⟨hstage', hio', r', n, hremote', hr', -, hmoves⟩ := remoteRecvCb_moves h hremote
  refine (wired_stream_iff (hstage'.trans hstage)).mpr ⟨r', hremote', ?_, ?_, ?_⟩
  · rw [hr', hconnected]
  · rw [hio', hio, hr']
  · rcases hmoves with ⟨hstart, hstop, -⟩ | ⟨hkeep, hsame, -⟩
    · rw [hstart, hstop]
      rfl
    · rw [hsame, hkeep, hrecv₀]

/-- So does an address for a name. -/
theorem serverResolveCb_wired {connect : ConnectReply} {resolved : Bool} {c : Conn σ κ} (hs : s.Wired)
    (hstage : s.conn.stage = .resolve) (hremote : s.conn.remote = none)
    (h : serverResolveCb env connect resolved s.conn = some c) : Wired { s with conn := c } := by
  obtain ⟨hstage', hio, r, hremote', hsend, hrecv⟩ := serverResolveCb_waits h
  unfold Wired at hs
  rw [hstage, hremote] at hs
  refine (wired_waits hremote' (.inr (hstage'.trans hstage))).mpr ?_
  exact ⟨hio.trans hs.1, hs.2, hsend, hrecv⟩

/-- So does the rest of a segment. The first time it opens the relay. -/
theorem remoteSendCb_wired {peer : Bool} {r : Remote} {c : Conn σ κ} (hs : s.Wired)
    (hremote : s.conn.remote = some r) (hsend : r.sendIo = true)
    (h : remoteSendCb peer reply s.conn = some c) : Wired { s with conn := c } := by
  obtain ⟨r₀, r', n, hremote₀, hremote', ⟨-, hconnected'⟩, -, hmoves⟩ := remoteSendCb_moves h
  cases hremote.symm.trans hremote₀
  rcases hs.waits_or_relays hremote with hstage | hstage
  · obtain ⟨hio, hsend₀, -, hrecv⟩ := (wired_waits hremote hstage).mp hs
    rcases hmoves with ⟨hstage', hio', hsend', hrecv', -⟩ | ⟨hstage', hio', hsend', -, hrecv', -⟩
    · refine (wired_waits hremote' (by rwa [hstage'])).mpr ?_
      exact ⟨hio'.trans hio, hsend₀, hsend'.trans hsend, hrecv'.trans hrecv⟩
    · have hnot : s.conn.stage ≠ .stream := by
        rcases hstage with hstage | hstage <;> rw [hstage] <;> exact nofun
      refine (wired_stream_iff hstage').mpr ⟨r', hremote', hconnected', ?_, ?_⟩
      · rw [hio', hsend']
        rfl
      · rw [hrecv' hnot, hsend₀]
        rfl
  · obtain ⟨r₀, hremote₀, hconnected, hio, hrecv⟩ := (wired_stream_iff hstage).mp hs
    cases hremote.symm.trans hremote₀
    rcases hmoves with ⟨hstage', hio', hsend', hrecv', -⟩ | ⟨hstage', hio', hsend', hrecv', -, -⟩
    · refine (wired_stream_iff (hstage'.trans hstage)).mpr
        ⟨r', hremote', hconnected', ?_, hrecv'.trans hrecv⟩
      rw [hio', hsend', hio]
    · refine (wired_stream_iff hstage').mpr
        ⟨r', hremote', hconnected', ?_, (hrecv' hstage hconnected).trans hrecv⟩
      rw [hio', hsend']
      rfl

/-- Every callback leaves the watchers as the stage behind it has them. -/
theorem step_wired {e : Event} (hs : s.Wired) (he : s.Watched e)
    (h : step env plugins compatible s e = some t) : t.Wired := by
  cases e with
  | serverRecv seg mem taken connect reply => exact serverRecvCb_wired hs he.2 h
  | serverSend reply => exact serverSendCb_wired hs he h
  | serverResolve connect resolved =>
    obtain ⟨hstage, hremote⟩ := he
    obtain ⟨c, hresolve, rfl⟩ := Option.map_eq_some_iff.mp h
    exact serverResolveCb_wired hs hstage hremote hresolve
  | remoteRecv data reply =>
    obtain ⟨-, r, hremote, hread⟩ := he
    simp only [step, hremote] at h
    exact remoteRecvCb_wired hs hremote hread h
  | remoteSend peer reply =>
    obtain ⟨r, hremote, hsend⟩ := he
    obtain ⟨c, hcall, rfl⟩ := Option.map_eq_some_iff.mp h
    exact remoteSendCb_wired hs hremote hsend hcall

/-- The last stage is never left. -/
theorem step_stream {e : Event} (hs : s.Wired) (hstage : s.conn.stage = .stream) (he : s.Watched e)
    (h : step env plugins compatible s e = some t) : t.conn.stage = .stream := by
  obtain ⟨r, hremote, -⟩ := (wired_stream_iff hstage).mp hs
  cases e with
  | serverRecv seg mem taken connect reply => exact (serverRecvCb_moves hstage hremote h).1
  | serverSend reply => exact (serverSendCb_moves h).1.trans hstage
  | serverResolve connect resolved => cases hstage.symm.trans he.1
  | remoteRecv data reply =>
    simp only [step, hremote] at h
    exact (remoteRecvCb_moves h hremote).1.trans hstage
  | remoteSend peer reply =>
    obtain ⟨c, hcall, rfl⟩ := Option.map_eq_some_iff.mp h
    obtain ⟨-, -, -, -, -, -, -, ⟨hkeep, -⟩ | ⟨hstream, -⟩⟩ := remoteSendCb_moves hcall
    · exact hkeep.trans hstage
    · exact hstream

/-- The stream to a remote. -/
theorem upstream_of {r : Remote} (hremote : s.conn.remote = some r) :
    s.upstream = ⟨r.sent, r.unsent⟩ := by
  rw [upstream, hremote]

/-- The client is read when nothing waits for the remote. -/
theorem Wired.sendIo_of_recvIo {r : Remote} (hs : s.Wired) (hremote : s.conn.remote = some r)
    (hio : s.conn.recvIo = true) : s.conn.stage = .stream ∧ r.sendIo = false := by
  rcases hs.reads_or_stream hio with hreads | hstage
  · rw [((wired_reads_iff hreads).mp hs).1] at hremote
    cases hremote
  · obtain ⟨r₀, hremote₀, -, hwrite, -⟩ := (wired_stream_iff hstage).mp hs
    cases hremote.symm.trans hremote₀
    rw [hio] at hwrite
    exact ⟨hstage, by simpa using hwrite.symm⟩

/-- The remote is read when nothing waits for the client. -/
theorem Wired.sendIo_of_remote {r : Remote} (hs : s.Wired) (hremote : s.conn.remote = some r)
    (hio : r.recvIo = true) : s.conn.stage = .stream ∧ s.sendIo = false := by
  have hstage := hs.stream_of_recvIo hremote hio
  obtain ⟨r₀, hremote₀, -, -, hwrite⟩ := (wired_stream_iff hstage).mp hs
  cases hremote.symm.trans hremote₀
  rw [hio] at hwrite
  exact ⟨hstage, by simpa using hwrite.symm⟩

/-- A segment is put into the stream to the remote. -/
theorem serverRecvCb_upstream {mem seg : Bytes} {taken : Nat} {connect : ConnectReply} {r : Remote}
    (hs : s.Wired) (hremote : s.conn.remote = some r) (hio : s.conn.recvIo = true)
    (h : serverRecvCb env plugins compatible mem taken connect reply s seg = some t) :
    (∃ r', t.conn.remote = some r') ∧ ∃ m, s.upstream.step m = some t.upstream ∧
      m.chunk = forwarded env plugins compatible s (.serverRecv seg mem taken connect reply) := by
  obtain ⟨hstage, hstopped⟩ := hs.sendIo_of_recvIo hremote hio
  have hempty : r.unsent = [] := if_neg (by rw [hstopped]; exact nofun)
  obtain ⟨-, -, -, -, r', hremote', -, hmoves⟩ := serverRecvCb_moves hstage hremote h
  refine ⟨⟨r', hremote'⟩, ?_⟩
  rw [upstream_of hremote, upstream_of hremote', hempty]
  rcases hmoves with ⟨hnone, hsent, hkeep, -⟩ | ⟨data, n, hdata, hsent, hrest⟩
  · refine ⟨.push 0, ?_, hnone.symm⟩
    have hempty' : r'.unsent = [] := if_neg (by rw [hkeep, hstopped]; exact nofun)
    rw [Pump.step_push_zero, hsent, hempty']
  · refine ⟨.put data n, ?_, hdata.symm⟩
    rw [Pump.step_put rfl, hsent]
    rcases hrest with ⟨hstart, -, hpending⟩ | ⟨hkeep, -, hall⟩
    · rw [Remote.unsent, if_pos hstart, hpending]
    · rw [Remote.unsent, if_neg (by rw [hkeep, hstopped]; exact nofun), hall]

/-- What waits for the remote is pushed out. -/
theorem remoteSendCb_upstream {peer : Bool} {c : Conn σ κ} {r : Remote}
    (hremote : s.conn.remote = some r) (hsend : r.sendIo = true)
    (h : remoteSendCb peer reply s.conn = some c) :
    (∃ r', c.remote = some r') ∧
      ∃ n, s.upstream.step (.push n) = some (upstream { s with conn := c }) := by
  obtain ⟨r₀, r', n, hremote₀, hremote', -, hsent, hmoves⟩ := remoteSendCb_moves h
  cases hremote.symm.trans hremote₀
  have hup' : upstream { s with conn := c } = ⟨r'.sent, r'.unsent⟩ := upstream_of hremote'
  refine ⟨⟨r', hremote'⟩, n, ?_⟩
  rw [upstream_of hremote, hup', Pump.step, Remote.unsent, if_pos hsend, hsent]
  rcases hmoves with ⟨-, -, hkeep, -, hpending⟩ | ⟨-, -, hstop, -, -, hall⟩
  · rw [Remote.unsent, if_pos (hkeep.trans hsend), hpending]
  · rw [Remote.unsent, if_neg (by rw [hstop]; exact Bool.false_ne_true), hall]

/-- Every callback of an open connection moves the stream to the remote, by what it has for it. -/
theorem step_upstream {e : Event} {r : Remote} (hs : s.Wired) (hremote : s.conn.remote = some r)
    (he : s.Watched e) (h : step env plugins compatible s e = some t) :
    (∃ r', t.conn.remote = some r') ∧
      ∃ m, s.upstream.step m = some t.upstream ∧ m.chunk = forwarded env plugins compatible s e := by
  -- the remote but for its watcher for reading is untouched
  have hidle {r' : Remote} (hremote' : t.conn.remote = some r')
      (hr' : r' = { r with recvIo := r'.recvIo }) : s.upstream.step (.push 0) = some t.upstream := by
    have hsame : t.upstream = s.upstream := by
      rw [upstream_of hremote, upstream_of hremote', hr']
      rfl
    rw [hsame]
    exact Pump.step_push_zero _
  cases e with
  | serverRecv seg mem taken connect reply => exact serverRecvCb_upstream hs hremote he.2 h
  | serverSend reply =>
    obtain ⟨-, -, r₀, r', n, hremote₀, hremote', hr', -⟩ := serverSendCb_moves h
    cases hremote.symm.trans hremote₀
    exact ⟨⟨r', hremote'⟩, .push 0, hidle hremote' hr', rfl⟩
  | serverResolve connect resolved =>
    rw [he.2] at hremote
    cases hremote
  | remoteRecv data reply =>
    simp only [step, hremote] at h
    obtain ⟨-, -, r', n, hremote', hr', -⟩ := remoteRecvCb_moves h hremote
    exact ⟨⟨r', hremote'⟩, .push 0, hidle hremote' hr', rfl⟩
  | remoteSend peer reply =>
    obtain ⟨r₀, hremote₀, hsend⟩ := he
    cases hremote.symm.trans hremote₀
    obtain ⟨c, hcall, rfl⟩ := Option.map_eq_some_iff.mp h
    obtain ⟨hopen, n, hpush⟩ := remoteSendCb_upstream hremote hsend hcall
    exact ⟨hopen, .push n, hpush, rfl⟩

/-- What `server_recv_cb` writes to the client is an answer of the obfs plugin. -/
theorem serverRecvCb_answers {mem seg : Bytes} {taken : Nat} {connect : ConnectReply}
    (h : serverRecvCb env plugins compatible mem taken connect reply s seg = some t) :
    t.sendIo = s.sendIo ∧ t.toClient = s.toClient ++ answered env plugins compatible s seg mem taken := by
  rcases serverRecvCb_ways h with ⟨conn, hread, rfl⟩ |
    ⟨conn, buf, s₁, buf₁, answer, hread, hdecode, hways⟩
  · refine ⟨rfl, ?_⟩
    simp only [answered, hread, List.append_nil]
  · obtain ⟨-, hsend₁, hclient₁⟩ := decodeStage_keeps hdecode
    dsimp only at hsend₁ hclient₁
    rcases hways with ⟨rfl, hback⟩ | ⟨rfl, dCtx, buf₂, s₂, buf₃, -, ⟨hpost, rfl⟩ | ⟨hpost, c, -, rfl⟩⟩
    · rw [sendback_eq hback]
      refine ⟨hsend₁, ?_⟩
      simp only [answered, hread, hdecode, hclient₁]
    · obtain ⟨-, hsend₂, hclient₂⟩ := postDecryptStage_keeps (.inr hpost)
      refine ⟨hsend₂.trans hsend₁, ?_⟩
      simp only [answered, hread, hdecode, List.append_nil]
      exact hclient₂.trans hclient₁
    · obtain ⟨-, hsend₂, hclient₂⟩ := postDecryptStage_keeps (.inl hpost)
      refine ⟨hsend₂.trans hsend₁, ?_⟩
      simp only [answered, hread, hdecode, List.append_nil]
      exact hclient₂.trans hclient₁

/-- No answer is written to the client while a response waits. -/
def AnswersAlone (env : ServerEnv σ κ) (plugins : Plugins ρ π) (compatible : Compatible)
    (s : LayeredConn σ κ ρ π) : Event → Prop
  | .serverRecv seg mem taken _ _ =>
    s.sendIo = true → answered env plugins compatible s seg mem taken = []
  | _ => True

/-- Every callback moves the stream to the client, by what it has for it. -/
theorem step_downstream {e : Event} (hs : s.Wired) (he : s.Watched e)
    (halone : AnswersAlone env plugins compatible s e)
    (h : step env plugins compatible s e = some t) :
    ∃ m, s.downstream.step m = some t.downstream ∧
      m.chunk = returned env plugins compatible s e := by
  have hidle {t' : LayeredConn σ κ ρ π} (hclient : t'.toClient = s.toClient)
      (hunsent : t'.unsent = s.unsent) : s.downstream.step (.push 0) = some t'.downstream := by
    rw [Pump.step_push_zero, downstream, downstream, hclient, hunsent]
  cases e with
  | serverRecv seg mem taken connect reply =>
    obtain ⟨hsend, hclient⟩ := serverRecvCb_answers h
    cases hio : s.sendIo with
    | false =>
      have hempty : s.unsent = [] := if_neg (by rw [hio]; exact nofun)
      have hempty' : t.unsent = [] := if_neg (by rw [hsend, hio]; exact nofun)
      refine ⟨.put (answered env plugins compatible s seg mem taken)
        (answered env plugins compatible s seg mem taken).length, ?_, rfl⟩
      rw [Pump.step_put hempty, List.take_length, List.drop_length, downstream, downstream, hempty',
        hclient]
    | true =>
      have hnone := halone hio
      obtain ⟨r, hremote, -⟩ := (wired_stream_iff (hs.stream_of_sendIo hio)).mp hs
      obtain ⟨-, hbuf, -⟩ := serverRecvCb_moves (hs.stream_of_sendIo hio) hremote h
      refine ⟨.push 0, hidle ?_ ?_, hnone.symm⟩
      · rw [hclient, hnone, List.append_nil]
      · rw [unsent, unsent, hsend, hbuf]
  | serverSend reply =>
    obtain ⟨-, -, r, r', n, -, -, -, hclient, hmoves⟩ := serverSendCb_moves h
    refine ⟨.push n, ?_, rfl⟩
    have hunsent : s.unsent = s.conn.buf.pending := if_pos he
    rw [Pump.step, downstream, downstream, hclient, hunsent]
    rcases hmoves with ⟨hkeep, -, hpending⟩ | ⟨hstop, -, hall⟩
    · rw [unsent, if_pos (hkeep.trans he), hpending]
    · rw [unsent, if_neg (by rw [hstop]; exact nofun), hall]
  | serverResolve connect resolved =>
    obtain ⟨hstage, hremote⟩ := he
    obtain ⟨c, hresolve, rfl⟩ := Option.map_eq_some_iff.mp h
    unfold Wired at hs
    rw [hstage, hremote] at hs
    refine ⟨.push 0, hidle rfl ?_, rfl⟩
    rw [unsent, unsent, if_neg (by rw [hs.2]; exact nofun), if_neg (by rw [hs.2]; exact nofun)]
  | remoteRecv data reply =>
    obtain ⟨-, r, hremote, hread⟩ := he
    have hstopped := (hs.sendIo_of_remote hremote hread).2
    simp only [step, hremote] at h
    obtain ⟨-, -, r', n, -, -, hclient, hmoves⟩ := remoteRecvCb_moves h hremote
    have hrest : t.unsent = (wrapped env plugins s data).drop n := by
      rcases hmoves with ⟨hstart, -, hpending⟩ | ⟨hkeep, -, hall⟩
      · rw [unsent, if_pos hstart, hpending]
      · rw [unsent, if_neg (by rw [hkeep, hstopped]; exact nofun), hall]
    refine ⟨.put (wrapped env plugins s data) n, ?_, rfl⟩
    rw [Pump.step_put (if_neg (by rw [hstopped]; exact nofun)), downstream, downstream, hclient, hrest]
  | remoteSend peer reply =>
    obtain ⟨c, hcall, rfl⟩ := Option.map_eq_some_iff.mp h
    obtain ⟨r, r', n, -, -, ⟨hbuf, -⟩, -⟩ := remoteSendCb_moves hcall
    refine ⟨.push 0, hidle rfl ?_, rfl⟩
    rw [unsent, unsent, hbuf]

end Callbacks

end LayeredConn

end OpenWrtCompile.Server
