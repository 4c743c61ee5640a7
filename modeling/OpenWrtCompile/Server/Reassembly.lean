import OpenWrtCompile.Server.Conn

/-!
# Reassembly of a request header from TCP segments

`shadowsocksr-libev/src/server/server.c:666–816`. In `STAGE_INIT` the server waits until more than
one byte follows the IV; what it then decrypts is tested for a whole header. In `STAGE_HANDSHAKE`
each later segment is appended to `header_buf`, but `is_header_complete` is given `server->buf`, the
newest segment alone.
-/

namespace OpenWrtCompile.Server
open OpenWrtCompile.Base

variable {σ κ : Type}

/-- Feed segments to `server_recv_cb` until it hands a buffer to the header parser: the index of
the segment at which that happens, and the bytes handed over. -/
def deliver (env : ServerEnv σ κ) : Conn σ κ → List Bytes → Option (Nat × Bytes)
  | _, [] => none
  | c, seg :: segs =>
    match receive env c seg with
    | .waiting c' => (deliver env c' segs).map fun r ↦ (r.1 + 1, r.2)
    | .parse c' => some (0, c'.buf.data)
    | .closed | .stream _ _ => none

/-- Segment `i` is the first after which `n` bytes have arrived. -/
def CompletesAt (segs : List Bytes) (n i : Nat) : Prop :=
  (segs.take i).flatten.length < n ∧ n ≤ (segs.take (i + 1)).flatten.length

/-- How many segments the first decryption takes: a lone first byte waits for the next segment. -/
def firstPiece (segs : List Bytes) : Nat := if (segs.headD []).length = 1 then 2 else 1

/-- Every segment after the first decrypted piece and before segment `i` reads, taken alone, as an
incomplete header, and segment `i` alone as a complete one; or the first piece reaches segment `i`. -/
def ReadsAlone (auth : Bool) (segs : List Bytes) (i : Nat) : Prop :=
  i < firstPiece segs ∨
    (∀ r ∈ (segs.take i).drop (firstPiece segs), isHeaderComplete auth (.ofBytes r) = .incomplete) ∧
      ∃ q, segs[i]? = some q ∧ isHeaderComplete auth (.ofBytes q) = .complete

/-- What the handshake does with the plaintext segments: `acc` is in `header_buf`, and each new
segment is tested alone. -/
def collect (auth : Bool) : Bytes → List Bytes → Option (Nat × Bytes)
  | _, [] => none
  | acc, q :: qs =>
    match isHeaderComplete auth (.ofBytes q) with
    | .complete => some (0, acc ++ q)
    | .invalid => none
    | .incomplete => (collect auth (acc ++ q) qs).map fun r ↦ (r.1 + 1, r.2)

/-- The handshake ends at the first segment that reads as a whole header, if none before it reads
as an invalid one. -/
theorem collect_eq_some_iff (auth : Bool) (acc : Bytes) (qs : List Bytes) (j : Nat) (b : Bytes) :
    collect auth acc qs = some (j, b) ↔
      b = acc ++ (qs.take (j + 1)).flatten ∧
        (∀ r ∈ qs.take j, isHeaderComplete auth (.ofBytes r) = .incomplete) ∧
          ∃ q, qs[j]? = some q ∧ isHeaderComplete auth (.ofBytes q) = .complete := by
  induction qs generalizing acc j with
  | nil => simp [collect]
  | cons q qs ih =>
    unfold collect
    cases hq : isHeaderComplete auth (.ofBytes q) with
    | complete =>
      cases j with
      | zero => simp [hq, eq_comm]
      | succ j => simp [hq]
    | invalid =>
      cases j with
      | zero => simp [hq]
      | succ j => simp [hq]
    | incomplete =>
      cases j with
      | zero => simp [hq]
      | succ j =>
        have hstep := ih (acc ++ q) j
        simp only [Option.map_eq_some_iff, Prod.mk.injEq, Prod.exists, Nat.add_right_cancel_iff,
          List.take_succ_cons, List.flatten_cons, List.mem_cons, forall_eq_or_imp, hq, true_and,
          List.getElem?_cons_succ, ← List.append_assoc]
        rw [← hstep]
        constructor
        · rintro ⟨a, c, hc, rfl, rfl⟩
          exact hc
        · intro hc
          exact ⟨j, b, hc, rfl, rfl⟩

/-- A new connection that has read `pre` and still waits for the rest of the IV. -/
structure Fresh (c : Conn σ κ) (pre : Bytes) : Prop where
  stage : c.stage = .init
  init : c.dCtx.init = false
  header : c.headerBuf.data = [] ∧ c.headerBuf.len = 0
  idx : c.buf.idx = 0
  data : c.buf.data = pre
  len : c.buf.len = pre.length
  inside : c.buf.len ≤ c.buf.array.length

/-- A connection in the handshake: `acc` is in `header_buf`, and the cipher has run up to `s`. -/
structure Collecting (c : Conn σ κ) (s : σ) (acc : Bytes) : Prop where
  stage : c.stage = .handshake
  ctx : c.dCtx = ⟨true, s⟩
  data : c.headerBuf.data = acc
  len : c.headerBuf.len = acc.length
  inside : c.headerBuf.len ≤ c.headerBuf.array.length
  empty : c.buf.len = 0
  idx : c.buf.idx = 0

/-- `accept_cb` leaves a connection that has read nothing. -/
theorem fresh_newServer (evp : σ) (chunk : κ) (mem headerMem : Bytes) :
    Fresh (newServer evp chunk mem headerMem) [] :=
  ⟨rfl, rfl, ⟨rfl, rfl⟩, rfl, rfl, rfl, Nat.zero_le _⟩

/-- While no byte but one follows the IV, a new connection goes on waiting. -/
theorem receive_fresh_short (env : ServerEnv σ κ) {c : Conn σ κ} {pre : Bytes} (seg : Bytes)
    (hc : Fresh c pre) (h : (pre ++ seg).length ≤ env.cipher.ivLen + 1) :
    ∃ c', receive env c seg = .waiting c' ∧ Fresh c' (pre ++ seg) := by
  have hiv := env.cipher.ivLen_le
  have hsum : (c.buf.append seg).len = (pre ++ seg).length := by
    rw [Buffer.len_append, hc.len, List.length_append]
  have hbig : ¬ bufSize < c.buf.len := by
    rw [List.length_append, ← hc.len] at h
    unfold bufSize
    omega
  have hshort : (c.buf.append seg).len ≤ env.cipher.ivLen + 1 := hsum ▸ h
  have hd := c.buf.data_append seg hc.inside
  rw [hc.data] at hd
  refine ⟨{ c with buf := c.buf.append seg }, ?_, hc.stage, hc.init, hc.header, hc.idx, hd, hsum,
    c.buf.len_append_le seg hc.inside⟩
  simp only [receive, hc.stage, hbig, if_false, hshort, if_true]

/-- Once more than one byte follows the IV, a new connection decrypts all it has and tests it. -/
theorem receive_fresh_long (env : ServerEnv σ κ) {c : Conn σ κ} {pre : Bytes}
    (seg iv p : Bytes) (hc : Fresh c pre) (hpre : pre.length ≤ env.cipher.ivLen + 1)
    (hiv : iv.length = env.cipher.ivLen) (hseen : env.ivSeen iv = false)
    (hw : pre ++ seg = iv ++ (env.cipher.encrypt (env.cipher.setIv iv) p).2)
    (hp : 1 < p.length) :
    ∃ b : Buffer, b.idx = 0 ∧ receive env c seg =
      initStage env.parse.auth { c with
        dCtx := ⟨true, (env.cipher.encrypt (env.cipher.setIv iv) p).1⟩, buf := b.assign p } := by
  have hle := env.cipher.ivLen_le
  have hbig : ¬ bufSize < c.buf.len := by rw [hc.len]; unfold bufSize; omega
  have hd := c.buf.data_append seg hc.inside
  rw [hc.data, hw] at hd
  have hlong : ¬ (c.buf.append seg).len ≤ env.cipher.ivLen + 1 := by
    have h := congrArg List.length hw
    rw [List.length_append, List.length_append, env.cipher.length_encrypt, hiv] at h
    rw [Buffer.len_append, hc.len]
    omega
  have hctx : c.dCtx = ⟨false, c.dCtx.evp⟩ := by rw [← hc.init]
  have hdec := ssDecrypt_first env.cipher env.ivSeen c.dCtx.evp _ iv p hiv hseen hd
    (c.buf.len_append_le seg hc.inside)
  rw [← hctx] at hdec
  refine ⟨(c.buf.append seg).brealloc p.length bufSize, hc.idx, ?_⟩
  simp only [receive, hc.stage, hbig, if_false, hlong, decryptStage, hdec]

/-- In the handshake a segment is decrypted and goes to the handshake stage. -/
theorem receive_collecting (env : ServerEnv σ κ) {c : Conn σ κ} {s : σ} {acc : Bytes} (q : Bytes)
    (hc : Collecting c s acc) :
    ∃ b : Buffer, b.idx = 0 ∧ receive env c (env.cipher.encrypt s q).2 =
      handshakeStage env.parse.auth { c with
        dCtx := ⟨true, (env.cipher.encrypt s q).1⟩, buf := b.assign q } := by
  have hbig : ¬ bufSize < c.buf.len := by rw [hc.empty]; decide
  have hd : (c.buf.assign (env.cipher.encrypt s q).2).data = (env.cipher.encrypt s q).2 :=
    Buffer.data_assign _ _
  have hdec := ssDecrypt_running env.cipher env.ivSeen s _ q hd
  rw [← hc.ctx] at hdec
  refine ⟨(c.buf.assign (env.cipher.encrypt s q).2).brealloc q.length bufSize, hc.idx, ?_⟩
  have hfill : (c.buf.write c.buf.len (env.cipher.encrypt s q).2).setLen
      (env.cipher.encrypt s q).2.length = c.buf.assign (env.cipher.encrypt s q).2 := by
    rw [hc.empty]
    rfl
  simp only [receive, hc.stage, hbig, if_false, decryptStage, hfill, hdec]

/-- The handshake stage appends the segment to `header_buf` and tests the segment alone. -/
theorem handshakeStage_spec (auth : Bool) (c : Conn σ κ) (b : Buffer) (q : Bytes)
    (hb : c.buf = b.assign q) (hne : q ≠ []) (hin : c.headerBuf.len ≤ c.headerBuf.array.length) :
    match isHeaderComplete auth (.ofBytes q) with
    | .complete => ∃ c', handshakeStage auth c = .parse c' ∧
        c'.buf.data = c.headerBuf.data ++ q ∧ c'.buf.idx = b.idx
    | .invalid => ∃ c', handshakeStage auth c = .waiting c' ∧ c'.stage = .error
    | .incomplete => ∃ c', handshakeStage auth c = .waiting c' ∧ c'.stage = c.stage ∧
        c'.dCtx = c.dCtx ∧ c'.headerBuf.data = c.headerBuf.data ++ q ∧
        c'.headerBuf.len = c.headerBuf.len + q.length ∧
        c'.headerBuf.len ≤ c'.headerBuf.array.length ∧ c'.buf.len = 0 ∧ c'.buf.idx = 0 := by
  have hcheck : isHeaderComplete auth c.buf = isHeaderComplete auth (.ofBytes q) := by
    rw [hb, isHeaderComplete_eq_ofBytes auth _ (b.len_assign_le q)
      (List.length_pos_iff.mpr hne), Buffer.data_assign]
  have hdata : c.buf.data = q := by rw [hb, Buffer.data_assign]
  have hgrow := c.headerBuf.len_brealloc_le (c.buf.len + c.headerBuf.len) bufSize hin
  have happ := Buffer.data_append _ q hgrow
  rw [c.headerBuf.data_brealloc _ _ hin] at happ
  cases hq : isHeaderComplete auth (.ofBytes q) with
  | complete =>
    refine ⟨_, by simp only [handshakeStage, hcheck, hq]; rfl, ?_, ?_⟩
    · simp only [Buffer.data_assign, hdata, happ]
    · simp only [hb, Buffer.idx_assign, Buffer.idx_brealloc]
  | invalid => exact ⟨_, by simp only [handshakeStage, hcheck, hq]; rfl, rfl⟩
  | incomplete =>
    refine ⟨{ c with
      headerBuf := (c.headerBuf.brealloc (c.buf.len + c.headerBuf.len) bufSize).append c.buf.data
      buf := c.buf.reset }, by simp only [handshakeStage, hcheck, hq], rfl, rfl, ?_, ?_, ?_, rfl, rfl⟩
    · simp only [hdata, happ]
    · simp only [hdata, Buffer.len_append, Buffer.len_brealloc]
    · simp only [hdata]
      exact Buffer.len_append_le _ q hgrow

/-- After `STAGE_ERROR` nothing is ever handed to the parser. -/
theorem deliver_error (env : ServerEnv σ κ) (c : Conn σ κ) (segs : List Bytes)
    (hc : c.stage = .error) : deliver env c segs = none := by
  induction segs generalizing c with
  | nil => rfl
  | cons seg segs ih =>
    unfold deliver
    by_cases hbig : bufSize < c.buf.len
    · simp only [receive, hc, hbig, if_true]
    · have hrec : receive env c seg =
          .waiting { c with buf := (c.buf.write c.buf.len seg).reset } := by
        simp only [receive, hc, hbig, if_false]
      rw [hrec]
      simp only [ih { c with buf := (c.buf.write c.buf.len seg).reset } hc, Option.map_none]

/-- From the handshake on, the run over the ciphertext is `collect` over the plaintext. -/
theorem deliver_collecting (env : ServerEnv σ κ) (c : Conn σ κ) (s : σ) (acc : Bytes)
    (qs : List Bytes) (hne : ∀ q ∈ qs, q ≠ []) (hc : Collecting c s acc) :
    deliver env c (encryptSegments env.cipher s qs) = collect env.parse.auth acc qs := by
  induction qs generalizing c s acc with
  | nil => rfl
  | cons q qs ih =>
    have hq := hne q List.mem_cons_self
    have hqs : ∀ r ∈ qs, r ≠ [] := fun r hr ↦ hne r (List.mem_cons_of_mem _ hr)
    rcases receive_collecting env q hc with ⟨b, hidx, hrec⟩
    have hspec := handshakeStage_spec env.parse.auth
      { c with dCtx := ⟨true, (env.cipher.encrypt s q).1⟩, buf := b.assign q } b q rfl hq hc.inside
    unfold encryptSegments deliver collect
    rw [hrec]
    cases ht : isHeaderComplete env.parse.auth (.ofBytes q) with
    | complete =>
      rw [ht] at hspec
      rcases hspec with ⟨c', h1, h2, -⟩
      rw [h1]
      simp only [h2, hc.data]
    | invalid =>
      rw [ht] at hspec
      rcases hspec with ⟨c', h1, h2⟩
      rw [h1]
      simp only [deliver_error env c' _ h2, Option.map_none]
    | incomplete =>
      rw [ht] at hspec
      rcases hspec with ⟨c', h1, h2, h3, h4, h5, h6, h7, h8⟩
      have hc' : Collecting c' (env.cipher.encrypt s q).1 (acc ++ q) :=
        ⟨h2.trans hc.stage, h3, by rw [h4, hc.data], by rw [h5, hc.len, List.length_append],
          h6, h7, h8⟩
      rw [h1]
      simp only [ih c' _ _ hqs hc']

/-- The first decrypted piece `p` either goes to the parser, or is refused, or opens the handshake
over the segments behind it. -/
theorem deliver_initStage (env : ServerEnv σ κ) (c : Conn σ κ) (b : Buffer) (s : σ) (p : Bytes)
    (qs : List Bytes) (seg : Bytes) (hne : p ≠ []) (hqs : ∀ q ∈ qs, q ≠ [])
    (hbuf : c.buf = b.assign p) (hctx : c.dCtx = ⟨true, s⟩)
    (hhead : c.headerBuf.data = [] ∧ c.headerBuf.len = 0) (c₀ : Conn σ κ)
    (hrec : receive env c₀ seg = initStage env.parse.auth c) :
    deliver env c₀ (seg :: encryptSegments env.cipher s qs) = collect env.parse.auth [] (p :: qs) := by
  have hcheck : isHeaderComplete env.parse.auth c.buf =
      isHeaderComplete env.parse.auth (.ofBytes p) := by
    rw [hbuf, isHeaderComplete_eq_ofBytes _ _ (b.len_assign_le p)
      (List.length_pos_iff.mpr hne), Buffer.data_assign]
  unfold deliver collect
  rw [hrec]
  cases ht : isHeaderComplete env.parse.auth (.ofBytes p) with
  | complete =>
    have hd : c.buf.data = p := by rw [hbuf, Buffer.data_assign]
    simp only [initStage, hcheck, ht, hd, List.nil_append]
  | invalid =>
    simp only [initStage, hcheck, ht]
    rw [deliver_error env _ _ rfl]
    rfl
  | incomplete =>
    have hspec := handshakeStage_spec env.parse.auth { c with stage := .handshake } b p hbuf hne
      (by rw [hhead.2]; exact Nat.zero_le _)
    rw [ht] at hspec
    rcases hspec with ⟨c', h1, h2, h3, h4, h5, h6, h7, h8⟩
    simp only [hhead.1, List.nil_append] at h4
    simp only [hhead.2, Nat.zero_add] at h5
    have hc' : Collecting c' s p := ⟨h2, h3.trans hctx, h4, h5, h6, h7, h8⟩
    simp only [initStage, hcheck, ht, h1, List.nil_append,
      deliver_collecting env c' s p qs hqs hc']

/-- The whole run from a new connection, in terms of the plaintext: a lone first byte is joined
with the second segment, and `collect` runs over the pieces. -/
theorem deliver_newServer (env : ServerEnv σ κ) (evp : σ) (chunk : κ) (mem headerMem iv : Bytes)
    (hiv : iv.length = env.cipher.ivLen) (hseen : env.ivSeen iv = false) (p : Bytes)
    (ps : List Bytes) (hne : ∀ s ∈ p :: ps, s ≠ []) :
    deliver env (newServer evp chunk mem headerMem) (wire env.cipher iv (p :: ps)) =
      if p.length = 1 then
        match ps with
        | [] => none
        | q :: qs => (collect env.parse.auth [] ((p ++ q) :: qs)).map fun r ↦ (r.1 + 1, r.2)
      else collect env.parse.auth [] (p :: ps) := by
  have hp := hne p List.mem_cons_self
  have hps : ∀ r ∈ ps, r ≠ [] := fun r hr ↦ hne r (List.mem_cons_of_mem _ hr)
  have hf := fresh_newServer evp chunk mem headerMem
  unfold wire
  by_cases h1 : p.length = 1
  · have hshort : ([] ++ (iv ++ (env.cipher.encrypt (env.cipher.setIv iv) p).2)).length ≤
        env.cipher.ivLen + 1 := by
      rw [List.nil_append, List.length_append, env.cipher.length_encrypt, hiv, h1]
    rcases receive_fresh_short env _ hf hshort with ⟨c', hrec, hc'⟩
    rw [List.nil_append] at hc' hshort
    rw [if_pos h1, deliver, hrec]
    cases ps with
    | nil => rfl
    | cons q qs =>
      have hq := hps q List.mem_cons_self
      have happ := env.cipher.encrypt_append (env.cipher.setIv iv) p q
      rcases receive_fresh_long env
          (env.cipher.encrypt (env.cipher.encrypt (env.cipher.setIv iv) p).1 q).2 iv (p ++ q) hc'
          hshort hiv hseen (by rw [happ, List.append_assoc])
          (by rw [List.length_append, h1]; have := List.length_pos_iff.mpr hq; omega)
        with ⟨b, -, hlong⟩
      have hrest := deliver_initStage env { c' with
          dCtx := ⟨true, (env.cipher.encrypt (env.cipher.setIv iv) (p ++ q)).1⟩
          buf := b.assign (p ++ q) } b _ (p ++ q) qs _ (by simp [hp])
        (fun r hr ↦ hps r (List.mem_cons_of_mem _ hr)) rfl rfl hc'.header c' hlong
      rw [happ] at hrest
      simp only [encryptSegments, hrest]
  · have hlen : 1 < p.length := by have := List.length_pos_iff.mpr hp; omega
    rcases receive_fresh_long env (iv ++ (env.cipher.encrypt (env.cipher.setIv iv) p).2) iv p hf
        (Nat.zero_le _) hiv hseen rfl hlen with ⟨b, -, hlong⟩
    rw [if_neg h1, deliver_initStage env { newServer evp chunk mem headerMem with
        dCtx := ⟨true, (env.cipher.encrypt (env.cipher.setIv iv) p).1⟩
        buf := b.assign p } b _ p ps _ hp hps rfl rfl hf.header _ hlong]

/-- Over pieces whose first one is tested with everything before it, the handshake ends at the right
piece exactly if the later ones read alone as they should. -/
theorem collect_eq_iff (auth : Bool) {h payload : Bytes} (hh : IsHeader auth h) (x : Bytes)
    (xs : List Bytes) (hx : x ≠ []) (hsplit : (x :: xs).flatten = h ++ payload) (j : Nat)
    (hj : CompletesAt (x :: xs) h.length j) :
    collect auth [] (x :: xs) = some (j, ((x :: xs).take (j + 1)).flatten) ↔
      j < 1 ∨ (∀ r ∈ ((x :: xs).take j).drop 1, isHeaderComplete auth (.ofBytes r) = .incomplete) ∧
        ∃ q, (x :: xs)[j]? = some q ∧ isHeaderComplete auth (.ofBytes q) = .complete := by
  have hpre : x <+: h ++ payload := by
    rw [← hsplit, List.flatten_cons]
    exact List.prefix_append _ _
  have hfirst := isHeaderComplete_of_isHeader hh hx hpre
  rw [collect_eq_some_iff]
  simp only [List.nil_append, true_and]
  rcases hj with ⟨hlt, hle⟩
  cases j with
  | zero =>
    simp only [List.take_succ_cons, List.take_zero, List.flatten_cons, List.flatten_nil,
      List.append_nil] at hle
    rw [if_pos hle] at hfirst
    simp [hfirst]
  | succ j =>
    have hshort : ¬ h.length ≤ x.length := by
      simp only [List.take_succ_cons, List.flatten_cons, List.length_append] at hlt
      omega
    rw [if_neg hshort] at hfirst
    simp [hfirst]

/-- **Reassembly.** For a header and any payload cut into non-empty segments, the header parser is
called exactly at the segment that completes the header, with all the plaintext received so far, if
and only if that segment was decrypted with the first one, or the segments in between read alone as
incomplete headers and it reads alone as a complete one. -/
theorem deliver_eq_iff (env : ServerEnv σ κ) (evp : σ) (chunk : κ) (mem headerMem iv : Bytes)
    (hiv : iv.length = env.cipher.ivLen) (hseen : env.ivSeen iv = false) (h payload : Bytes)
    (hh : IsHeader env.parse.auth h) (segs : List Bytes) (hne : ∀ s ∈ segs, s ≠ [])
    (hsplit : segs.flatten = h ++ payload) (i : Nat) (hi : CompletesAt segs h.length i) :
    deliver env (newServer evp chunk mem headerMem) (wire env.cipher iv segs) =
        some (i, (segs.take (i + 1)).flatten) ↔
      ReadsAlone env.parse.auth segs i := by
  have h5 := hh.five_le
  cases segs with
  | nil =>
    rcases hi with ⟨-, hle⟩
    simp only [List.take_nil, List.flatten_nil, List.length_nil] at hle
    omega
  | cons p ps =>
    rw [deliver_newServer env evp chunk mem headerMem iv hiv hseen p ps hne]
    have hp := hne p List.mem_cons_self
    unfold ReadsAlone
    by_cases h1 : p.length = 1
    · have hfirst : firstPiece (p :: ps) = 2 := by simp [firstPiece, h1]
      rw [if_pos h1, hfirst]
      cases i with
      | zero =>
        -- one byte is no header
        have hle := hi.2
        simp only [List.take_succ_cons, List.take_zero, List.flatten_cons, List.flatten_nil,
          List.append_nil, h1] at hle
        omega
      | succ i =>
        cases ps with
        | nil =>
          have hle := hi.2
          simp only [List.take_succ_cons, List.take_nil, List.flatten_cons, List.flatten_nil,
            List.append_nil, h1] at hle
          omega
        | cons q qs =>
          -- the lone byte and the second segment are one piece, so all indices move by one
          have hjoin (n : Nat) : (((p ++ q) :: qs).take (n + 1)).flatten =
              ((p :: q :: qs).take (n + 2)).flatten := by
            simp only [List.take_succ_cons, List.flatten_cons, List.append_assoc]
          have hcompletes : CompletesAt ((p ++ q) :: qs) h.length i := by
            rcases hi with ⟨hlt, hle⟩
            refine ⟨?_, by rw [hjoin]; exact hle⟩
            cases i with
            | zero => simp only [List.take_zero, List.flatten_nil, List.length_nil]; omega
            | succ i => rw [hjoin]; exact hlt
          have hrun := collect_eq_iff env.parse.auth hh (p ++ q) qs (by simp [hp])
            (by rw [← hsplit]; simp only [List.flatten_cons, List.append_assoc]) i hcompletes
          have hshift : (collect env.parse.auth [] ((p ++ q) :: qs)).map (fun r ↦ (r.1 + 1, r.2)) =
                some (i + 1, ((p :: q :: qs).take (i + 1 + 1)).flatten) ↔
              collect env.parse.auth [] ((p ++ q) :: qs) =
                some (i, (((p ++ q) :: qs).take (i + 1)).flatten) := by
            rw [hjoin]
            simp [Option.map_eq_some_iff]
          change (collect env.parse.auth [] ((p ++ q) :: qs)).map (fun r ↦ (r.1 + 1, r.2)) = _ ↔ _
          rw [hshift, hrun]
          cases i with
          | zero => simp
          | succ i => simp [show ¬ i + 1 + 1 < 2 by omega]
    · have hfirst : firstPiece (p :: ps) = 1 := by simp [firstPiece, h1]
      rw [if_neg h1, hfirst]
      exact collect_eq_iff env.parse.auth hh p ps hp hsplit i hi

/-- A literal address whose header comes in two segments of two and five bytes is never parsed: the
second segment alone has no known address type. -/
theorem deliver_split_header :
    IsHeader false [1, 127, 0, 0, 1, 0, 80] ∧ CompletesAt [[1, 127], [0, 0, 1, 0, 80]] 7 1 ∧
      deliver (plainEnv false) (newServer () () [] [])
        (wire (xorCipher 0x5A) [0, 0, 0, 0, 0, 0, 0, 0] [[1, 127], [0, 0, 1, 0, 80]]) = none := by
  refine ⟨?_, ?_, by decide⟩
  · exact .mk 1 [127, 0, 0, 1] [0, 80] [] (.ipv4 _ rfl rfl) rfl rfl
  · exact ⟨by decide, by decide⟩

/-- `deliver_eq_iff` on a domain header whose second segment happens to look like one itself. -/
theorem deliver_lucky_split :
    deliver (plainEnv false) (newServer () () [] [])
        (wire (xorCipher 0x5A) [0, 0, 0, 0, 0, 0, 0, 0] [[3, 7, 97], [1, 1, 1, 1, 1, 1, 0, 80]]) =
      some (1, [3, 7, 97, 1, 1, 1, 1, 1, 1, 0, 80]) := by
  have hh : IsHeader false [3, 7, 97, 1, 1, 1, 1, 1, 1, 0, 80] :=
    .mk 3 [7, 97, 1, 1, 1, 1, 1, 1] [0, 80] [] (.name 7 _ rfl (by decide) rfl) rfl rfl
  apply (deliver_eq_iff (plainEnv false) () () [] [] [0, 0, 0, 0, 0, 0, 0, 0] rfl rfl
    [3, 7, 97, 1, 1, 1, 1, 1, 1, 0, 80] [] hh [[3, 7, 97], [1, 1, 1, 1, 1, 1, 0, 80]] (by decide)
    rfl 1 ⟨by decide, by decide⟩).mpr
  right
  exact ⟨by decide, [1, 1, 1, 1, 1, 1, 0, 80], rfl, by decide⟩

end OpenWrtCompile.Server
