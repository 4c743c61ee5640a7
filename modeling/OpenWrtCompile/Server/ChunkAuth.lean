import OpenWrtCompile.Base.Framing
import OpenWrtCompile.Base.Stream
import OpenWrtCompile.Server.Request
import Mathlib.Data.UInt

/-!
# One-time authentication of chunks

`shadowsocksr-libev/src/server/encrypt.c:1557–1645` (`ss_check_hash`, `ss_gen_hash`). A chunk is its
length, a cut HMAC and its data; the key of the HMAC contains the number of the chunk. The receiver
takes its bytes one by one and puts the data of whole chunks back into the buffer they came in. The
HMAC is a parameter. Writes are checked against the sizes of the blocks.
-/

namespace OpenWrtCompile.Server
open OpenWrtCompile.Base

/-- `CLEN_BYTES`. -/
def clenBytes : Nat := 2

/-- `AUTH_BYTES`. -/
def authBytes : Nat := onetimeauthBytes + clenBytes

/-- `chunk_t`. -/
structure Chunk where
  idx : Nat
  len : Nat
  counter : UInt32
  buf : Buffer
  deriving DecidableEq, Repr

/-- The chunk of `new_server`: all zero, without a block. -/
def newChunk : Chunk := ⟨0, 0, 0, ⟨[], 0, 0⟩⟩

/-- Why a call gives no output. -/
inductive HashFailure where
  /-- A write beyond a block. -/
  | overrun
  /-- The return value 0. -/
  | mismatch
  deriving DecidableEq, Repr

/-- `memcpy` or `memmove` into the block of a buffer. -/
def putAt (b : Buffer) (off : Nat) (src : Bytes) : Except HashFailure Buffer :=
  match b.put off src with
  | some b => .ok b
  | none => .error .overrun

/-- `htonl`, as bytes in memory. -/
def bytes32 (n : UInt32) : Bytes :=
  [(n >>> 24).toUInt8, (n >>> 16).toUInt8, (n >>> 8).toUInt8, n.toUInt8]

/-- The first ten bytes of the HMAC of a chunk. -/
def chunkHash (hmac : Bytes → Bytes → Bytes) (iv : Bytes) (counter : UInt32) (data : Bytes) : Bytes :=
  (hmac (iv ++ bytes32 counter) data).take onetimeauthBytes

/-- The variables of the loop of `ss_check_hash`; `i` is given by what is left to read. -/
structure CheckLoop where
  chunkBuf : Buffer
  len : Nat
  counter : UInt32
  cidx : Nat
  buf : Buffer
  j : Nat
  k : Nat

/-- `ntohs(*((uint16_t *)chunk->buf->array))`. -/
def clen (b : Buffer) : Nat := word16 (b.byte 0) (b.byte 1)

/-- Lines 1576–1606, a whole chunk. -/
def chunkDone (hmac : Bytes → Bytes → Bytes) (iv : Bytes) (rest : Nat) (s : CheckLoop) :
    Except HashFailure CheckLoop :=
  if chunkHash hmac iv s.counter (window s.chunkBuf.array authBytes s.len) ≠
      window s.chunkBuf.array clenBytes onetimeauthBytes then .error .mismatch
  else do
    let buf ← putAt s.buf (s.j + s.len) (window s.buf.array s.k rest)
    let buf ← putAt buf s.j (window s.chunkBuf.array authBytes s.len)
    return { s with
      buf, j := s.j + s.len, k := s.j + s.len, cidx := 0, counter := s.counter + 1 }

/-- Lines 1568–1574: a byte goes into the chunk; the second one completes its length. -/
def takeByte (capacity : Nat) (s : CheckLoop) : Except HashFailure CheckLoop := do
  let chunkBuf ← putAt s.chunkBuf s.cidx [s.buf.byte s.k]
  let s := { s with chunkBuf, cidx := s.cidx + 1, k := s.k + 1 }
  if s.cidx = clenBytes then
    return { s with
      chunkBuf := s.chunkBuf.brealloc (clen s.chunkBuf + authBytes) capacity
      len := clen s.chunkBuf }
  else return s

/-- One pass of the loop; `rest` is `blen - i - 1`. -/
def checkByte (hmac : Bytes → Bytes → Bytes) (iv : Bytes) (capacity rest : Nat) (s : CheckLoop) :
    Except HashFailure CheckLoop := do
  let s ← takeByte capacity s
  if s.cidx = s.len + authBytes then chunkDone hmac iv rest s else return s

/-- The loop over the bytes left. -/
def checkLoop (hmac : Bytes → Bytes → Bytes) (iv : Bytes) (capacity : Nat) :
    Nat → CheckLoop → Except HashFailure CheckLoop
  | 0, s => return s
  | rest + 1, s => do
    let s ← checkByte hmac iv capacity rest s
    checkLoop hmac iv capacity rest s

/-- `ss_check_hash`. -/
def ssCheckHash (hmac : Bytes → Bytes → Bytes) (iv : Bytes) (capacity : Nat) (chunk : Chunk)
    (buf : Buffer) : Except HashFailure (Chunk × Buffer) := do
  let s ← checkLoop hmac iv capacity buf.len
    { chunkBuf := chunk.buf.brealloc (chunk.len + buf.len) capacity
      len := chunk.len
      counter := chunk.counter
      cidx := chunk.idx
      buf := buf.brealloc (chunk.len + buf.len) capacity
      j := 0
      k := 0 }
  return (⟨s.cidx, s.len, s.counter, s.chunkBuf⟩, s.buf.setLen s.j)

/-- `ss_gen_hash`; the length is cut to 16 bits. -/
def ssGenHash (hmac : Bytes → Bytes → Bytes) (iv : Bytes) (capacity : Nat) (counter : UInt32)
    (buf : Buffer) : Except HashFailure (UInt32 × Buffer) := do
  let hash := chunkHash hmac iv counter (window buf.array 0 buf.len)
  let grown := buf.brealloc (authBytes + buf.len) capacity
  let grown ← putAt grown authBytes (window grown.array 0 buf.len)
  let grown ← putAt grown clenBytes hash
  let grown ← putAt grown 0 (bytes16 buf.len)
  return (counter + 1, grown.setLen (buf.len + authBytes))

/-! ## Chunks on the wire -/

/-- The bytes of a chunk. -/
def frame (hmac : Bytes → Bytes → Bytes) (iv : Bytes) (counter : UInt32) (data : Bytes) : Bytes :=
  bytes16 data.length ++ (chunkHash hmac iv counter data ++ data)

/-- The bytes of chunks that are numbered from `counter` on. -/
def framed (hmac : Bytes → Bytes → Bytes) (iv : Bytes) : UInt32 → List Bytes → Bytes
  | _, [] => []
  | counter, d :: ds => frame hmac iv counter d ++ framed hmac iv (counter + 1) ds

/-- A receiver of bytes: what has arrived of a chunk, and its number. -/
def receiveByte (hmac : Bytes → Bytes → Bytes) (iv : Bytes) (p : Bytes × UInt32) (b : UInt8) :
    Option ((Bytes × UInt32) × Bytes) :=
  let acc := p.1 ++ [b]
  if clenBytes ≤ acc.length ∧ acc.length = word16 (acc[0]?.getD 0) (acc[1]?.getD 0) + authBytes then
    if chunkHash hmac iv p.2 (acc.drop authBytes) = window acc clenBytes onetimeauthBytes then
      some (([], p.2 + 1), acc.drop authBytes)
    else none
  else some ((acc, p.2), [])

section Wire

variable {hmac : Bytes → Bytes → Bytes} {iv : Bytes}
  (hlength : ∀ k d, onetimeauthBytes ≤ (hmac k d).length)

include hlength in
/-- The size of a cut HMAC. -/
theorem length_chunkHash (counter : UInt32) (data : Bytes) :
    (chunkHash hmac iv counter data).length = onetimeauthBytes := by
  have h := hlength (iv ++ bytes32 counter) data
  rw [chunkHash, List.length_take, Nat.min_eq_left h]

include hlength in
/-- The size of a chunk. -/
theorem length_frame (counter : UInt32) (data : Bytes) :
    (frame hmac iv counter data).length = data.length + authBytes := by
  rw [frame, List.length_append, List.length_append, length_chunkHash hlength]
  have htwo : (bytes16 data.length).length = clenBytes := rfl
  rw [htwo, authBytes]
  omega

/-- The length in a chunk. -/
theorem word16_frame {counter : UInt32} {data : Bytes} (hdata : data.length < 65536) {q : Bytes}
    (hq : q <+: frame hmac iv counter data) (htwo : clenBytes ≤ q.length) :
    word16 (q[0]?.getD 0) (q[1]?.getD 0) = data.length := by
  have htwo' : 2 ≤ q.length := htwo
  rw [getD_eq_of_start hq (by omega), getD_eq_of_start hq (by omega)]
  exact word16_bytes16 hdata

include hlength in
/-- While a chunk is not whole, its bytes are kept. -/
theorem runAll_receiveByte_part {counter : UInt32} {data acc q : Bytes} (hdata : data.length < 65536)
    (hq : acc ++ q <+: frame hmac iv counter data)
    (hpart : (acc ++ q).length < (frame hmac iv counter data).length) :
    Stream.runAll (receiveByte hmac iv) (acc, counter) q = some ((acc ++ q, counter), []) := by
  induction q generalizing acc with
  | nil => rw [List.append_nil, Stream.runAll]
  | cons b q ih =>
    have hsplit : acc ++ b :: q = acc ++ [b] ++ q := by rw [List.append_assoc]; rfl
    rw [hsplit] at hq hpart ⊢
    have hb : acc ++ [b] <+: frame hmac iv counter data := (List.prefix_append _ _).trans hq
    have hstep : receiveByte hmac iv (acc, counter) b = some ((acc ++ [b], counter), []) := by
      unfold receiveByte
      simp only
      rw [if_neg]
      rintro ⟨htwo, hwhole⟩
      rw [word16_frame hdata hb htwo] at hwhole
      rw [length_frame hlength, ← hwhole, @List.length_append _ (acc ++ [b])] at hpart
      omega
    rw [Stream.runAll, hstep, Option.bind_some, ih hq hpart, Option.map_some, List.nil_append]

include hlength in
/-- The data of a chunk. -/
theorem drop_frame (counter : UInt32) (data : Bytes) :
    (frame hmac iv counter data).drop authBytes = data := by
  have hhead : (bytes16 data.length ++ chunkHash hmac iv counter data).length = authBytes := by
    rw [List.length_append, length_chunkHash hlength]
    rfl
  rw [frame, ← List.append_assoc, ← hhead, List.drop_left]

include hlength in
/-- The HMAC of a chunk. -/
theorem window_frame (counter : UInt32) (data : Bytes) :
    window (frame hmac iv counter data) clenBytes onetimeauthBytes =
      chunkHash hmac iv counter data :=
  window_middle rfl (length_chunkHash hlength counter data)

include hlength in
/-- A whole chunk gives its data. -/
theorem runAll_receiveByte_frame (counter : UInt32) {data : Bytes} (hdata : data.length < 65536) :
    Stream.runAll (receiveByte hmac iv) ([], counter) (frame hmac iv counter data) =
      some (([], counter + 1), data) := by
  have hlen : (frame hmac iv counter data).length = data.length + authBytes :=
    length_frame hlength counter data
  have hne : frame hmac iv counter data ≠ [] := by
    intro hnil
    rw [hnil] at hlen
    exact absurd hlen (Nat.ne_of_lt (Nat.lt_of_lt_of_le (by decide) (Nat.le_add_left _ _)))
  have hsplit : (frame hmac iv counter data).dropLast ++ [(frame hmac iv counter data).getLast hne] =
      frame hmac iv counter data := List.dropLast_append_getLast hne
  generalize (frame hmac iv counter data).getLast hne = b at hsplit
  generalize (frame hmac iv counter data).dropLast = p at hsplit
  have hpart := @runAll_receiveByte_part hmac iv hlength counter data [] p hdata
    (by rw [List.nil_append, ← hsplit]; exact List.prefix_append p [b])
    (by rw [List.nil_append, ← hsplit, List.length_append]; exact Nat.lt_succ_self _)
  rw [List.nil_append] at hpart
  have hwhole : receiveByte hmac iv (p, counter) b = some (([], counter + 1), data) := by
    have htwo : clenBytes ≤ (frame hmac iv counter data).length := by
      rw [hlen, authBytes]
      omega
    unfold receiveByte
    simp only [hsplit]
    rw [word16_frame hdata List.prefix_rfl htwo, if_pos ⟨htwo, hlen⟩, drop_frame hlength,
      window_frame hlength, if_pos rfl]
  rw [← hsplit, Stream.runAll_append_of_some hpart, Stream.runAll, hwhole]
  simp only [Stream.runAll, Option.bind_some, Option.map_some, List.append_nil, List.nil_append]

include hlength in
/-- The start of a stream of chunks gives the data of the whole ones. -/
theorem runAll_receiveByte_framed {counter : UInt32} {ds : List Bytes}
    (hds : ∀ d ∈ ds, d.length < 65536) {w : Bytes} (hw : w <+: framed hmac iv counter ds) :
    ∃ n acc, n ≤ ds.length ∧ w = framed hmac iv counter (ds.take n) ++ acc ∧
      Stream.runAll (receiveByte hmac iv) ([], counter) w =
        some ((acc, (ds.take n).foldl (fun c _ ↦ c + 1) counter), (ds.take n).flatten) ∧
      (w = framed hmac iv counter ds → n = ds.length ∧ acc = []) := by
  induction ds generalizing counter w with
  | nil =>
    have hnil : w = [] := List.prefix_nil.mp hw
    subst hnil
    exact ⟨0, [], Nat.le_refl 0, rfl, rfl, fun _ ↦ ⟨rfl, rfl⟩⟩
  | cons d ds ih =>
    obtain ⟨hd, hrest⟩ := List.forall_mem_cons.mp hds
    rcases Framing.prefix_cases hw with ⟨hpart, hproper⟩ | ⟨more, rfl, hmore⟩
    · have hlt : w.length < (frame hmac iv counter d).length := by
        apply Nat.lt_of_le_of_ne hpart.length_le
        intro hlen
        exact hproper (hpart.eq_of_length hlen)
      refine ⟨0, w, Nat.zero_le _, rfl, runAll_receiveByte_part hlength hd hpart hlt, ?_⟩
      intro hall
      rw [hall, framed, List.length_append] at hlt
      omega
    · obtain ⟨n, acc, hn, hsplit, hrun, hall⟩ := ih hrest hmore
      refine ⟨n + 1, acc, Nat.succ_le_succ hn, ?_, ?_, ?_⟩
      · rw [List.take_succ_cons, framed, List.append_assoc, ← hsplit]
      · rw [Stream.runAll_append_of_some (runAll_receiveByte_frame hlength counter hd), hrun]
        rfl
      · intro hwhole
        rw [framed] at hwhole
        obtain ⟨hlast, hacc⟩ := hall (List.append_cancel_left hwhole)
        exact ⟨by rw [hlast, List.length_cons], hacc⟩

end Wire

/-! ## The loop over a segment -/

/-- The chunk buffer holds what has arrived of a chunk, and has room for the rest once the length is
known. Before that `len` is the length of the chunk before. -/
structure Loaded (b : Buffer) (len cidx : Nat) (acc : Bytes) : Prop where
  cidx : cidx = acc.length
  data : b.array.take acc.length = acc
  known : clenBytes ≤ acc.length → len = word16 (acc[0]?.getD 0) (acc[1]?.getD 0) ∧
    acc.length ≤ len + authBytes ∧ len + authBytes ≤ b.array.length

/-- The loop has put out `out`, and `rest` is what it still has to read. -/
structure Passing (s : CheckLoop) (p : Bytes × UInt32) (out rest : Bytes) : Prop where
  loaded : Loaded s.chunkBuf s.len s.cidx p.1
  notWhole : p.1.length ≠ s.len + authBytes
  counter : s.counter = p.2
  two : clenBytes ≤ s.chunkBuf.array.length
  done : s.buf.array.take s.j = out
  j : s.j = out.length
  left : window s.buf.array s.k rest.length = rest
  room : s.j + p.1.length + rest.length ≤ s.buf.array.length + authBytes

/-- A byte that is written is in the block. -/
theorem putAt_of_le {b : Buffer} {off : Nat} {src : Bytes} (h : off + src.length ≤ b.array.length) :
    putAt b off src = .ok (b.write off src) := by
  rw [putAt, Buffer.put_of_le h]

/-- The byte that is read next. -/
theorem byte_of_window {b : Buffer} {k : Nat} {x : UInt8} {rest : Bytes}
    (h : window b.array k (x :: rest).length = x :: rest) :
    b.byte k = x ∧ window b.array (k + 1) rest.length = rest := by
  unfold window at h ⊢
  cases hdrop : b.array.drop k with
  | nil =>
    rw [hdrop] at h
    cases h
  | cons y tail =>
    rw [hdrop, List.length_cons, List.take_succ_cons] at h
    obtain ⟨rfl, htail⟩ := List.cons.inj h
    constructor
    · rw [Buffer.byte, ← List.head?_drop, hdrop]
      rfl
    · rw [← List.drop_drop, hdrop]
      exact htail

/-- The length of a chunk, read from its first bytes. -/
theorem clen_of_take {b : Buffer} {acc : Bytes} (hdata : b.array.take acc.length = acc)
    (htwo : clenBytes ≤ acc.length) : clen b = word16 (acc[0]?.getD 0) (acc[1]?.getD 0) := by
  have hprefix : acc <+: b.array := by
    rw [← hdata]
    exact List.take_prefix _ _
  have htwo' : 2 ≤ acc.length := htwo
  rw [getD_eq_of_start hprefix (by omega), getD_eq_of_start hprefix (by omega)]
  rfl

/-- A byte goes into the chunk. -/
theorem takeByte_spec (capacity : Nat) {s : CheckLoop} {p : Bytes × UInt32} {out rest : Bytes}
    {b : UInt8} (h : Passing s p out (b :: rest)) :
    ∃ s', takeByte capacity s = .ok s' ∧ Loaded s'.chunkBuf s'.len s'.cidx (p.1 ++ [b]) ∧
      clenBytes ≤ s'.chunkBuf.array.length ∧ s'.counter = s.counter ∧ s'.buf = s.buf ∧ s'.j = s.j ∧
      s'.k = s.k + 1 := by
  have htwo : 2 ≤ s.chunkBuf.array.length := h.two
  have hnot := h.notWhole
  have hroom : s.cidx + [b].length ≤ s.chunkBuf.array.length := by
    rw [h.loaded.cidx, List.length_singleton]
    by_cases hshort : p.1.length < 2
    · omega
    · obtain ⟨-, hle, hfits⟩ := h.loaded.known (Nat.not_lt.mp hshort)
      omega
  have hbyte : s.buf.byte s.k = b := (byte_of_window h.left).1
  have hlen : (p.1 ++ [b]).length = p.1.length + 1 := List.length_append
  have harray : (s.chunkBuf.write s.cidx [b]).array.length = s.chunkBuf.array.length :=
    Buffer.length_write hroom
  have hdata : (s.chunkBuf.write s.cidx [b]).array.take (p.1 ++ [b]).length = p.1 ++ [b] := by
    have htake := take_store s.chunkBuf.array s.cidx [b] (by omega)
    rw [h.loaded.cidx, h.loaded.data] at htake
    rw [h.loaded.cidx, hlen]
    exact htake
  unfold takeByte
  rw [hbyte, putAt_of_le hroom]
  by_cases hheader : s.cidx + 1 = clenBytes
  · refine ⟨_, if_pos hheader, ?_, ?_, rfl, rfl, rfl, rfl⟩
    · have hclen := clen_of_take hdata (by rw [hlen, ← h.loaded.cidx, hheader])
      constructor
      · show s.cidx + 1 = _
        rw [hlen, h.loaded.cidx]
      · rw [Buffer.brealloc, List.take_append_of_le_length, hdata]
        rw [hlen, harray, ← h.loaded.cidx]
        exact hroom
      · intro _
        refine ⟨hclen, ?_, ?_⟩
        · rw [hlen, ← h.loaded.cidx, hheader]
          exact Nat.le_trans (by decide) (Nat.le_add_left _ _)
        · simp only [Buffer.brealloc, List.length_append, List.length_replicate]
          omega
    · simp only [Buffer.brealloc, List.length_append, harray]
      exact Nat.le_trans h.two (Nat.le_add_right _ _)
  · refine ⟨_, if_neg hheader, ?_, ?_, rfl, rfl, rfl, rfl⟩
    · constructor
      · show s.cidx + 1 = _
        rw [hlen, h.loaded.cidx]
      · exact hdata
      · intro hknown
        rw [hlen, ← h.loaded.cidx] at hknown
        have hbefore : clenBytes ≤ p.1.length := by
          rw [← h.loaded.cidx]
          omega
        obtain ⟨hword, hle, hfits⟩ := h.loaded.known hbefore
        have hbefore' : 2 ≤ p.1.length := hbefore
        have hprefix : p.1 <+: p.1 ++ [b] := List.prefix_append _ _
        refine ⟨?_, ?_, ?_⟩
        · rw [← getD_eq_of_start hprefix (by omega), ← getD_eq_of_start hprefix (by omega)]
          exact hword
        · rw [hlen]
          show _ ≤ s.len + authBytes
          omega
        · rw [harray]
          exact hfits
    · show clenBytes ≤ (s.chunkBuf.write s.cidx [b]).array.length
      rw [harray]
      exact h.two

/-- A whole chunk with the right HMAC goes in front of what is left to read. -/
theorem chunkDone_spec {hmac : Bytes → Bytes → Bytes} {iv : Bytes} {s : CheckLoop}
    {acc out rest : Bytes} (hloaded : Loaded s.chunkBuf s.len s.cidx acc)
    (htwo : clenBytes ≤ s.chunkBuf.array.length) (hwhole : acc.length = s.len + authBytes)
    (hhash : chunkHash hmac iv s.counter (acc.drop authBytes) = window acc clenBytes onetimeauthBytes)
    (hdone : s.buf.array.take s.j = out) (hj : s.j = out.length)
    (hleft : window s.buf.array s.k rest.length = rest)
    (hroom : s.j + s.len + rest.length ≤ s.buf.array.length) :
    ∃ s', chunkDone hmac iv rest.length s = .ok s' ∧
      Passing s' ([], s.counter + 1) (out ++ acc.drop authBytes) rest := by
  have hdata : window s.chunkBuf.array authBytes s.len = acc.drop authBytes := by
    rw [← hloaded.data, hwhole, List.drop_take, Nat.add_sub_cancel]
    rfl
  have hmac10 : window s.chunkBuf.array clenBytes onetimeauthBytes =
      window acc clenBytes onetimeauthBytes := by
    have hbound : onetimeauthBytes ≤ s.len + authBytes - clenBytes := by
      rw [authBytes]
      omega
    conv_rhs => rw [← hloaded.data, hwhole]
    rw [window, window, List.drop_take, List.take_take, Nat.min_eq_left hbound]
  have hsize : (acc.drop authBytes).length = s.len := by
    rw [List.length_drop, hwhole, Nat.add_sub_cancel]
  have hput := putAt_of_le hroom
  have harray : (s.buf.write (s.j + s.len) rest).array.length = s.buf.array.length :=
    length_store hroom
  have hfits : s.j + (acc.drop authBytes).length ≤ (s.buf.write (s.j + s.len) rest).array.length := by
    rw [harray, hsize]
    omega
  have hput' := putAt_of_le hfits
  have harray' : ((s.buf.write (s.j + s.len) rest).write s.j (acc.drop authBytes)).array.length =
      s.buf.array.length := by
    rw [← harray]
    exact length_store hfits
  refine ⟨{ s with
    buf := (s.buf.write (s.j + s.len) rest).write s.j (acc.drop authBytes)
    j := s.j + s.len
    k := s.j + s.len
    cidx := 0
    counter := s.counter + 1 }, ?_, ?_⟩
  · unfold chunkDone
    rw [hdata, hmac10, if_neg (not_not_intro hhash), hleft, hput]
    simp only [bind, Except.bind]
    rw [hput']
    rfl
  have hempty : ([] : Bytes).length < clenBytes ∧ ([] : Bytes).length < authBytes := by decide
  constructor
  · exact ⟨rfl, rfl, fun h ↦ absurd h (Nat.not_le.mpr hempty.1)⟩
  · exact Nat.ne_of_lt (Nat.lt_of_lt_of_le hempty.2 (Nat.le_add_left _ _))
  · rfl
  · exact htwo
  · have htake := take_store (s.buf.write (s.j + s.len) rest).array s.j (acc.drop authBytes) (by omega)
    rw [hsize] at htake
    have hkeep : (s.buf.write (s.j + s.len) rest).array.take s.j = s.buf.array.take s.j :=
      take_store_of_le rest (Nat.le_add_right _ _) (by omega)
    rw [← hdone, ← hkeep]
    exact htake
  · show s.j + s.len = _
    rw [List.length_append, hsize, hj]
  · have hdrop := @drop_store (s.buf.write (s.j + s.len) rest).array s.j (acc.drop authBytes) (by omega)
    rw [hsize] at hdrop
    have hread : window (store s.buf.array (s.j + s.len) rest) (s.j + s.len) rest.length = rest :=
      window_store (by omega)
    exact (congrArg (·.take rest.length) hdrop).trans hread
  · show s.j + s.len + 0 + rest.length ≤ _
    rw [harray']
    omega

/-- One pass of the loop does what the receiver of bytes does. -/
theorem checkByte_spec {hmac : Bytes → Bytes → Bytes} {iv : Bytes} (capacity : Nat) {s : CheckLoop}
    {p p' : Bytes × UInt32} {out rest o : Bytes} {b : UInt8} (h : Passing s p out (b :: rest))
    (hbyte : receiveByte hmac iv p b = some (p', o)) :
    ∃ s', checkByte hmac iv capacity rest.length s = .ok s' ∧ Passing s' p' (out ++ o) rest := by
  obtain ⟨s₁, htake, hloaded, htwo, hcounter, hbuf, hj, hk⟩ := takeByte_spec capacity h
  have hlen : (p.1 ++ [b]).length = p.1.length + 1 := List.length_append
  have hleft : window s₁.buf.array s₁.k rest.length = rest := by
    rw [hbuf, hk]
    exact (byte_of_window h.left).2
  have hroom := h.room
  rw [List.length_cons] at hroom
  unfold checkByte
  rw [htake]
  simp only [bind, Except.bind, pure, Except.pure]
  unfold receiveByte at hbyte
  simp only at hbyte
  by_cases hwhole : (p.1 ++ [b]).length = s₁.len + authBytes
  · have hknown : clenBytes ≤ (p.1 ++ [b]).length := by
      rw [hwhole, authBytes]
      omega
    rw [← (hloaded.known hknown).1, if_pos ⟨hknown, hwhole⟩] at hbyte
    split at hbyte
    · next hhash =>
      cases hbyte
      rw [← h.counter, ← hcounter] at hhash ⊢
      have hdone : s₁.buf.array.take s₁.j = out := by
        rw [hbuf, hj]
        exact h.done
      obtain ⟨s', hs', hpassing⟩ := chunkDone_spec hloaded htwo hwhole hhash hdone
        (hj.trans h.j) hleft (by rw [hbuf, hj]; omega)
      rw [if_pos (hloaded.cidx.trans hwhole)]
      exact ⟨s', hs', hpassing⟩
    · cases hbyte
  · have hpart : ¬ (clenBytes ≤ (p.1 ++ [b]).length ∧ (p.1 ++ [b]).length =
        word16 ((p.1 ++ [b])[0]?.getD 0) ((p.1 ++ [b])[1]?.getD 0) + authBytes) := by
      rintro ⟨hknown, hall⟩
      rw [← (hloaded.known hknown).1] at hall
      exact hwhole hall
    rw [if_neg hpart] at hbyte
    cases hbyte
    rw [if_neg (hloaded.cidx ▸ hwhole)]
    refine ⟨s₁, rfl, hloaded, hwhole, hcounter.trans h.counter, htwo, ?_, ?_, hleft, ?_⟩
    · rw [List.append_nil, hbuf, hj]
      exact h.done
    · rw [List.append_nil, hj]
      exact h.j
    · rw [hbuf, hj, hlen]
      omega

/-- The loop does what the receiver of bytes does. -/
theorem checkLoop_spec {hmac : Bytes → Bytes → Bytes} {iv : Bytes} (capacity : Nat) {s : CheckLoop}
    {p p' : Bytes × UInt32} {out rest o : Bytes} (h : Passing s p out rest)
    (hrun : Stream.runAll (receiveByte hmac iv) p rest = some (p', o)) :
    ∃ s', checkLoop hmac iv capacity rest.length s = .ok s' ∧ Passing s' p' (out ++ o) [] := by
  induction rest generalizing s p out o with
  | nil =>
    cases hrun
    rw [List.append_nil]
    exact ⟨s, rfl, h⟩
  | cons b rest ih =>
    obtain ⟨⟨p₁, o₁⟩, hfirst, hrest⟩ := Option.bind_eq_some_iff.mp hrun
    obtain ⟨⟨p₂, o₂⟩, hothers, hout⟩ := Option.map_eq_some_iff.mp hrest
    cases hout
    obtain ⟨s₁, hs₁, hpassing⟩ := checkByte_spec capacity h hfirst
    obtain ⟨s₂, hs₂, hend⟩ := ih hpassing hothers
    refine ⟨s₂, ?_, ?_⟩
    · rw [List.length_cons, checkLoop, hs₁]
      exact hs₂
    · rw [← List.append_assoc]
      exact hend

/-- A chunk between two calls: what has arrived of it, and its number. -/
structure Holds (chunk : Chunk) (p : Bytes × UInt32) : Prop where
  loaded : Loaded chunk.buf chunk.len chunk.idx p.1
  notWhole : p.1.length ≠ chunk.len + authBytes
  counter : chunk.counter = p.2

/-- A new connection has nothing of its first chunk. -/
theorem holds_newChunk : Holds newChunk ([], 0) :=
  ⟨⟨rfl, rfl, fun h ↦ absurd h (by decide)⟩, by decide, rfl⟩

/-- A call does what the receiver of bytes does, writes within its blocks and leaves its output at the
start of the buffer. -/
theorem ssCheckHash_spec {hmac : Bytes → Bytes → Bytes} {iv : Bytes} {chunk : Chunk} {buf : Buffer}
    {p p' : Bytes × UInt32} {out : Bytes} (h : Holds chunk p) (hbuf : buf.len ≤ buf.array.length)
    (hrun : Stream.runAll (receiveByte hmac iv) p buf.data = some (p', out)) :
    ∃ chunk' buf', ssCheckHash hmac iv bufSize chunk buf = .ok (chunk', buf') ∧ buf'.data = out ∧
      Holds chunk' p' := by
  obtain ⟨hgrownChunk, hcapacity⟩ := chunk.buf.le_length_brealloc (chunk.len + buf.len) bufSize
  obtain ⟨hgrown, hroom⟩ := buf.le_length_brealloc (chunk.len + buf.len) bufSize
  have hdataLen : buf.data.length = buf.len := buf.length_data hbuf
  have hacc : p.1.length ≤ chunk.buf.array.length := by
    rw [← h.loaded.data, List.length_take]
    exact Nat.min_le_right _ _
  have hahead : p.1.length ≤ chunk.len + authBytes := by
    by_cases hknown : clenBytes ≤ p.1.length
    · exact (h.loaded.known hknown).2.1
    · have hshort : p.1.length < 2 := Nat.not_le.mp hknown
      rw [authBytes, onetimeauthBytes, clenBytes]
      omega
  have hstart : Passing
      { chunkBuf := chunk.buf.brealloc (chunk.len + buf.len) bufSize
        len := chunk.len
        counter := chunk.counter
        cidx := chunk.idx
        buf := buf.brealloc (chunk.len + buf.len) bufSize
        j := 0
        k := 0 } p [] buf.data := by
    constructor
    · refine ⟨h.loaded.cidx, ?_, ?_⟩
      · rw [Buffer.brealloc, List.take_append_of_le_length hacc]
        exact h.loaded.data
      · intro hknown
        obtain ⟨hword, hle, hfits⟩ := h.loaded.known hknown
        exact ⟨hword, hle, hfits.trans hgrownChunk⟩
    · exact h.notWhole
    · exact h.counter
    · exact le_trans (le_trans (by decide) (Nat.le_max_right _ bufSize)) hcapacity
    · rfl
    · rfl
    · have hread := buf.data_brealloc (chunk.len + buf.len) bufSize hbuf
      rw [Buffer.data, Buffer.len_brealloc] at hread
      show (buf.brealloc (chunk.len + buf.len) bufSize).array.take buf.data.length = buf.data
      rw [hdataLen]
      exact hread
    · show 0 + p.1.length + buf.data.length ≤
        (buf.brealloc (chunk.len + buf.len) bufSize).array.length + authBytes
      rw [hdataLen]
      omega
  obtain ⟨s, hs, hend⟩ := checkLoop_spec bufSize hstart hrun
  rw [hdataLen] at hs
  refine ⟨⟨s.cidx, s.len, s.counter, s.chunkBuf⟩, s.buf.setLen s.j, ?_, hend.done,
    ⟨hend.loaded, hend.notWhole, hend.counter⟩⟩
  unfold ssCheckHash
  rw [hs]
  rfl

/-- A call of the sender puts a chunk into its buffer and writes within its block. -/
theorem ssGenHash_spec {hmac : Bytes → Bytes → Bytes} {iv : Bytes}
    (hlength : ∀ k d, onetimeauthBytes ≤ (hmac k d).length) (counter : UInt32) {buf : Buffer}
    (hbuf : buf.len ≤ buf.array.length) :
    ∃ buf', ssGenHash hmac iv bufSize counter buf = .ok (counter + 1, buf') ∧
      buf'.data = frame hmac iv counter buf.data := by
  obtain ⟨-, hroom⟩ := buf.le_length_brealloc (authBytes + buf.len) bufSize
  have hroom' : authBytes + buf.len ≤ (buf.brealloc (authBytes + buf.len) bufSize).array.length :=
    le_trans (Nat.le_max_left _ _) hroom
  have hread : window (buf.brealloc (authBytes + buf.len) bufSize).array 0 buf.len = buf.data :=
    buf.data_brealloc (authBytes + buf.len) bufSize hbuf
  have hdataLen : buf.data.length = buf.len := buf.length_data hbuf
  have hhash : (chunkHash hmac iv counter buf.data).length = onetimeauthBytes :=
    length_chunkHash hlength counter buf.data
  have hauth : clenBytes + onetimeauthBytes = authBytes := rfl
  unfold ssGenHash frame
  simp only [hread, show window buf.array 0 buf.len = buf.data from rfl]
  generalize buf.brealloc (authBytes + buf.len) bufSize = grown at hroom'
  generalize chunkHash hmac iv counter buf.data = hash at *
  have hfits₁ : authBytes + buf.data.length ≤ grown.array.length := by
    rw [hdataLen]
    exact hroom'
  have hsize₁ : (grown.write authBytes buf.data).array.length = grown.array.length :=
    length_store hfits₁
  have hfits₂ : clenBytes + hash.length ≤ (grown.write authBytes buf.data).array.length := by
    rw [hhash, hauth, hsize₁]
    omega
  have hsize₂ : ((grown.write authBytes buf.data).write clenBytes hash).array.length =
      grown.array.length := (length_store hfits₂).trans hsize₁
  have htwo : (bytes16 buf.len).length = clenBytes := rfl
  have hfits₃ : 0 + (bytes16 buf.len).length ≤
      ((grown.write authBytes buf.data).write clenBytes hash).array.length := by
    rw [hsize₂, htwo]
    omega
  refine ⟨(((grown.write authBytes buf.data).write clenBytes hash).write 0 (bytes16 buf.len)).setLen
    (buf.len + authBytes), ?_, ?_⟩
  · simp only [bind, Except.bind, pure, Except.pure, putAt_of_le hfits₁, putAt_of_le hfits₂,
      putAt_of_le hfits₃]
  · have hwhole : store (store (store grown.array authBytes buf.data) clenBytes hash) 0
        (bytes16 buf.len) =
          (bytes16 buf.len ++ (hash ++ buf.data)) ++ grown.array.drop (authBytes + buf.data.length) := by
      have h₁ := @drop_store_start grown.array authBytes buf.data (by omega)
      have h₂ := @drop_store_start (store grown.array authBytes buf.data) clenBytes hash
        (le_trans (Nat.le_add_right _ _) hfits₂)
      have h₃ := @drop_store_start (store (store grown.array authBytes buf.data) clenBytes hash) 0
        (bytes16 buf.len) (Nat.zero_le _)
      rw [hhash, hauth, h₁] at h₂
      rw [List.drop_zero, htwo, Nat.zero_add, h₂] at h₃
      rw [h₃]
      simp only [List.append_assoc]
    show (store (store (store grown.array authBytes buf.data) clenBytes hash) 0
      (bytes16 buf.len)).take (buf.len + authBytes) = _
    rw [hwhole, hdataLen]
    apply List.take_left'
    rw [List.length_append, List.length_append, htwo, hhash, hdataLen, authBytes]
    omega

/-! ## Runs of both sides -/

/-- A call of the sender that succeeds: the counter, and the bytes of the chunk. -/
def sendChunk (hmac : Bytes → Bytes → Bytes) (iv : Bytes) (counter : UInt32) (buf : Buffer) :
    Option (UInt32 × Bytes) :=
  (ssGenHash hmac iv bufSize counter buf).toOption.map fun r ↦ (r.1, r.2.data)

/-- A call of the receiver that succeeds: the chunk, and the verified data. -/
def receiveChunks (hmac : Bytes → Bytes → Bytes) (iv : Bytes) (chunk : Chunk) (buf : Buffer) :
    Option (Chunk × Bytes) :=
  (ssCheckHash hmac iv bufSize chunk buf).toOption.map fun r ↦ (r.1, r.2.data)

/-- The sender frames its chunks one after the other. -/
theorem runAll_sendChunk {hmac : Bytes → Bytes → Bytes} {iv : Bytes}
    (hlength : ∀ k d, onetimeauthBytes ≤ (hmac k d).length) (counter : UInt32) {bufs : List Buffer}
    (hbufs : ∀ b ∈ bufs, b.len ≤ b.array.length) :
    Stream.runAll (sendChunk hmac iv) counter bufs =
      some ((bufs.map Buffer.data).foldl (fun c _ ↦ c + 1) counter,
        framed hmac iv counter (bufs.map Buffer.data)) := by
  induction bufs generalizing counter with
  | nil => rfl
  | cons b bufs ih =>
    obtain ⟨hb, hrest⟩ := List.forall_mem_cons.mp hbufs
    obtain ⟨buf', hgen, hdata⟩ := @ssGenHash_spec hmac iv hlength counter b hb
    have hstep : sendChunk hmac iv counter b =
        some (counter + 1, frame hmac iv counter b.data) := by
      rw [sendChunk, hgen, ← hdata]
      rfl
    rw [Stream.runAll, hstep, Option.bind_some, ih (counter + 1) hrest]
    rfl

/-- However the framed chunks are cut into segments, the receiver's outputs are the data of the whole
chunks that have arrived; its counter is the sender's behind these chunks, and it keeps the bytes
behind them. Neither side writes beyond a block, and no chunk is rejected. -/
theorem check_hash_inverts_gen_hash (hmac : Bytes → Bytes → Bytes) (iv : Bytes)
    (hlength : ∀ k d, onetimeauthBytes ≤ (hmac k d).length) (chunks : List Buffer)
    (hchunks : ∀ b ∈ chunks, b.len ≤ b.array.length ∧ b.len ≤ 65535) :
    ∃ sent wire, Stream.runAll (sendChunk hmac iv) 0 chunks = some (sent, wire) ∧
      ∀ segs : List Buffer, (∀ b ∈ segs, b.len ≤ b.array.length) →
        (segs.map Buffer.data).flatten <+: wire →
          ∃ n ≤ chunks.length, ∃ chunk whole,
            Stream.runAll (receiveChunks hmac iv) newChunk segs =
                some (chunk, ((chunks.take n).map Buffer.data).flatten) ∧
              Stream.runAll (sendChunk hmac iv) 0 (chunks.take n) = some (chunk.counter, whole) ∧
              (segs.map Buffer.data).flatten = whole ++ chunk.buf.array.take chunk.idx ∧
              ((segs.map Buffer.data).flatten = wire → n = chunks.length ∧ chunk.idx = 0) := by
  have hinside : ∀ b ∈ chunks, b.len ≤ b.array.length := fun b hb ↦ (hchunks b hb).1
  have hsmall : ∀ d ∈ chunks.map Buffer.data, d.length < 65536 := by
    intro d hd
    obtain ⟨b, hb, rfl⟩ := List.mem_map.mp hd
    rw [b.length_data (hinside b hb)]
    exact Nat.lt_succ_of_le (hchunks b hb).2
  refine ⟨_, _, runAll_sendChunk hlength 0 hinside, ?_⟩
  intro segs hsegs hprefix
  obtain ⟨n, acc, hn, hsplit, hrun, hall⟩ := runAll_receiveByte_framed hlength hsmall hprefix
  rw [List.length_map] at hn hall
  rw [← List.map_take] at hsplit hrun
  have hstep : ∀ chunk p b p' out, Holds chunk p → b.len ≤ b.array.length →
      Stream.runAll (receiveByte hmac iv) p (Buffer.data b) = some (p', out) →
        ∃ chunk', receiveChunks hmac iv chunk b = some (chunk', out) ∧ Holds chunk' p' := by
    intro chunk p b p' out hholds hb hbytes
    obtain ⟨chunk', buf', hcheck, hdata, hholds'⟩ := ssCheckHash_spec hholds hb hbytes
    refine ⟨chunk', ?_, hholds'⟩
    rw [receiveChunks, hcheck, ← hdata]
    rfl
  obtain ⟨chunk, hreceived, hholds⟩ := Stream.runAll_of_pieces hstep holds_newChunk hsegs hrun
  refine ⟨n, hn, chunk, framed hmac iv 0 ((chunks.take n).map Buffer.data), hreceived, ?_, ?_, ?_⟩
  · rw [hholds.counter]
    exact runAll_sendChunk hlength 0 fun b hb ↦ hinside b (List.mem_of_mem_take hb)
  · rw [hsplit, hholds.loaded.cidx, hholds.loaded.data]
  · intro hwhole
    obtain ⟨hlast, hacc⟩ := hall hwhole
    rw [hholds.loaded.cidx]
    exact ⟨hlast, by rw [hacc]; rfl⟩

/-- Three chunks, one of them empty, cut within a length and within the data. -/
theorem three_chunks_received :
    ∃ chunk, Stream.runAll (receiveChunks (fun k d ↦ List.replicate 20 (k ++ d).sum) [1, 2]) newChunk
        [.ofBytes [0], .ofBytes ([1] ++ List.replicate 10 8 ++ [5]),
          .ofBytes ([0, 0] ++ List.replicate 10 4 ++ [0, 1] ++ List.replicate 10 14),
          .ofBytes [9]] = some (chunk, [5, 9]) ∧ chunk.counter = 3 ∧ chunk.idx = 0 := by
  obtain ⟨sent, wire, hsent, hreceived⟩ := check_hash_inverts_gen_hash
    (fun k d ↦ List.replicate 20 (k ++ d).sum) [1, 2]
    (fun _ _ ↦ by rw [List.length_replicate]; decide) [.ofBytes [5], .ofBytes [], .ofBytes [9]]
    (by decide)
  have hwire : Stream.runAll (sendChunk (fun k d ↦ List.replicate 20 (k ++ d).sum) [1, 2]) 0
      [.ofBytes [5], .ofBytes [], .ofBytes [9]] =
        some (3, [0, 1] ++ List.replicate 10 8 ++ [5] ++ ([0, 0] ++ List.replicate 10 4) ++
          ([0, 1] ++ List.replicate 10 14 ++ [9])) := by
    decide +kernel
  cases hsent.symm.trans hwire
  obtain ⟨n, -, chunk, whole, hrun, hcounter, -, hall⟩ := hreceived
    [.ofBytes [0], .ofBytes ([1] ++ List.replicate 10 8 ++ [5]),
      .ofBytes ([0, 0] ++ List.replicate 10 4 ++ [0, 1] ++ List.replicate 10 14), .ofBytes [9]]
    (by decide) (by decide)
  obtain ⟨rfl, hidx⟩ := hall (by decide)
  have hthree : (3 : UInt32) = chunk.counter :=
    congrArg Prod.fst (Option.some.inj (hsent.symm.trans hcounter))
  exact ⟨chunk, hrun, hthree.symm, hidx⟩

end OpenWrtCompile.Server
