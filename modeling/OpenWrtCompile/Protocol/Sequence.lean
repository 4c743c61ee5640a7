import OpenWrtCompile.Protocol.AuthAes128
import Mathlib.Data.UInt
import Mathlib.Data.Fintype.Card
import Mathlib.Data.Fintype.Pigeonhole

/-!
# The sequence of `auth_aes128_sha1` frames

`shadowsocksr-libev/src/server/auth.c:648–691` and `841–921`. Frames in order are received whatever
the segments; the first frame out of place is an error in the call that has enough of it. What is
assumed of the HMAC is said of the pairs of key and bytes that occur.
-/

namespace OpenWrtCompile.Protocol.AuthAes128
open OpenWrtCompile.Base OpenWrtCompile.Base.Numbered OpenWrtCompile.Protocol
open OpenWrtCompile.Base.Framing (Parsed stream payload)

/-- The number of the frame behind `k` frames. -/
def number (k : Nat) : UInt32 := 1 + UInt32.ofNat k

/-- The sender's `pack_id` behind packets. -/
def packIdBehind (hmac : Hmac) (userKey : Bytes) (ps : List Packet) : UInt32 :=
  ps.foldl (fun packId p ↦ (authAes128Sha1PackData hmac userKey packId p).1) 1

/-- A pair of key and bytes for the header of one of the frames. -/
def SentHeader (userKey : Bytes) (ps : List Packet) (q : Bytes × Bytes) : Prop :=
  ∃ k p, ps[k]? = some p ∧ q = (frameKey userKey (number k), sizeBytes (p.outSize (number k)))

/-- A pair of key and bytes for the end of one of the frames. -/
def SentTrailer (hmac : Hmac) (userKey : Bytes) (ps : List Packet) (q : Bytes × Bytes) : Prop :=
  ∃ k p, ps[k]? = some p ∧
    q = (frameKey userKey (number k), frameBody hmac userKey (number k) p)

/-- Among the pairs that occur no two have the same `n` bytes of their HMAC. -/
def Distinct (hmac : Hmac) (n : Nat) (occurs : Bytes × Bytes → Prop) : Prop :=
  ∀ q q', occurs q → occurs q' → (hmac.hash q.1 q.2).take n = (hmac.hash q'.1 q'.2).take n → q = q'

/-- The truncated HMACs of the frames, and those that are checked where `w` comes for frame `k`, have
no collisions. -/
structure NoCollision (hmac : Hmac) (userKey : Bytes) (ps : List Packet) (k : Nat) (w : Bytes) :
    Prop where
  headers : Distinct hmac 2 fun q ↦
    SentHeader userKey ps q ∨ q = (frameKey userKey (number k), w.take 2)
  trailers : Distinct hmac 4 fun q ↦
    SentTrailer hmac userKey ps q ∨ q = (frameKey userKey (number k), w.take (frameLength w - 4))

/-- Where `w` comes for frame `k`, a hash in it that is right is one that the sender has computed. -/
structure NotGuessed (hmac : Hmac) (userKey : Bytes) (ps : List Packet) (k : Nat) (w : Bytes) :
    Prop where
  header : (hmac.hash (frameKey userKey (number k)) (w.take 2)).take 2 = window w 2 2 →
    ∃ q, SentHeader userKey ps q ∧ (hmac.hash q.1 q.2).take 2 = window w 2 2
  trailer : (hmac.hash (frameKey userKey (number k)) (w.take (frameLength w - 4))).take 4 =
      window w (frameLength w - 4) 4 →
    ∃ q, SentTrailer hmac userKey ps q ∧
      (hmac.hash q.1 q.2).take 4 = window w (frameLength w - 4) 4

/-- There is enough of `w` to tell that it is not frame `k`: five bytes, and the length of the frame
where its first four bytes are there. -/
def Reaches (fs : List (Bytes × Bytes)) (k : Nat) (w : Bytes) : Prop :=
  4 < w.length ∧
    ∀ f, fs[k]? = some f → f.1.take 4 = w.take 4 → f.1.length ≤ w.length ∧ ¬ f.1 <+: w

variable {hmac : Hmac} {userKey : Bytes} {ps : List Packet}

/-! ## The frames and their numbers -/

/-- One frame further. -/
theorem number_succ (k : Nat) : number (k + 1) = number k + 1 := by
  unfold number
  rw [UInt32.ofNat_add, UInt32.add_assoc]
  rfl

/-- Numbers of 32 bits count without repetition. -/
theorem number_inj {i j : Nat} (hi : i < 4294967296) (hj : j < 4294967296)
    (h : number i = number j) : i = j := by
  unfold number at h
  have hnat := congrArg UInt32.toNat (UInt32.add_right_inj (1 : UInt32) |>.mp h)
  rw [UInt32.toNat_ofNat', UInt32.toNat_ofNat'] at hnat
  omega

/-- The frames behind `j` frames. -/
theorem getElem?_frames (j k : Nat) :
    (frames hmac userKey (number j) ps)[k]? =
      ps[k]?.map fun p ↦ (frame hmac userKey (number (j + k)) p, p.data) := by
  induction ps generalizing j k with
  | nil => rfl
  | cons p ps ih =>
    cases k with
    | zero => rfl
    | succ k =>
      show (frames hmac userKey (number j + 1) ps)[k]? = ps[k]?.map _
      rw [← number_succ, ih, show j + 1 + k = j + (k + 1) by omega]

/-- As many frames as packets. -/
theorem length_frames (j : Nat) : (frames hmac userKey (number j) ps).length = ps.length := by
  induction ps generalizing j with
  | nil => rfl
  | cons p ps ih =>
    show (frames hmac userKey (number j + 1) ps).length + 1 = ps.length + 1
    rw [← number_succ, ih]

/-- The frames of two lots of packets. -/
theorem frames_append (j : Nat) (ps qs : List Packet) :
    frames hmac userKey (number j) (ps ++ qs) =
      frames hmac userKey (number j) ps ++ frames hmac userKey (number (j + ps.length)) qs := by
  induction ps generalizing j with
  | nil => rfl
  | cons p ps ih =>
    show _ :: frames hmac userKey (number j + 1) (ps ++ qs) =
      _ :: (frames hmac userKey (number j + 1) ps ++ _)
    rw [← number_succ, ih, List.length_cons, show j + 1 + ps.length = j + (ps.length + 1) by omega]

/-- The data of the frames. -/
theorem payload_frames (j : Nat) :
    payload (frames hmac userKey (number j) ps) = (ps.map Packet.data).flatten := by
  induction ps generalizing j with
  | nil => rfl
  | cons p ps ih =>
    show p.data ++ payload (frames hmac userKey (number j + 1) ps) = _
    rw [← number_succ, ih]
    rfl

/-- The number behind frames. -/
theorem after_number (j : Nat) (fs : List (Bytes × Bytes)) :
    after (· + 1) (number j) fs = number (j + fs.length) := by
  induction fs generalizing j with
  | nil => rfl
  | cons f fs ih =>
    show after (· + 1) (number j + 1) fs = _
    rw [← number_succ, ih, List.length_cons, show j + 1 + fs.length = j + (fs.length + 1) by omega]

/-- The sender counts as the receiver does. -/
theorem packIdBehind_eq (hmac : Hmac) (userKey : Bytes) (ps : List Packet) :
    packIdBehind hmac userKey ps = number ps.length := by
  have hcount : ∀ j, ps.foldl (fun packId p ↦ (authAes128Sha1PackData hmac userKey packId p).1)
      (number j) = number (j + ps.length) := by
    induction ps with
    | nil => exact fun j ↦ rfl
    | cons p ps ih =>
      intro j
      show ps.foldl _ (number j + 1) = _
      rw [← number_succ, ih, List.length_cons, show j + 1 + ps.length = j + (ps.length + 1) by omega]
  have h := hcount 0
  rw [Nat.zero_add] at h
  exact h

/-- The receiver takes all frames for what they are. -/
theorem frames_ok (j : Nat) (hsize : ∀ f ∈ frames hmac userKey (number j) ps, f.1.length < 8192) :
    Frames (· + 1) (parse hmac userKey) (number j) (frames hmac userKey (number j) ps) := by
  induction ps generalizing j with
  | nil => trivial
  | cons p ps ih =>
    have hfirst := hsize _ List.mem_cons_self
    rw [show (authAes128Sha1PackData hmac userKey (number j) p).2 =
      frame hmac userKey (number j) p from rfl, length_frame] at hfirst
    refine ⟨isFrame_frame hfirst, ?_⟩
    show Frames (· + 1) (parse hmac userKey) (number j + 1) (frames hmac userKey (number j + 1) ps)
    rw [← number_succ]
    apply ih
    intro f hf
    rw [number_succ] at hf
    exact hsize f (List.mem_cons_of_mem _ hf)

/-! ## The pairs that occur -/

/-- A key tells the number. -/
theorem frameKey_inj {a b : UInt32} (h : frameKey userKey a = frameKey userKey b) : a = b := by
  have hle := List.append_cancel_left h
  rw [← leWord_le32 a, ← leWord_le32 b, hle]

/-- The first two bytes. -/
theorem take_two {l : Bytes} (h : 2 ≤ l.length) : l.take 2 = [l[0]?.getD 0, l[1]?.getD 0] := by
  match l, h with
  | _ :: _ :: _, _ => rfl

/-- Two bytes tell their number. -/
theorem word16_inj {a b c d : UInt8} (h : word16 a b = word16 c d) : a = c ∧ b = d := by
  unfold word16 at h
  have hb := b.toNat_lt
  have hd := d.toNat_lt
  constructor
  · apply UInt8.toNat_inj.mp
    omega
  · apply UInt8.toNat_inj.mp
    omega

/-- Without collisions there are no more frames than hashes of two bytes. -/
theorem length_le_of_distinct {occurs : Bytes × Bytes → Prop} (hd : Distinct hmac 2 occurs)
    (hsent : ∀ q, SentHeader userKey ps q → occurs q) : ps.length ≤ 65536 := by
  by_contra hlong
  have hlt : ∀ i : Fin 65537, i.val < ps.length := fun i ↦ by omega
  let pair (i : Fin 65537) : Bytes × Bytes := (frameKey userKey (number i),
    sizeBytes ((ps.get ⟨i, hlt i⟩).outSize (number i)))
  have hpair : ∀ i, SentHeader userKey ps (pair i) := fun i ↦
    ⟨i, ps.get ⟨i, hlt i⟩, List.getElem?_eq_getElem (hlt i), rfl⟩
  let tag (i : Fin 65537) : Bytes := hmac.hash (pair i).1 (pair i).2
  have hlength : ∀ i, 2 ≤ (tag i).length := by
    intro i
    rw [hmac.length_hash]
    omega
  have hcode : ∀ i, word16 ((tag i)[0]?.getD 0) ((tag i)[1]?.getD 0) < 65536 := by
    intro i
    have h0 := ((tag i)[0]?.getD 0).toNat_lt
    have h1 := ((tag i)[1]?.getD 0).toNat_lt
    unfold word16
    omega
  let code (i : Fin 65537) : Fin 65536 := ⟨_, hcode i⟩
  have hcard : Fintype.card (Fin 65536) < Fintype.card (Fin 65537) := by
    rw [Fintype.card_fin, Fintype.card_fin]
    omega
  -- two frames have the same two bytes
  obtain ⟨i, j, hne, hij⟩ := Fintype.exists_ne_map_eq_of_card_lt code hcard
  obtain ⟨h0, h1⟩ := word16_inj (congrArg Fin.val hij)
  have htag : (tag i).take 2 = (tag j).take 2 := by
    rw [take_two (hlength i), take_two (hlength j), h0, h1]
  have hsame := hd _ _ (hsent _ (hpair i)) (hsent _ (hpair j)) htag
  have hnumber := frameKey_inj (congrArg Prod.fst hsame)
  exact hne (Fin.ext (number_inj (by omega) (by omega) hnumber))

/-! ## The first frame out of place -/

variable {k : Nat} {w : Bytes}

/-- A header that is accepted in place of frame `k` is that of frame `k`. -/
theorem header_of_accepted (hk : k ≤ ps.length) (hd : NoCollision hmac userKey ps k w)
    (hg : NotGuessed hmac userKey ps k w)
    (h : (hmac.hash (frameKey userKey (number k)) (w.take 2)).take 2 = window w 2 2) :
    ∃ p, ps[k]? = some p ∧ w.take 2 = sizeBytes (p.outSize (number k)) := by
  have hbound := length_le_of_distinct hd.headers fun q ↦ .inl
  obtain ⟨q, hq, htag⟩ := hg.header h
  have hsame := hd.headers q (frameKey userKey (number k), w.take 2) (.inl hq) (.inr rfl)
    (htag.trans h.symm)
  obtain ⟨i, p, hp, rfl⟩ := hq
  have hi : i < ps.length := (List.getElem?_eq_some_iff.mp hp).1
  have hik : i = k := by
    apply number_inj (by omega) (by omega)
    exact frameKey_inj (congrArg Prod.fst hsame)
  rw [hik] at hp hsame
  exact ⟨p, hp, (congrArg Prod.snd hsame).symm⟩

/-- An end that is accepted in place of that of frame `k` is behind its bytes. -/
theorem trailer_of_accepted (hk : k ≤ ps.length) (hd : NoCollision hmac userKey ps k w)
    (hg : NotGuessed hmac userKey ps k w)
    (h : (hmac.hash (frameKey userKey (number k)) (w.take (frameLength w - 4))).take 4 =
      window w (frameLength w - 4) 4) :
    ∃ p, ps[k]? = some p ∧ w.take (frameLength w - 4) = frameBody hmac userKey (number k) p := by
  have hbound := length_le_of_distinct hd.headers fun q ↦ .inl
  obtain ⟨q, hq, htag⟩ := hg.trailer h
  have hsame := hd.trailers q (frameKey userKey (number k), w.take (frameLength w - 4)) (.inl hq)
    (.inr rfl) (htag.trans h.symm)
  obtain ⟨i, p, hp, rfl⟩ := hq
  have hi : i < ps.length := (List.getElem?_eq_some_iff.mp hp).1
  have hik : i = k := by
    apply number_inj (by omega) (by omega)
    exact frameKey_inj (congrArg Prod.fst hsame)
  rw [hik] at hp hsame
  exact ⟨p, hp, (congrArg Prod.snd hsame).symm⟩

/-- Frame `k`. -/
theorem frames_at {p : Packet} (hp : ps[k]? = some p) :
    (frames hmac userKey 1 ps)[k]? = some (frame hmac userKey (number k) p, p.data) := by
  have h := @getElem?_frames hmac userKey ps 0 k
  rw [Nat.zero_add, hp] at h
  exact h

/-- The first bytes of a frame's header, and what follows them. -/
theorem take_frame {id : UInt32} {p : Packet} :
    (frame hmac userKey id p).take 4 = frameHead hmac userKey id p := by
  obtain ⟨rest, hrest⟩ := @frameHead_start hmac userKey id p
  rw [← hrest]
  exact List.take_left' length_frameHead

/-- Two bytes, and two more. -/
theorem take_four (w : Bytes) : w.take 4 = w.take 2 ++ window w 2 2 := by
  unfold window
  rw [← List.take_add]

/-- A header that is accepted in place of frame `k` begins like frame `k`. -/
theorem head_of_accepted (hk : k ≤ ps.length) (hd : NoCollision hmac userKey ps k w)
    (hg : NotGuessed hmac userKey ps k w)
    (h : (hmac.hash (frameKey userKey (number k)) (w.take 2)).take 2 = window w 2 2) :
    ∃ p, ps[k]? = some p ∧ w.take 4 = frameHead hmac userKey (number k) p := by
  obtain ⟨p, hp, htake⟩ := header_of_accepted hk hd hg h
  refine ⟨p, hp, ?_⟩
  unfold frameHead
  rw [take_four, ← h, htake]

/-- Where there is enough to tell that it is not frame `k`, the receiver finds an error. -/
theorem parse_reached (hk : k ≤ ps.length) (hd : NoCollision hmac userKey ps k w)
    (hg : NotGuessed hmac userKey ps k w)
    (hsize : ∀ f ∈ frames hmac userKey 1 ps, f.1.length < 8192)
    (hw : Reaches (frames hmac userKey 1 ps) k w) : parse hmac userKey (number k) w = .bad := by
  obtain ⟨hlong, hframe⟩ := hw
  by_cases hheader : (hmac.hash (frameKey userKey (number k)) (w.take 2)).take 2 = window w 2 2
  · obtain ⟨p, hp, hhead⟩ := head_of_accepted hk hd hg hheader
    have hat := @frames_at hmac userKey ps k p hp
    have hlen := @length_frame hmac userKey (number k) p
    have hmax := hsize _ (List.mem_of_getElem? hat)
    obtain ⟨hwhole, hother⟩ := hframe _ hat (by rw [hhead]; exact take_frame)
    simp only [hlen] at hwhole hmax
    have hstart : frameHead hmac userKey (number k) p <+: w := by
      rw [← hhead]
      exact List.take_prefix 4 w
    obtain ⟨-, -, hlength⟩ := read_of_head hstart (by omega)
    have hout : p.outSize (number k) = p.randLen (number k) + p.data.length + 8 := rfl
    rw [parse_of_header hlong hheader hlength (by omega) hmax, if_neg (by omega)]
    apply if_pos
    intro htrailer
    rw [← hlength] at htrailer
    obtain ⟨p', hp', hbody⟩ := trailer_of_accepted hk hd hg htrailer
    rw [hp] at hp'
    cases hp'
    -- all its bytes are those of the frame
    apply hother
    have hsplit : w.take (frameLength w) = frame hmac userKey (number k) p := by
      have hfour : frameLength w = frameLength w - 4 + 4 := by omega
      rw [frame_eq, hfour, List.take_add, hbody]
      show _ ++ window w (frameLength w - 4) 4 = _
      rw [← htrailer, hbody]
    rw [← hsplit]
    exact List.take_prefix _ w
  · unfold parse
    rw [if_neg (by omega), if_pos hheader]

/-- Before there is enough, the receiver waits. -/
theorem parse_not_reached {w' : Bytes} (hsize : ∀ f ∈ frames hmac userKey 1 ps, f.1.length < 8192)
    (hw : Reaches (frames hmac userKey 1 ps) k w) (hstart : w' <+: w)
    (hw' : ¬ Reaches (frames hmac userKey 1 ps) k w') :
    parse hmac userKey (number k) w' = .more := by
  by_cases hshort : w'.length ≤ 4
  · exact if_pos hshort
  · have htakew : w'.take 4 = w.take 4 := by
      obtain ⟨rest, rfl⟩ := hstart
      exact (List.take_append_of_le_length (by omega)).symm
    obtain ⟨f, hf, hhead, hless⟩ : ∃ f, (frames hmac userKey 1 ps)[k]? = some f ∧
        f.1.take 4 = w'.take 4 ∧ w'.length < f.1.length := by
      by_contra hnone
      apply hw'
      refine ⟨by omega, fun f hf hhead ↦ ⟨?_, ?_⟩⟩
      · by_contra hlen
        exact hnone ⟨f, hf, hhead, by omega⟩
      · intro hfw
        exact (hw.2 f hf (hhead.trans htakew)).2 (hfw.trans hstart)
    have hmax := hsize f (List.mem_of_getElem? hf)
    have hat := @getElem?_frames hmac userKey ps 0 k
    rw [Nat.zero_add] at hat
    obtain ⟨p, hp, hfp⟩ := Option.map_eq_some_iff.mp (hat.symm.trans hf)
    rw [← hfp] at hhead hless hmax
    simp only [length_frame, take_frame] at hhead hless hmax
    have hstart' : frameHead hmac userKey (number k) p <+: w' := by
      rw [hhead]
      exact List.take_prefix 4 w'
    obtain ⟨htake, hwindow, hlength⟩ := read_of_head hstart' (by omega)
    have hout : p.outSize (number k) = p.randLen (number k) + p.data.length + 8 := rfl
    rw [parse_of_header (by omega) (by rw [htake, hwindow]) hlength (by omega) hmax, if_pos hless]

/-! ## Runs -/

/-- A call with an output. -/
def received (hmac : Hmac) (userKey : Bytes) (r : Receiver UInt32 UInt8) (segment : Bytes) :
    Option (Receiver UInt32 UInt8 × Bytes) :=
  accept (authAes128Sha1ClientPostDecrypt hmac userKey r segment)

/-- Each segment finds room behind what is pending. -/
def FitsBuffer (hmac : Hmac) (userKey : Bytes) (segments : List Bytes) : Prop :=
  Fits 16384 (· + 1) (parse hmac userKey) start segments

/-- The start of the frames of packets, as it is read. -/
theorem reads_frames (hsize : ∀ f ∈ frames hmac userKey 1 ps, f.1.length < 8192) {b : Bytes}
    (hb : b <+: stream (frames hmac userKey 1 ps)) :
    ∃ done todo left, ps = done ++ todo ∧ b = stream (frames hmac userKey 1 done) ++ left ∧
      Begins left (frames hmac userKey (number done.length) todo) ∧
      Reads (· + 1) (parse hmac userKey) 1 b (number done.length) left
        (done.map Packet.data).flatten := by
  have hnil : ∀ id, parse hmac userKey id [] = .more := fun id ↦ if_pos (Nat.zero_le _)
  obtain ⟨fs, gs, left, hsplit, hleft, hbegins, hreads⟩ :=
    reads_of_prefix hnil (@frames_ok hmac userKey ps 0 hsize) hb
  have hlen : fs.length ≤ ps.length := by
    rw [← @length_frames hmac userKey ps 0, show frames hmac userKey (number 0) ps = fs ++ gs from
      hsplit, List.length_append]
    omega
  have happend := @frames_append hmac userKey 0 (ps.take fs.length) (ps.drop fs.length)
  rw [List.take_append_drop, Nat.zero_add, show frames hmac userKey (number 0) ps = fs ++ gs from
    hsplit] at happend
  obtain ⟨hfs, hgs⟩ := List.append_inj happend (by
    rw [length_frames, List.length_take, Nat.min_eq_left hlen])
  have hcount : (ps.take fs.length).length = fs.length := by
    rw [List.length_take, Nat.min_eq_left hlen]
  refine ⟨ps.take fs.length, ps.drop fs.length, left, (List.take_append_drop _ _).symm, ?_, ?_, ?_⟩
  · rw [hleft]
    exact congrArg (fun l ↦ stream l ++ left) hfs
  · rw [← hgs]
    exact hbegins
  · have hafter := after_number 0 fs
    rw [Nat.zero_add] at hafter
    have hpayload := @payload_frames hmac userKey (ps.take fs.length) 0
    rw [← hfs] at hpayload
    rw [hcount, ← hafter, ← hpayload]
    exact hreads

/-- The first frames are among the frames. -/
theorem frames_take_subset (k : Nat) :
    ∀ f ∈ frames hmac userKey 1 (ps.take k), f ∈ frames hmac userKey 1 ps := by
  intro f hf
  have happend := @frames_append hmac userKey 0 (ps.take k) (ps.drop k)
  rw [List.take_append_drop] at happend
  rw [show frames hmac userKey 1 ps = _ from happend]
  exact List.mem_append_left _ hf

/-- Frames and what follows them: whole frames and the start of the next one, or something that
waits behind all of them. -/
theorem reads_before (hsize : ∀ f ∈ frames hmac userKey 1 ps, f.1.length < 8192) {b rest : Bytes}
    (hb : b <+: stream (frames hmac userKey 1 ps) ++ rest)
    (hwait : ∀ w, b = stream (frames hmac userKey 1 ps) ++ w → w <+: rest →
      parse hmac userKey (number ps.length) w = .more) :
    ∃ done left, done <+: ps ∧ b = stream (frames hmac userKey 1 done) ++ left ∧
      Reads (· + 1) (parse hmac userKey) 1 b (number done.length) left
        (done.map Packet.data).flatten := by
  rcases Framing.prefix_cases hb with ⟨hpart, -⟩ | ⟨w, hw, hrest⟩
  · obtain ⟨done, todo, left, hsplit, hleft, -, hreads⟩ := reads_frames hsize hpart
    exact ⟨done, left, ⟨todo, hsplit.symm⟩, hleft, hreads⟩
  · refine ⟨ps, w, List.prefix_refl ps, hw, ?_⟩
    have hafter := after_number 0 (frames hmac userKey (number 0) ps)
    rw [length_frames, Nat.zero_add] at hafter
    have hmore : Reads (· + 1) (parse hmac userKey)
        (after (· + 1) (number 0) (frames hmac userKey (number 0) ps)) w (number ps.length) w [] := by
      rw [hafter]
      exact .more (hwait w hw hrest)
    have hreads := reads_stream (@frames_ok hmac userKey ps 0 hsize) hmore
    rw [payload_frames, List.append_nil] at hreads
    rw [hw]
    exact hreads

/-- The start of the frames fits in any segments where it has room in the buffer. -/
theorem fitsBuffer_of_length_le (hsize : ∀ f ∈ frames hmac userKey 1 ps, f.1.length < 8192)
    {segments : List Bytes} (hsegments : segments.flatten <+: stream (frames hmac userKey 1 ps))
    (hroom : segments.flatten.length ≤ 16384) : FitsBuffer hmac userKey segments := by
  obtain ⟨done, todo, left, -, -, -, hreads⟩ := reads_frames hsize hsegments
  have hzero : start.pending.length + segments.flatten.length ≤ 16384 := by
    rw [show start.pending.length = 0 from rfl, Nat.zero_add]
    exact hroom
  exact fits_of_length_le monotone_parse hzero hreads

/-- However the frames are cut into segments that fit, the receiver gives the data of those that have
arrived and counts as the sender did; and where something else comes for a frame, the call that has
enough of it returns an error, and before it come data of the frames before alone. -/
theorem sequence_authenticated
    (hsize : ∀ f ∈ frames hmac userKey 1 ps, f.1.length < 8192) :
    (∀ segments : List Bytes, segments.flatten <+: stream (frames hmac userKey 1 ps) →
      FitsBuffer hmac userKey segments →
      ∃ done todo left, ps = done ++ todo ∧
        segments.flatten = stream (frames hmac userKey 1 done) ++ left ∧
        Begins left (frames hmac userKey (packIdBehind hmac userKey done) todo) ∧
        Stream.runAll (received hmac userKey) start segments =
          some (⟨packIdBehind hmac userKey done, left⟩, (done.map Packet.data).flatten)) ∧
    (∀ (k : Nat) (w segment : Bytes) (before : List Bytes), k ≤ ps.length →
      before.flatten ++ segment = stream (frames hmac userKey 1 (ps.take k)) ++ w →
      FitsBuffer hmac userKey before → NoCollision hmac userKey ps k w →
      NotGuessed hmac userKey ps k w → Reaches (frames hmac userKey 1 ps) k w →
      (∀ w', before.flatten = stream (frames hmac userKey 1 (ps.take k)) ++ w' →
        ¬ Reaches (frames hmac userKey 1 ps) k w') →
      ∃ done left r, done <+: ps.take k ∧
        before.flatten = stream (frames hmac userKey 1 done) ++ left ∧
        Stream.runAll (received hmac userKey) start before =
          some (⟨packIdBehind hmac userKey done, left⟩, (done.map Packet.data).flatten) ∧
        authAes128Sha1ClientPostDecrypt hmac userKey ⟨packIdBehind hmac userKey done, left⟩ segment =
          some (r, none)) := by
  have hmono := @monotone_parse hmac userKey
  have hwait : parse hmac userKey start.number start.pending = .more := if_pos (Nat.zero_le _)
  constructor
  · intro segments hsegments hfits
    obtain ⟨done, todo, left, hsplit, hleft, hbegins, hreads⟩ := reads_frames hsize hsegments
    refine ⟨done, todo, left, hsplit, hleft, ?_, ?_⟩
    · rw [packIdBehind_eq]
      exact hbegins
    · rw [packIdBehind_eq]
      exact runAll_of_reads hmono hwait hfits hreads
  · intro k w segment before hk hall hfits hd hg hw hbefore
    have hbad := parse_reached hk hd hg hsize hw
    have htake : (ps.take k).length = k := by rw [List.length_take, Nat.min_eq_left hk]
    have hsize' : ∀ f ∈ frames hmac userKey 1 (ps.take k), f.1.length < 8192 :=
      fun f hf ↦ hsize f (frames_take_subset k f hf)
    have hstart : before.flatten <+: stream (frames hmac userKey 1 (ps.take k)) ++ w :=
      ⟨segment, hall⟩
    obtain ⟨done, left, hdone, hleft, hreads⟩ := reads_before hsize' hstart (by
      intro w' hw' hstart'
      rw [htake]
      exact parse_not_reached hsize hw hstart' (hbefore w' hw'))
    have hrejects : Rejects (· + 1) (parse hmac userKey) 1
        (before.flatten ++ segment) (number k) := by
      have hafter := after_number 0 (frames hmac userKey (number 0) (ps.take k))
      rw [length_frames, htake, Nat.zero_add] at hafter
      rw [hall]
      apply rejects_stream (@frames_ok hmac userKey (ps.take k) 0 hsize')
      rw [hafter]
      exact .bad hbad
    rw [← packIdBehind_eq hmac userKey done] at hreads
    have hcall := Reads.split_rejects hmono hreads hrejects
    obtain ⟨r, hr⟩ := @receive_of_rejects _ _ _ (· + 1) _ hmono 16384
      ⟨packIdBehind hmac userKey done, left⟩ segment _ hcall
    exact ⟨done, left, r, hdone, hleft, runAll_of_reads hmono hwait hfits hreads, hr⟩

/-! ## One frame -/

/-- The key of the examples. -/
def sampleKey : Bytes := [107, 101, 121, 33]

/-- HMAC-SHA1 of what the examples hash. -/
def sampleHash (key data : Bytes) : Bytes :=
  if key = frameKey sampleKey 1 then
    if data = [10, 0] then
      [174, 49, 182, 86, 198, 67, 104, 228, 165, 130, 149, 57, 166, 132, 243, 222, 163, 97, 110, 87]
    else if data = [10, 0, 174, 49, 1, 7] then
      [36, 132, 15, 91, 103, 234, 17, 243, 195, 208, 204, 103, 137, 23, 232, 120, 56, 230, 197, 33]
    else if data = [10, 0, 174, 49, 1, 8] then
      [234, 173, 12, 29, 222, 131, 62, 145, 233, 111, 2, 227, 253, 191, 156, 241, 240, 28, 60, 213]
    else List.replicate 20 0
  else if key = frameKey sampleKey 2 then
    if data = [10, 0] then
      [160, 101, 78, 164, 194, 197, 252, 156, 97, 74, 22, 178, 251, 148, 153, 44, 191, 0, 64, 123]
    else if data = [10, 0, 174, 49, 1, 7] then
      [46, 163, 160, 21, 12, 234, 206, 2, 245, 128, 152, 114, 248, 115, 34, 73, 223, 28, 231, 70]
    else List.replicate 20 0
  else List.replicate 20 0

/-- The HMAC of the examples. -/
def sampleHmac : Hmac where
  hash := sampleHash
  length_hash key data := by
    unfold sampleHash
    repeat' split
    all_goals rfl

/-- A packet of one byte. -/
def seven : Packet := ⟨[7], 0, fun _ ↦ 0⟩

/-- Its frame with the number 1. -/
def sevenFrame : Bytes := [10, 0, 174, 49, 1, 7, 36, 132, 15, 91]

/-- The same with another byte and the hash of that. -/
def eightFrame : Bytes := [10, 0, 174, 49, 1, 8, 234, 173, 12, 29]

/-- The frame of the packet. -/
theorem frames_seven : frames sampleHmac sampleKey 1 [seven] = [(sevenFrame, [7])] := by decide

/-- The only packet is the first one. -/
theorem eq_of_getElem?_seven {k : Nat} {p : Packet} (h : [seven][k]? = some p) :
    k = 0 ∧ p = seven := by
  cases k with
  | zero => exact ⟨rfl, (Option.some.inj h).symm⟩
  | succ k => cases h

/-- The one pair for a header. -/
theorem sentHeader_seven {q : Bytes × Bytes} :
    SentHeader sampleKey [seven] q ↔ q = (frameKey sampleKey 1, [10, 0]) := by
  constructor
  · rintro ⟨k, p, hp, hq⟩
    obtain ⟨hk, hseven⟩ := eq_of_getElem?_seven hp
    rw [hq, hk, hseven]
    decide
  · intro hq
    rw [hq]
    exact ⟨0, seven, rfl, by decide⟩

/-- The one pair for the end of a frame. -/
theorem sentTrailer_seven {q : Bytes × Bytes} :
    SentTrailer sampleHmac sampleKey [seven] q ↔
      q = (frameKey sampleKey 1, [10, 0, 174, 49, 1, 7]) := by
  constructor
  · rintro ⟨k, p, hp, hq⟩
    obtain ⟨hk, hseven⟩ := eq_of_getElem?_seven hp
    rw [hq, hk, hseven]
    decide
  · intro hq
    rw [hq]
    exact ⟨0, seven, rfl, by decide⟩

/-- Two pairs with different hashes. -/
theorem distinct_pair {hmac : Hmac} {n : Nat} {a b : Bytes × Bytes}
    (h : a = b ∨ (hmac.hash a.1 a.2).take n ≠ (hmac.hash b.1 b.2).take n) :
    Distinct hmac n fun q ↦ q = a ∨ q = b := by
  intro q q' hq hq' htag
  rcases h with hab | hne
  · rw [hab, or_self] at hq hq'
    rw [hq, hq']
  · rcases hq with rfl | rfl <;> rcases hq' with rfl | rfl
    · rfl
    · exact absurd htag hne
    · exact absurd htag.symm hne
    · rfl

/-- Where other bytes come for a frame, nothing that is hashed collides. -/
theorem noCollision_seven {k : Nat} {w : Bytes}
    (hheader : (frameKey sampleKey 1, [10, 0]) = (frameKey sampleKey (number k), w.take 2) ∨
      (sampleHash (frameKey sampleKey 1) [10, 0]).take 2 ≠
        (sampleHash (frameKey sampleKey (number k)) (w.take 2)).take 2)
    (htrailer : (sampleHash (frameKey sampleKey 1) [10, 0, 174, 49, 1, 7]).take 4 ≠
        (sampleHash (frameKey sampleKey (number k)) (w.take (frameLength w - 4))).take 4) :
    NoCollision sampleHmac sampleKey [seven] k w where
  headers := by
    simp only [sentHeader_seven]
    exact distinct_pair hheader
  trailers := by
    simp only [sentTrailer_seven]
    exact distinct_pair (.inr htrailer)

/-- One frame is received in two segments, and the same frame again is an error. -/
theorem sequence_authenticated_repeated :
    (∃ done todo left, [seven] = done ++ todo ∧
      [[10, 0, 174], [49, 1, 7, 36, 132, 15, 91]].flatten =
        stream (frames sampleHmac sampleKey 1 done) ++ left ∧
      Begins left (frames sampleHmac sampleKey (packIdBehind sampleHmac sampleKey done) todo) ∧
      Stream.runAll (received sampleHmac sampleKey) start
          [[10, 0, 174], [49, 1, 7, 36, 132, 15, 91]] =
        some (⟨packIdBehind sampleHmac sampleKey done, left⟩, (done.map Packet.data).flatten)) ∧
    ∃ done left r, done <+: [seven].take 1 ∧
      [sevenFrame].flatten = stream (frames sampleHmac sampleKey 1 done) ++ left ∧
      Stream.runAll (received sampleHmac sampleKey) start [sevenFrame] =
        some (⟨packIdBehind sampleHmac sampleKey done, left⟩, (done.map Packet.data).flatten) ∧
      authAes128Sha1ClientPostDecrypt sampleHmac sampleKey
        ⟨packIdBehind sampleHmac sampleKey done, left⟩ sevenFrame = some (r, none) := by
  have hsize : ∀ f ∈ frames sampleHmac sampleKey 1 [seven], f.1.length < 8192 := by
    rw [frames_seven]
    decide
  have hstream : stream (frames sampleHmac sampleKey 1 [seven]) = sevenFrame := by
    rw [frames_seven]
    rfl
  obtain ⟨hpositive, hnegative⟩ := sequence_authenticated hsize
  constructor
  · have hstart : [[10, 0, 174], [49, 1, 7, 36, 132, 15, 91]].flatten <+:
        stream (frames sampleHmac sampleKey 1 [seven]) := by
      rw [hstream]
      exact List.prefix_refl _
    exact hpositive _ hstart (fitsBuffer_of_length_le hsize hstart (by decide))
  · have hstart : [sevenFrame].flatten <+: stream (frames sampleHmac sampleKey 1 [seven]) := by
      rw [hstream]
      exact List.prefix_refl _
    apply hnegative 1 sevenFrame sevenFrame [sevenFrame] (by decide)
    · show [sevenFrame].flatten ++ sevenFrame = stream (frames sampleHmac sampleKey 1 [seven]) ++ _
      rw [hstream]
      rfl
    · exact fitsBuffer_of_length_le hsize hstart (by decide)
    · exact noCollision_seven (by decide) (by decide)
    · constructor
      · intro h
        exact absurd h (by decide)
      · intro h
        exact absurd h (by decide)
    · refine ⟨by decide, ?_⟩
      rw [frames_seven]
      intro f hf
      cases hf
    · intro w' hw'
      have hnil : w' = [] := by
        have hlength := congrArg List.length hw'
        rw [show stream (frames sampleHmac sampleKey 1 (List.take 1 [seven])) = sevenFrame from
          hstream, List.length_append] at hlength
        apply List.eq_nil_of_length_eq_zero
        have hten : [sevenFrame].flatten.length = sevenFrame.length := rfl
        omega
      rw [hnil]
      exact fun h ↦ absurd h.1 (by decide)

/-! ## What the assumptions are for -/

/-- An HMAC that begins with the number and the last byte. -/
def countHmac : Hmac where
  hash key data := [key[0]?.getD 0, data.getLast?.getD 0] ++ List.replicate 18 0
  length_hash _ _ := rfl

/-- Nine packets of 2000 bytes. -/
def nine : List Packet := List.replicate 9 ⟨List.replicate 2000 0, 0, fun _ ↦ 0⟩

/-- The numbers of nine frames differ in one byte. -/
theorem number_toUInt8_inj : ∀ i < 9, ∀ j < 9, (number i).toUInt8 = (number j).toUInt8 → i = j := by
  decide

/-- Different numbers have different hashes. -/
theorem distinct_count {n : Nat} (hn : 0 < n) {occurs : Bytes × Bytes → Prop}
    {bytes : Nat → Packet → Bytes} (hoccurs : ∀ q, occurs q → ∃ k p, nine[k]? = some p ∧
      q = (frameKey [] (number k), bytes k p)) : Distinct countHmac n occurs := by
  intro q q' hq hq' htag
  obtain ⟨i, p, hp, rfl⟩ := hoccurs q hq
  obtain ⟨j, p', hp', rfl⟩ := hoccurs q' hq'
  have hi : i < 9 := (List.getElem?_eq_some_iff.mp hp).1
  have hj : j < 9 := (List.getElem?_eq_some_iff.mp hp').1
  obtain ⟨m, rfl⟩ : ∃ m, n = m + 1 := ⟨n - 1, by omega⟩
  have hhead : (number i).toUInt8 = (number j).toUInt8 := (List.cons.inj htag).1
  have hij := number_toUInt8_inj i hi j hj hhead
  rw [hij] at hp ⊢
  rw [hp] at hp'
  rw [Option.some.inj hp']

/-- A stream is no shorter than the data in it. -/
theorem length_payload_le (id : UInt32) (ps : List Packet) :
    (ps.map Packet.data).flatten.length ≤ (stream (frames hmac userKey id ps)).length := by
  induction ps generalizing id with
  | nil => exact Nat.le_refl _
  | cons p ps ih =>
    show (p.data ++ (ps.map Packet.data).flatten).length ≤
      (frame hmac userKey id p ++ stream (frames hmac userKey (id + 1) ps)).length
    have hrest := ih (id + 1)
    have hframe := @length_frame hmac userKey id p
    have hout : p.outSize id = p.randLen id + p.data.length + 8 := rfl
    rw [List.length_append, List.length_append]
    omega

/-- The nine packets hold 18000 bytes. -/
theorem length_nine : (nine.map Packet.data).flatten.length = 18000 := by
  unfold nine
  rw [List.map_replicate, List.length_flatten, List.map_replicate, List.length_replicate,
    List.sum_replicate]
  rfl

/-- Their frames are short. -/
theorem frames_nine : ∀ f ∈ frames countHmac [] 1 nine, f.1.length < 8192 := by
  intro f hf
  obtain ⟨k, hk⟩ := List.getElem?_of_mem hf
  have hat := @getElem?_frames countHmac [] nine 0 k
  obtain ⟨p, hp, hfp⟩ := Option.map_eq_some_iff.mp (hat.symm.trans hk)
  have hdata : p.data.length = 2000 := by
    rw [List.eq_of_mem_replicate (List.mem_of_getElem? hp), List.length_replicate]
  have hpad := (p.randLen_spec (number (0 + k))).2
  have hout : p.outSize (number (0 + k)) = p.randLen (number (0 + k)) + p.data.length + 8 := rfl
  rw [← hfp, length_frame]
  omega

/-- Nine frames that come in one segment are refused, and a frame with another byte and the right
hash of it is received, though no two of the hashes that occur are the same. -/
theorem sequence_refused_and_forged :
    (Distinct countHmac 2 (SentHeader [] nine) ∧ Distinct countHmac 4 (SentTrailer countHmac [] nine) ∧
      (∀ f ∈ frames countHmac [] 1 nine, f.1.length < 8192) ∧
      authAes128Sha1ClientPostDecrypt countHmac [] start (stream (frames countHmac [] 1 nine)) =
        some (start, none)) ∧
    (NoCollision sampleHmac sampleKey [seven] 0 eightFrame ∧
      Reaches (frames sampleHmac sampleKey 1 [seven]) 0 eightFrame ∧
      authAes128Sha1ClientPostDecrypt sampleHmac sampleKey start eightFrame =
        some (⟨2, []⟩, some [8])) := by
  constructor
  · refine ⟨?_, ?_, ?_, ?_⟩
    · exact distinct_count (by omega) fun q h ↦ h
    · exact distinct_count (by omega) fun q h ↦ h
    · exact frames_nine
    · have hlong := @length_payload_le countHmac [] 1 nine
      have hnine := length_nine
      apply receive_of_lt
      rw [show start.pending.length = 0 from rfl]
      omega
  · refine ⟨noCollision_seven (by decide) (by decide), ?_, by decide⟩
    rw [frames_seven]
    refine ⟨by decide, fun f hf hhead ↦ ?_⟩
    cases hf
    decide

end OpenWrtCompile.Protocol.AuthAes128
