import OpenWrtCompile.Server.Cipher
import OpenWrtCompile.Server.Libsodium

/-!
# The libsodium stream ciphers

`shadowsocksr-libev/src/server/encrypt.c`, the branches of `ss_encrypt` (`1199–1271`) and `ss_decrypt`
(`1347–1430`) for `SALSA20` and above. The cipher works on blocks of 64 bytes: a call pads its input
on the left up to the block in which the last call ended, starts at that block and takes the padding
off the output. Writes are checked against the sizes of the blocks.
-/

namespace OpenWrtCompile.Server
open OpenWrtCompile.Base

/-- The part of `enc_ctx_t` that these methods use; `iv` is `evp.iv`. -/
structure SodiumCtx where
  init : Bool
  iv : Bytes
  counter : UInt64
  deriving DecidableEq, Repr

/-- What the calls of one process share: `enc_method` and `enc_key`. -/
structure SodiumEnv where
  lib : Libsodium
  method : SodiumMethod
  key : Bytes

/-- `padding` zero bytes in front of what stands from `off` on. -/
def padAt (capacity off padding : Nat) (b : Buffer) : Option Buffer :=
  if padding = 0 then some b
  else do
    let grown := b.brealloc (b.len + padding) capacity
    let moved ← grown.put (off + padding) (window grown.array off (b.len - off))
    moved.put off (List.replicate padding 0)

/-- The `len` bytes behind the padding are moved to `off`. -/
def unpadAt (off padding : Nat) (b : Buffer) : Option Buffer :=
  if padding = 0 then some b else b.put off (window b.array (off + padding) b.len)

/-- `ss_encrypt`; `tmp` is its static buffer as other calls have left it. -/
def sodiumEncrypt (env : SodiumEnv) (capacity : Nat) (tmp : Buffer) (ctx : SodiumCtx)
    (plain : Buffer) : Option (SodiumCtx × Buffer) := do
  let ivLen := if ctx.init then 0 else env.method.ivLen
  let cipher := (tmp.brealloc (ivLen + plain.len) capacity).setLen plain.len
  let cipher ← cipher.put 0 (if ctx.init then [] else ctx.iv.take env.method.ivLen)
  let counter := if ctx.init then ctx.counter else 0
  let padding := counter.toNat % sodiumBlockSize
  let cipher := cipher.brealloc (ivLen + (padding + cipher.len) * 2) capacity
  let padded ← padAt capacity 0 padding plain
  let cipher ← cipher.put ivLen
    (cryptoStreamXorIc env.lib (window padded.array 0 (plain.len + padding)) ctx.iv
      (counter / UInt64.ofNat sodiumBlockSize) env.key env.method)
  let cipher ← unpadAt ivLen padding cipher
  let out ← (padded.brealloc (ivLen + cipher.len) capacity).put 0
    (window cipher.array 0 (ivLen + cipher.len))
  return (⟨true, ctx.iv, counter + UInt64.ofNat plain.len⟩, out.setLen (ivLen + cipher.len))

/-- `ss_decrypt`; `seen` is `cache_key_exist(iv_cache, iv)`. The result is `none` for the return value
-1, where fewer bytes than an IV have arrived, and where a write goes beyond a block. -/
def sodiumDecrypt (env : SodiumEnv) (seen : Bytes → Bool) (capacity : Nat) (tmp : Buffer)
    (ctx : SodiumCtx) (cipher : Buffer) : Option (SodiumCtx × Buffer) := do
  let ivLen := if ctx.init then 0 else env.method.ivLen
  let iv := if ctx.init then ctx.iv else cipher.array.take env.method.ivLen
  let counter := if ctx.init then ctx.counter else 0
  if cipher.len < ivLen || (!ctx.init && seen iv) then none
  else
    let plain := (tmp.brealloc cipher.len capacity).setLen (cipher.len - ivLen)
    let padding := counter.toNat % sodiumBlockSize
    let plain := plain.brealloc ((plain.len + padding) * 2) capacity
    let padded ← padAt capacity ivLen padding cipher
    let plain ← plain.put 0
      (cryptoStreamXorIc env.lib (window padded.array ivLen (cipher.len - ivLen + padding)) iv
        (counter / UInt64.ofNat sodiumBlockSize) env.key env.method)
    let plain ← unpadAt 0 padding plain
    let out ← (padded.brealloc plain.len capacity).put 0 (window plain.array 0 plain.len)
    return (⟨true, iv, counter + UInt64.ofNat (cipher.len - ivLen)⟩, out.setLen plain.len)

/-! ## The padding -/

/-- The input with its padding. -/
theorem padAt_spec (capacity : Nat) {off padding : Nat} {b : Buffer} (hin : b.len ≤ b.array.length)
    (hoff : off ≤ b.len) :
    ∃ p, padAt capacity off padding b = some p ∧
      window p.array off (b.len - off + padding) =
        List.replicate padding 0 ++ window b.array off (b.len - off) := by
  have hm : (window b.array off (b.len - off)).length = b.len - off := length_window (by omega)
  generalize hmsg : window b.array off (b.len - off) = m at hm ⊢
  unfold padAt
  by_cases hzero : padding = 0
  · refine ⟨b, if_pos hzero, ?_⟩
    rw [hzero, Nat.add_zero, hmsg]
    rfl
  · have hgrown := (b.le_length_brealloc (b.len + padding) capacity).2
    have hread : window (b.brealloc (b.len + padding) capacity).array off (b.len - off) = m := by
      rw [← hmsg]
      exact window_append _ _ (by omega)
    generalize b.brealloc (b.len + padding) capacity = grown at hgrown hread
    have hmove : off + padding + m.length ≤ grown.array.length := by omega
    have hzeros : off + (List.replicate padding (0 : UInt8)).length ≤
        (grown.write (off + padding) m).array.length := by
      rw [Buffer.length_write hmove, List.length_replicate]
      omega
    refine ⟨(grown.write (off + padding) m).write off (List.replicate padding 0), ?_, ?_⟩
    · rw [if_neg hzero]
      show (grown.put (off + padding) (window grown.array off (b.len - off))).bind
        (fun moved ↦ moved.put off (List.replicate padding 0)) = _
      rw [hread, Buffer.put_of_le hmove]
      exact Buffer.put_of_le hzeros
    · have hbehind :
          (store (store grown.array (off + padding) m) off (List.replicate padding 0)).drop off =
            List.replicate padding 0 ++ (m ++ grown.array.drop (off + padding + m.length)) := by
        rw [drop_store_start _ (by exact Nat.le_trans (Nat.le_add_right _ _) hzeros),
          List.length_replicate, drop_store_start _ (by omega)]
      have hlen : (List.replicate padding 0 ++ m).length = b.len - off + padding := by
        rw [List.length_append, List.length_replicate, hm, Nat.add_comm]
      show window (store (store grown.array (off + padding) m) off (List.replicate padding 0)) off
        (b.len - off + padding) = _
      rw [window, hbehind, ← List.append_assoc]
      exact List.take_left' hlen

/-- The output without its padding. -/
theorem put_unpad {b : Buffer} {off padding : Nat} {junk enc : Bytes} (hjunk : junk.length = padding)
    (henc : enc.length = b.len) (hfits : off + (padding + b.len) ≤ b.array.length) :
    ∃ u, (b.put off (junk ++ enc)).bind (unpadAt off padding) = some u ∧ u.len = b.len ∧
      u.array.take (off + b.len) = b.array.take off ++ enc := by
  have hput : off + (junk ++ enc).length ≤ b.array.length := by
    rw [List.length_append]
    omega
  have hoff : off ≤ b.array.length := by omega
  rw [Buffer.put_of_le hput, Option.bind_some, unpadAt]
  by_cases hzero : padding = 0
  · have hnil : junk = [] := List.length_eq_zero_iff.mp (hjunk.trans hzero)
    refine ⟨b.write off (junk ++ enc), if_pos hzero, rfl, ?_⟩
    show (store b.array off (junk ++ enc)).take (off + b.len) = _
    rw [hnil, List.nil_append, ← henc]
    exact take_store _ _ _ hoff
  · have hstart : (store b.array off (junk ++ enc)).length = b.array.length := length_store hput
    have hread : window (b.write off (junk ++ enc)).array (off + padding) b.len = enc := by
      show window (store b.array off (junk ++ enc)) (off + padding) b.len = enc
      rw [window, ← List.drop_drop, drop_store_start _ hoff, List.append_assoc, ← hjunk,
        List.drop_left, ← henc, List.take_left]
    have hfit : off + enc.length ≤ (b.write off (junk ++ enc)).array.length := by
      show _ ≤ (store b.array off (junk ++ enc)).length
      omega
    refine ⟨(b.write off (junk ++ enc)).write off enc, ?_, rfl, ?_⟩
    · show (if padding = 0 then _ else (b.write off (junk ++ enc)).put off
        (window (b.write off (junk ++ enc)).array (off + padding) b.len)) = _
      rw [if_neg hzero, hread, Buffer.put_of_le hfit]
    · show (store (store b.array off (junk ++ enc)) off enc).take (off + b.len) = _
      rw [← henc, take_store _ _ _ (by omega), take_store_of_le _ (Nat.le_refl off) hoff]

/-! ## One call -/

/-- What the two functions share: `inp` behind `offIn` is padded and XORed into `out` behind
`offOut`, where the padding is taken off, and the bytes of `out` are copied back. -/
def xorPadded (env : SodiumEnv) (capacity offIn offOut : Nat) (iv : Bytes) (counter : UInt64)
    (out inp : Buffer) : Option Buffer := do
  let padding := counter.toNat % sodiumBlockSize
  let padded ← padAt capacity offIn padding inp
  let out ← out.put offOut
    (cryptoStreamXorIc env.lib (window padded.array offIn (inp.len - offIn + padding)) iv
      (counter / UInt64.ofNat sodiumBlockSize) env.key env.method)
  let out ← unpadAt offOut padding out
  let res ← (padded.brealloc (offOut + out.len) capacity).put 0 (window out.array 0 (offOut + out.len))
  return res.setLen (offOut + out.len)

/-- The keystream from the byte `counter` on, whatever the alignment. -/
theorem xorPadded_spec {env : SodiumEnv} {ks : SodiumMethod → Bytes → Bytes → Nat → UInt8}
    (hlib : env.lib.Correct ks) (capacity : Nat) {offIn offOut : Nat} (iv : Bytes)
    {counter : UInt64} {out inp : Buffer} (hin : inp.len ≤ inp.array.length)
    (hoff : offIn ≤ inp.len) (hlen : out.len = inp.len - offIn)
    (hroom : offOut + (counter.toNat % sodiumBlockSize + out.len) ≤ out.array.length)
    (hbound : counter.toNat + out.len < 2 ^ 38) :
    ∃ res, xorPadded env capacity offIn offOut iv counter out inp = some res ∧
      res.data = out.array.take offOut ++
        xorAt (ks env.method env.key iv) counter.toNat (window inp.array offIn out.len) := by
  have hm : (window inp.array offIn out.len).length = out.len := length_window (by omega)
  generalize hmsg : window inp.array offIn out.len = m at hm
  obtain ⟨padded, hpad, hpadded⟩ :=
    @padAt_spec capacity offIn (counter.toNat % sodiumBlockSize) inp hin hoff
  rw [← hlen, hmsg] at hpadded
  obtain ⟨junk, hjunk, hxor⟩ :=
    cryptoStreamXorIc_padded hlib env.method iv env.key m (by rw [hm]; exact hbound)
  obtain ⟨u, hu, hulen, hubytes⟩ := @put_unpad out offOut _ junk
    (xorAt (ks env.method env.key iv) counter.toNat m) hjunk (by rw [length_xorAt, hm]) hroom
  have hread : window u.array 0 (offOut + u.len) =
      out.array.take offOut ++ xorAt (ks env.method env.key iv) counter.toNat m := by
    rw [window, List.drop_zero, hulen, hubytes]
  have hback : 0 + (window u.array 0 (offOut + u.len)).length ≤
      (padded.brealloc (offOut + u.len) capacity).array.length := by
    have hsize := (padded.le_length_brealloc (offOut + u.len) capacity).2
    have hwindow := length_window_le u.array 0 (offOut + u.len)
    omega
  have hlength : (window u.array 0 (offOut + u.len)).length = offOut + u.len := by
    rw [hread, List.length_append, length_xorAt, hm, hulen, List.length_take]
    omega
  refine ⟨((padded.brealloc (offOut + u.len) capacity).write 0
    (window u.array 0 (offOut + u.len))).setLen (offOut + u.len), ?_, ?_⟩
  · obtain ⟨out₁, hput, hunpad⟩ := Option.bind_eq_some_iff.mp hu
    simp only [xorPadded, hpad, ← hlen, hpadded, hxor, hput, hunpad, Buffer.put_of_le hback,
      Option.bind_eq_bind, Option.bind_some, Option.pure_def]
  · show (store _ 0 (window u.array 0 (offOut + u.len))).take (offOut + u.len) = _
    rw [← hread]
    calc (store _ 0 (window u.array 0 (offOut + u.len))).take (offOut + u.len)
      _ = (store _ 0 (window u.array 0 (offOut + u.len))).take
            (window u.array 0 (offOut + u.len)).length := by rw [hlength]
      _ = window u.array 0 (offOut + u.len) := take_store_zero _ _

/-- The byte of the stream at which a call begins. -/
def SodiumCtx.start (ctx : SodiumCtx) : UInt64 := if ctx.init then ctx.counter else 0

/-- A context behind the first `pos` bytes of the stream with an IV. -/
structure SodiumCtx.At (ctx : SodiumCtx) (iv : Bytes) (pos : Nat) : Prop where
  init : ctx.init = true
  iv : ctx.iv = iv
  counter : ctx.counter.toNat = pos
  bound : pos < 2 ^ 38

/-- The context behind a call. -/
theorem SodiumCtx.at_add {counter : UInt64} {len : Nat} (iv : Bytes)
    (h : counter.toNat + len < 2 ^ 38) :
    SodiumCtx.At ⟨true, iv, counter + UInt64.ofNat len⟩ iv (counter.toNat + len) where
  init := rfl
  iv := rfl
  counter := by
    show (counter + UInt64.ofNat len).toNat = _
    rw [UInt64.toNat_add, UInt64.toNat_ofNat']
    omega
  bound := h

/-- `ss_encrypt` is the shared part behind the IV. -/
theorem sodiumEncrypt_eq (env : SodiumEnv) (capacity : Nat) (tmp : Buffer) (ctx : SodiumCtx)
    (plain : Buffer) {ivLen : Nat} (hivLen : (if ctx.init then 0 else env.method.ivLen) = ivLen) :
    sodiumEncrypt env capacity tmp ctx plain =
      (((tmp.brealloc (ivLen + plain.len) capacity).setLen plain.len).put 0
        (if ctx.init then [] else ctx.iv.take env.method.ivLen)).bind fun cipher ↦
      (xorPadded env capacity 0 ivLen ctx.iv ctx.start (cipher.brealloc
        (ivLen + (ctx.start.toNat % sodiumBlockSize + cipher.len) * 2) capacity) plain).map fun out ↦
      (⟨true, ctx.iv, ctx.start + UInt64.ofNat plain.len⟩, out) := by
  subst hivLen
  simp only [sodiumEncrypt, xorPadded, SodiumCtx.start, Option.bind_eq_bind, Option.pure_def,
    Option.map_bind, Function.comp_def, Option.map_some, Nat.sub_zero]

/-- `ss_decrypt` is the shared part behind the IV, where the IV is accepted. -/
theorem sodiumDecrypt_eq (env : SodiumEnv) {seen : Bytes → Bool} (capacity : Nat) (tmp : Buffer)
    {ctx : SodiumCtx} {cipher : Buffer} {ivLen : Nat} {iv : Bytes}
    (hivLen : (if ctx.init then 0 else env.method.ivLen) = ivLen)
    (hiv : (if ctx.init then ctx.iv else cipher.array.take env.method.ivLen) = iv)
    (hlen : ivLen ≤ cipher.len) (hseen : ctx.init = true ∨ seen iv = false) :
    sodiumDecrypt env seen capacity tmp ctx cipher =
      (xorPadded env capacity ivLen 0 iv ctx.start
        (((tmp.brealloc cipher.len capacity).setLen (cipher.len - ivLen)).brealloc
          ((cipher.len - ivLen + ctx.start.toNat % sodiumBlockSize) * 2) capacity) cipher).map fun out ↦
      (⟨true, iv, ctx.start + UInt64.ofNat (cipher.len - ivLen)⟩, out) := by
  subst hivLen hiv
  have hcheck : (decide (cipher.len < (if ctx.init then 0 else env.method.ivLen)) || (!ctx.init &&
      seen (if ctx.init then ctx.iv else cipher.array.take env.method.ivLen))) = false := by
    rw [Bool.or_eq_false_iff]
    refine ⟨decide_eq_false (by omega), ?_⟩
    rcases hseen with hrunning | hnew
    · rw [hrunning]
      rfl
    · rw [hnew, Bool.and_false]
  simp only [sodiumDecrypt, xorPadded, SodiumCtx.start, hcheck, Bool.false_eq_true, if_false,
    Buffer.len_setLen, Option.bind_eq_bind, Option.pure_def, Option.map_bind, Function.comp_def,
    Option.map_some, Nat.zero_add]

/-- A call of `ss_encrypt`: the IV where it is the first one, and the next bytes of the stream. -/
theorem sodiumEncrypt_spec {env : SodiumEnv} {ks : SodiumMethod → Bytes → Bytes → Nat → UInt8}
    (hlib : env.lib.Correct ks) (capacity : Nat) (tmp : Buffer) {ctx : SodiumCtx} {plain : Buffer}
    (hiv : ctx.iv.length = env.method.ivLen) (hin : plain.len ≤ plain.array.length)
    (hbound : ctx.start.toNat + plain.len < 2 ^ 38) :
    ∃ ctx' out, sodiumEncrypt env capacity tmp ctx plain = some (ctx', out) ∧
      ctx'.At ctx.iv (ctx.start.toNat + plain.len) ∧
      out.data = (if ctx.init then [] else ctx.iv) ++
        xorAt (ks env.method env.key ctx.iv) ctx.start.toNat plain.data := by
  obtain ⟨ivLen, hivLen⟩ : ∃ n, (if ctx.init then 0 else env.method.ivLen) = n := ⟨_, rfl⟩
  obtain ⟨head, hhead⟩ : ∃ b, (if ctx.init then [] else ctx.iv) = b := ⟨_, rfl⟩
  have htaken : (if ctx.init then [] else ctx.iv.take env.method.ivLen) = head := by
    rw [← hhead, ← hiv, List.take_length]
  have hlength : head.length = ivLen := by
    rw [← hhead, ← hivLen, ← hiv]
    cases ctx.init <;> rfl
  rw [sodiumEncrypt_eq env capacity tmp ctx plain hivLen, htaken, hhead]
  have hfreshLen : ((tmp.brealloc (ivLen + plain.len) capacity).setLen plain.len).len = plain.len := rfl
  have hroom : 0 + head.length ≤
      ((tmp.brealloc (ivLen + plain.len) capacity).setLen plain.len).array.length := by
    have h := (tmp.le_length_brealloc (ivLen + plain.len) capacity).2
    show 0 + head.length ≤ (tmp.brealloc (ivLen + plain.len) capacity).array.length
    omega
  generalize (tmp.brealloc (ivLen + plain.len) capacity).setLen plain.len = fresh at hfreshLen hroom
  have hcipherLen : (fresh.write 0 head).len = plain.len := hfreshLen
  obtain ⟨size, hsize⟩ :
      ∃ n, ivLen + (ctx.start.toNat % sodiumBlockSize + (fresh.write 0 head).len) * 2 = n := ⟨_, rfl⟩
  have hstart : ((fresh.write 0 head).brealloc size capacity).array.take ivLen = head := by
    show (store fresh.array 0 head ++ _).take ivLen = head
    have hin : 0 + head.length ≤ (store fresh.array 0 head).length := by
      rw [length_store hroom]
      exact hroom
    rw [← hlength, List.take_append_of_le_length (by omega), take_store_zero]
  have hcipher := ((fresh.write 0 head).le_length_brealloc size capacity).2
  obtain ⟨res, hres, hdata⟩ := @xorPadded_spec env ks hlib capacity 0 ivLen ctx.iv ctx.start
    ((fresh.write 0 head).brealloc size capacity) plain hin (Nat.zero_le _) hcipherLen
    (by rw [Buffer.len_brealloc]; omega) (by rw [Buffer.len_brealloc, hcipherLen]; exact hbound)
  refine ⟨⟨true, ctx.iv, ctx.start + UInt64.ofNat plain.len⟩, res, ?_,
    SodiumCtx.at_add ctx.iv hbound, ?_⟩
  · rw [Buffer.put_of_le hroom, Option.bind_some, hsize, hres, Option.map_some]
  · rw [hdata, hstart, Buffer.len_brealloc, hcipherLen, window, List.drop_zero, Buffer.data]

/-- A call of `ss_decrypt` that has the IV, and accepts it: the next bytes of the stream. -/
theorem sodiumDecrypt_spec {env : SodiumEnv} {ks : SodiumMethod → Bytes → Bytes → Nat → UInt8}
    (hlib : env.lib.Correct ks) {seen : Bytes → Bool} (capacity : Nat) (tmp : Buffer)
    {ctx : SodiumCtx} {cipher : Buffer} {iv enc : Bytes}
    (hiv : if ctx.init then ctx.iv = iv else iv.length = env.method.ivLen ∧ seen iv = false)
    (hin : cipher.len ≤ cipher.array.length)
    (hdata : cipher.data = (if ctx.init then [] else iv) ++ enc)
    (hbound : ctx.start.toNat + enc.length < 2 ^ 38) :
    ∃ ctx' out, sodiumDecrypt env seen capacity tmp ctx cipher = some (ctx', out) ∧
      ctx'.At iv (ctx.start.toNat + enc.length) ∧
      out.data = xorAt (ks env.method env.key iv) ctx.start.toNat enc := by
  obtain ⟨ivLen, hivLen⟩ : ∃ n, (if ctx.init then 0 else env.method.ivLen) = n := ⟨_, rfl⟩
  obtain ⟨head, hhead⟩ : ∃ b, (if ctx.init then [] else iv) = b := ⟨_, rfl⟩
  have hlength : head.length = ivLen := by
    rw [← hhead, ← hivLen]
    cases hinit : ctx.init with
    | true => rfl
    | false =>
      rw [hinit] at hiv
      exact hiv.1
  rw [hhead] at hdata
  have hlen : cipher.len = ivLen + enc.length := by
    rw [← cipher.length_data hin, hdata, List.length_append, hlength]
  have hread : window cipher.array ivLen enc.length = enc := by
    have h : cipher.data.drop ivLen = enc := by rw [hdata, ← hlength, List.drop_left]
    rwa [Buffer.data, List.drop_take, hlen, Nat.add_sub_cancel_left] at h
  have htaken : (if ctx.init then ctx.iv else cipher.array.take env.method.ivLen) = iv := by
    cases hinit : ctx.init with
    | true =>
      rw [hinit] at hiv
      exact hiv
    | false =>
      rw [hinit] at hiv hhead hivLen
      have hmethod : env.method.ivLen = ivLen := hivLen
      have hfirst : iv = head := hhead
      have h : cipher.data.take ivLen = head := by rw [hdata, ← hlength, List.take_left]
      rw [Buffer.data, List.take_take, Nat.min_eq_left (by omega)] at h
      show cipher.array.take env.method.ivLen = iv
      rw [hmethod, h, hfirst]
  have hseen : ctx.init = true ∨ seen iv = false := by
    cases hinit : ctx.init with
    | true => exact .inl rfl
    | false =>
      rw [hinit] at hiv
      exact .inr hiv.2
  rw [sodiumDecrypt_eq env capacity tmp hivLen htaken (by omega) hseen]
  have hrest : cipher.len - ivLen = enc.length := by omega
  rw [hrest]
  obtain ⟨size, hsize⟩ :
      ∃ n, (enc.length + ctx.start.toNat % sodiumBlockSize) * 2 = n := ⟨_, rfl⟩
  have hplain : (((tmp.brealloc cipher.len capacity).setLen enc.length).brealloc size capacity).len =
      enc.length := rfl
  have hroom := (((tmp.brealloc cipher.len capacity).setLen enc.length).le_length_brealloc size
    capacity).2
  rw [hsize]
  generalize ((tmp.brealloc cipher.len capacity).setLen enc.length).brealloc size capacity = plain
    at hplain hroom
  obtain ⟨res, hres, hout⟩ := @xorPadded_spec env ks hlib capacity ivLen 0 iv ctx.start plain cipher
    hin (by omega) (by omega) (by omega) (by omega)
  refine ⟨⟨true, iv, ctx.start + UInt64.ofNat enc.length⟩, res, ?_,
    SodiumCtx.at_add iv hbound, ?_⟩
  · rw [hres, Option.map_some]
  · rw [hout, hplain, hread, List.take_zero, List.nil_append]

/-! ## Runs -/

/-- A call of `ss_encrypt` or `ss_decrypt`: its buffer, and the static one as it is then. -/
structure SodiumCall where
  capacity : Nat
  tmp : Buffer
  buf : Buffer

/-- The bytes of a call lie in the block. -/
def SodiumCall.Ok (c : SodiumCall) : Prop := c.buf.len ≤ c.buf.array.length

/-- The bytes that consecutive calls are given. -/
def callBytes (calls : List SodiumCall) : Bytes := (calls.map fun c ↦ c.buf.data).flatten

/-- The sender takes a call. -/
def encryptCall (env : SodiumEnv) (ctx : SodiumCtx) (c : SodiumCall) : Option (SodiumCtx × Bytes) :=
  (sodiumEncrypt env c.capacity c.tmp ctx c.buf).map fun r ↦ (r.1, r.2.data)

/-- The receiver takes a call. -/
def decryptCall (env : SodiumEnv) (seen : Bytes → Bool) (ctx : SodiumCtx) (c : SodiumCall) :
    Option (SodiumCtx × Bytes) :=
  (sodiumDecrypt env seen c.capacity c.tmp ctx c.buf).map fun r ↦ (r.1, r.2.data)

section Runs
variable {env : SodiumEnv} {ks : SodiumMethod → Bytes → Bytes → Nat → UInt8}

/-- A running context begins where it stands. -/
theorem SodiumCtx.At.start_eq {ctx : SodiumCtx} {iv : Bytes} {pos : Nat} (h : ctx.At iv pos) :
    ctx.start.toNat = pos := by
  rw [SodiumCtx.start, if_pos h.init, h.counter]

/-- A running sender takes a call as the byte machine takes its bytes. -/
theorem encryptCall_running (hlib : env.lib.Correct ks) {iv : Bytes}
    (hiv : iv.length = env.method.ivLen) (ctx : SodiumCtx) (pos : Nat) (c : SodiumCall) (pos' : Nat)
    (out : Bytes) (hctx : ctx.At iv pos) (hc : c.Ok)
    (h : Stream.runAll (xorByte (ks env.method env.key iv) (2 ^ 38)) pos c.buf.data = some (pos', out)) :
    ∃ ctx', encryptCall env ctx c = some (ctx', out) ∧ ctx'.At iv pos' := by
  obtain ⟨hbound, rfl, rfl⟩ := of_runAll_xorByte hctx.bound h
  have hstart := hctx.start_eq
  rw [c.buf.length_data hc] at hbound ⊢
  obtain ⟨ctx', out, hrun, hat, hout⟩ := sodiumEncrypt_spec hlib c.capacity c.tmp
    (by rw [hctx.iv]; exact hiv) hc (by rw [hstart]; exact hbound)
  refine ⟨ctx', ?_, ?_⟩
  · rw [encryptCall, hrun, Option.map_some, hout, if_pos hctx.init, hctx.iv, hstart]
    rfl
  · rw [hctx.iv, hstart] at hat
    exact hat

/-- A running receiver takes a call as the byte machine takes its bytes. -/
theorem decryptCall_running (hlib : env.lib.Correct ks) {seen : Bytes → Bool} {iv : Bytes}
    (ctx : SodiumCtx) (pos : Nat) (c : SodiumCall) (pos' : Nat) (out : Bytes) (hctx : ctx.At iv pos)
    (hc : c.Ok)
    (h : Stream.runAll (xorByte (ks env.method env.key iv) (2 ^ 38)) pos c.buf.data = some (pos', out)) :
    ∃ ctx', decryptCall env seen ctx c = some (ctx', out) ∧ ctx'.At iv pos' := by
  obtain ⟨hbound, rfl, rfl⟩ := of_runAll_xorByte hctx.bound h
  have hstart := hctx.start_eq
  obtain ⟨ctx', out, hrun, hat, hout⟩ := @sodiumDecrypt_spec env ks hlib seen c.capacity c.tmp ctx
    c.buf iv c.buf.data (by rw [if_pos hctx.init]; exact hctx.iv) hc
    (by rw [if_pos hctx.init, List.nil_append]) (by rw [hstart]; exact hbound)
  refine ⟨ctx', ?_, ?_⟩
  · rw [decryptCall, hrun, Option.map_some, hout, hstart]
  · rw [hstart] at hat
    exact hat

/-- The first call of the sender puts the IV in front. -/
theorem encryptCall_first (hlib : env.lib.Correct ks) {iv : Bytes}
    (hiv : iv.length = env.method.ivLen) (counter : UInt64) {c : SodiumCall} (hc : c.Ok)
    (hbound : c.buf.len < 2 ^ 38) :
    ∃ ctx', encryptCall env ⟨false, iv, counter⟩ c =
      some (ctx', iv ++ xorAt (ks env.method env.key iv) 0 c.buf.data) ∧
      ctx'.At iv c.buf.data.length := by
  obtain ⟨ctx', out, hrun, hat, hout⟩ := @sodiumEncrypt_spec env ks hlib c.capacity c.tmp
    ⟨false, iv, counter⟩ c.buf hiv hc (by show 0 + c.buf.len < 2 ^ 38; omega)
  refine ⟨ctx', ?_, ?_⟩
  · rw [encryptCall, hrun, Option.map_some, hout]
    rfl
  · have hpos : 0 + c.buf.len = c.buf.data.length := by rw [Nat.zero_add, c.buf.length_data hc]
    rw [← hpos]
    exact hat

/-- The first call of the receiver takes the IV off. -/
theorem decryptCall_first (hlib : env.lib.Correct ks) {seen : Bytes → Bool} {iv enc : Bytes}
    (hiv : iv.length = env.method.ivLen) (hseen : seen iv = false) {ctx : SodiumCtx}
    (hctx : ctx.init = false) {c : SodiumCall} (hc : c.Ok) (hdata : c.buf.data = iv ++ enc)
    (hbound : enc.length < 2 ^ 38) :
    ∃ ctx', decryptCall env seen ctx c = some (ctx', xorAt (ks env.method env.key iv) 0 enc) ∧
      ctx'.At iv enc.length := by
  have hstart : ctx.start.toNat = 0 := by
    rw [SodiumCtx.start, hctx]
    rfl
  obtain ⟨ctx', out, hrun, hat, hout⟩ := @sodiumDecrypt_spec env ks hlib seen c.capacity c.tmp ctx
    c.buf iv enc (by rw [hctx]; exact ⟨hiv, hseen⟩) hc (by rw [hctx]; exact hdata)
    (by rw [hstart]; omega)
  refine ⟨ctx', ?_, ?_⟩
  · rw [decryptCall, hrun, Option.map_some, hout, hstart]
  · rw [hstart, Nat.zero_add] at hat
    exact hat

@[simp] theorem callBytes_cons (c : SodiumCall) (calls : List SodiumCall) :
    callBytes (c :: calls) = c.buf.data ++ callBytes calls := by
  rw [callBytes, List.map_cons, List.flatten_cons, callBytes]

/-- The sender puts out the IV and the one stream. -/
theorem encrypt_run (hlib : env.lib.Correct ks) {iv : Bytes} (hiv : iv.length = env.method.ivLen)
    (counter : UInt64) {calls : List SodiumCall} (hcalls : ∀ c ∈ calls, c.Ok)
    (hbound : (callBytes calls).length < 2 ^ 38) :
    ∃ ctx, Stream.runAll (encryptCall env) ⟨false, iv, counter⟩ calls = some (ctx,
      (if calls.isEmpty then [] else iv) ++ xorAt (ks env.method env.key iv) 0 (callBytes calls)) := by
  cases calls with
  | nil => exact ⟨_, rfl⟩
  | cons c calls =>
    obtain ⟨hc, hcalls⟩ := List.forall_mem_cons.mp hcalls
    rw [callBytes_cons, List.length_append] at hbound
    have hlen := c.buf.length_data hc
    obtain ⟨ctx₁, hfirst, hat⟩ := encryptCall_first hlib hiv counter hc (by omega)
    obtain ⟨ctx, hrest, -⟩ := Stream.runAll_of_pieces
      (fun t s k s' out ht hk ↦ encryptCall_running hlib hiv t s k s' out ht hk) hat hcalls
      (runAll_xorByte (ks env.method env.key iv) hbound)
    refine ⟨ctx, ?_⟩
    rw [Stream.runAll, hfirst, Option.bind_some, hrest, Option.map_some, callBytes_cons, xorAt_append,
      Nat.zero_add, List.append_assoc]
    rfl

/-- The receiver puts out the one stream behind the IV, however it is cut. -/
theorem decrypt_run (hlib : env.lib.Correct ks) {seen : Bytes → Bool} {iv enc : Bytes}
    (hiv : iv.length = env.method.ivLen) (hseen : seen iv = false) {ctx : SodiumCtx}
    (hctx : ctx.init = false) {c : SodiumCall} {calls : List SodiumCall}
    (hcalls : ∀ s ∈ c :: calls, s.Ok) (hshort : iv.length ≤ c.buf.len)
    (hdata : callBytes (c :: calls) = iv ++ enc) (hbound : enc.length < 2 ^ 38) :
    ∃ ctx', Stream.runAll (decryptCall env seen) ctx (c :: calls) =
      some (ctx', xorAt (ks env.method env.key iv) 0 enc) := by
  obtain ⟨hc, hcalls⟩ := List.forall_mem_cons.mp hcalls
  rw [callBytes_cons] at hdata
  have hprefix : iv <+: c.buf.data := by
    apply List.prefix_of_prefix_length_le (List.prefix_append iv enc)
    · rw [← hdata]
      exact List.prefix_append _ _
    · rw [c.buf.length_data hc]
      exact hshort
  obtain ⟨enc₁, henc₁⟩ := hprefix
  have henc : enc = enc₁ ++ callBytes calls := by
    rw [← henc₁, List.append_assoc] at hdata
    exact (List.append_cancel_left hdata).symm
  rw [henc, List.length_append] at hbound
  obtain ⟨ctx₁, hfirst, hat⟩ := decryptCall_first hlib hiv hseen hctx hc henc₁.symm (by omega)
  obtain ⟨ctx', hrest, -⟩ := Stream.runAll_of_pieces
    (fun t s k s' out ht hk ↦ decryptCall_running hlib t s k s' out ht hk) hat hcalls
    (runAll_xorByte (ks env.method env.key iv) hbound)
  refine ⟨ctx', ?_⟩
  rw [Stream.runAll, hfirst, Option.bind_some, hrest, Option.map_some, henc, xorAt_append,
    Nat.zero_add]
  rfl

end Runs

/-! ## As a stream cipher -/

/-- The methods as a stream cipher: the state is the IV and the position. -/
def sodiumCipher (ks : Bytes → Nat → UInt8) (method : SodiumMethod) : StreamCipher (Bytes × Nat) where
  ivLen := method.ivLen
  checksIv := true
  setIv iv := (iv, 0)
  encrypt s p := ((s.1, s.2 + p.length), xorAt (ks s.1) s.2 p)
  decrypt s c := ((s.1, s.2 + c.length), xorAt (ks s.1) s.2 c)
  ivLen_le := by cases method <;> decide
  encrypt_append s p q := by
    rw [List.length_append, xorAt_append, Nat.add_assoc]
  length_encrypt s p := length_xorAt _ _ _
  decrypt_encrypt s p := by
    rw [length_xorAt, xorAt_xorAt]

/-- A context of the code and one of the stream cipher that stand at the same byte. -/
structure SodiumCtx.Refines (ctx : SodiumCtx) (e : EncCtx (Bytes × Nat)) : Prop where
  init : ctx.init = e.init
  running : e.init = true → ctx.At e.evp.1 e.evp.2

section Refinement
variable {env : SodiumEnv} {ks : SodiumMethod → Bytes → Bytes → Nat → UInt8}

/-- `ss_encrypt` does what it does with the stream cipher. -/
theorem sodiumEncrypt_refines (hlib : env.lib.Correct ks) (capacity : Nat) (tmp : Buffer)
    {ctx : SodiumCtx} {e : EncCtx (Bytes × Nat)} {plain : Buffer} (hctx : ctx.Refines e)
    (hiv : ctx.iv.length = env.method.ivLen) (hin : plain.len ≤ plain.array.length)
    (hbound : ctx.start.toNat + plain.len < 2 ^ 38) :
    ∃ ctx' out, sodiumEncrypt env capacity tmp ctx plain = some (ctx', out) ∧
      ctx'.Refines (ssEncrypt (sodiumCipher (ks env.method env.key) env.method) ctx.iv e plain).1 ∧
      out.data =
        (ssEncrypt (sodiumCipher (ks env.method env.key) env.method) ctx.iv e plain).2.data := by
  obtain ⟨ctx', out, hrun, hat, hout⟩ := sodiumEncrypt_spec hlib capacity tmp hiv hin hbound
  have hlen := plain.length_data hin
  refine ⟨ctx', out, hrun, ?_⟩
  unfold ssEncrypt
  cases hinit : e.init with
  | true =>
    have hrunning := hctx.running hinit
    rw [hrunning.start_eq, hrunning.iv, ← hlen] at hat
    rw [if_pos (hctx.init.trans hinit), hrunning.start_eq, hrunning.iv] at hout
    refine ⟨⟨hat.init, fun _ ↦ hat⟩, ?_⟩
    rw [hout, List.nil_append]
    exact (Buffer.data_assign _ _).symm
  | false =>
    have hnew : ctx.init = false := hctx.init.trans hinit
    have hstart : ctx.start.toNat = 0 := by
      rw [SodiumCtx.start, hnew]
      rfl
    rw [hstart, ← hlen] at hat
    rw [hnew, hstart] at hout
    refine ⟨⟨hat.init, fun _ ↦ hat⟩, ?_⟩
    rw [hout, if_neg Bool.false_ne_true]
    exact (Buffer.data_assign _ _).symm

/-- `ss_decrypt` does what it does with the stream cipher, where the IV has arrived whole. -/
theorem sodiumDecrypt_refines (hlib : env.lib.Correct ks) (seen : Bytes → Bool) (capacity : Nat)
    (tmp : Buffer) {ctx : SodiumCtx} {e : EncCtx (Bytes × Nat)} {cipher : Buffer}
    (hctx : ctx.Refines e) (hin : cipher.len ≤ cipher.array.length)
    (hlen : ctx.init = true ∨ env.method.ivLen ≤ cipher.len)
    (hbound : ctx.start.toNat + cipher.len < 2 ^ 38) :
    match ssDecrypt (sodiumCipher (ks env.method env.key) env.method) seen e cipher with
    | none => sodiumDecrypt env seen capacity tmp ctx cipher = none
    | some (e', plain) => ∃ ctx' out, sodiumDecrypt env seen capacity tmp ctx cipher = some (ctx', out) ∧
        ctx'.Refines e' ∧ out.data = plain.data := by
  cases hinit : e.init with
  | true =>
    have hrunning := hctx.running hinit
    obtain ⟨ctx', out, hrun, hat, hout⟩ := @sodiumDecrypt_spec env ks hlib seen capacity tmp ctx cipher
      e.evp.1 cipher.data (by rw [if_pos hrunning.init]; exact hrunning.iv) hin
      (by rw [if_pos hrunning.init, List.nil_append]) (by rw [cipher.length_data hin]; exact hbound)
    rw [hrunning.start_eq] at hat hout
    rw [ssDecrypt, if_pos hinit]
    refine ⟨ctx', out, hrun, ⟨hat.init, fun _ ↦ hat⟩, ?_⟩
    rw [hout]
    exact (Buffer.data_assign _ _).symm
  | false =>
    have hnew : ctx.init = false := hctx.init.trans hinit
    have hwhole : env.method.ivLen ≤ cipher.len := by
      rcases hlen with hrunning | hwhole
      · exact absurd (hnew.symm.trans hrunning) Bool.false_ne_true
      · exact hwhole
    have hstart : ctx.start.toNat = 0 := by
      rw [SodiumCtx.start, hnew]
      rfl
    obtain ⟨iv, hiv⟩ : ∃ b, cipher.array.take env.method.ivLen = b := ⟨_, rfl⟩
    obtain ⟨enc, henc⟩ :
        ∃ b, window cipher.array env.method.ivLen (cipher.len - env.method.ivLen) = b := ⟨_, rfl⟩
    have hss : ssDecrypt (sodiumCipher (ks env.method env.key) env.method) seen e cipher =
        if seen iv then none
        else some (⟨true, (iv, 0 + enc.length)⟩,
          (cipher.brealloc (xorAt (ks env.method env.key iv) 0 enc).length bufSize).assign
            (xorAt (ks env.method env.key iv) 0 enc)) := by
      rw [ssDecrypt, hinit, if_neg Bool.false_ne_true, ← hiv, ← henc]
      rfl
    rw [hss]
    cases hseen : seen iv with
    | true =>
      show sodiumDecrypt env seen capacity tmp ctx cipher = none
      simp [sodiumDecrypt, hnew, hiv, hseen]
    | false =>
      have hdata : cipher.data = iv ++ enc := by
        rw [← hiv, ← henc, window, ← List.drop_take, Buffer.data]
        calc cipher.array.take cipher.len
          _ = (cipher.array.take cipher.len).take env.method.ivLen ++
              (cipher.array.take cipher.len).drop env.method.ivLen :=
            (List.take_append_drop _ _).symm
          _ = _ := by rw [List.take_take, Nat.min_eq_left hwhole]
      have hlength : iv.length = env.method.ivLen := by
        rw [← hiv, List.length_take]
        omega
      have hpart : enc.length ≤ cipher.len := by
        rw [← cipher.length_data hin, hdata, List.length_append]
        omega
      obtain ⟨ctx', out, hrun, hat, hout⟩ := @sodiumDecrypt_spec env ks hlib seen capacity tmp ctx
        cipher iv enc (by rw [hnew]; exact ⟨hlength, hseen⟩) hin (by rw [hnew]; exact hdata)
        (by omega)
      rw [hstart] at hat hout
      refine ⟨ctx', out, hrun, ⟨hat.init, fun _ ↦ hat⟩, ?_⟩
      rw [hout]
      exact (Buffer.data_assign _ _).symm

end Refinement

/-- Whatever the calls of the sender and the segments of the receiver, the wire is the IV and the
plaintext XORed with the one keystream, and the receiver puts out the plaintext. -/
theorem sodium_stream_delivers {lib : Libsodium} {ks : SodiumMethod → Bytes → Bytes → Nat → UInt8}
    (hlib : lib.Correct ks) (method : SodiumMethod) (key : Bytes) {iv : Bytes}
    (hiv : iv.length = method.ivLen) (counter : UInt64) {calls : List SodiumCall}
    (hcalls : ∀ c ∈ calls, c.Ok) (hbound : (callBytes calls).length < 2 ^ 38) :
    ∃ ctx wire, Stream.runAll (encryptCall ⟨lib, method, key⟩) ⟨false, iv, counter⟩ calls =
        some (ctx, wire) ∧
      wire = (if calls.isEmpty then [] else iv) ++ xorAt (ks method key iv) 0 (callBytes calls) ∧
      ∀ (seen : Bytes → Bool) (recv : SodiumCtx) (segs : List SodiumCall),
        seen iv = false → recv.init = false → (∀ s ∈ segs, s.Ok) →
        (∀ s ∈ segs.head?, method.ivLen < s.buf.len) → callBytes segs = wire →
        ∃ recv', Stream.runAll (decryptCall ⟨lib, method, key⟩ seen) recv segs =
          some (recv', callBytes calls) := by
  obtain ⟨ctx, hsend⟩ := @encrypt_run ⟨lib, method, key⟩ ks hlib iv hiv counter calls hcalls hbound
  refine ⟨ctx, _, hsend, rfl, ?_⟩
  intro seen recv segs hseen hrecv hsegs hfirst hwire
  have hback := xorAt_xorAt (ks method key iv) 0 (callBytes calls)
  cases calls with
  | nil =>
    cases segs with
    | nil => exact ⟨recv, rfl⟩
    | cons s segs =>
      have hlong := hfirst s rfl
      have hin := s.buf.length_data (hsegs s List.mem_cons_self)
      have hnil : s.buf.data ++ callBytes segs = [] := (callBytes_cons s segs).symm.trans hwire
      rw [(List.append_eq_nil_iff.mp hnil).1, List.length_nil] at hin
      omega
  | cons c calls =>
    have hdata : callBytes segs = iv ++ xorAt (ks method key iv) 0 (callBytes (c :: calls)) := hwire
    cases segs with
    | nil =>
      have hlen := congrArg List.length hdata
      rw [List.length_append, hiv] at hlen
      have hpos : 0 < method.ivLen := by cases method <;> decide
      have hnone : (callBytes []).length = 0 := rfl
      omega
    | cons s segs =>
      have hlong := hfirst s rfl
      obtain ⟨recv', hrun⟩ := @decrypt_run ⟨lib, method, key⟩ ks hlib seen iv
        (xorAt (ks method key iv) 0 (callBytes (c :: calls))) hiv hseen recv hrecv s segs hsegs
        (by omega) hdata (by rw [length_xorAt]; exact hbound)
      rw [hback] at hrun
      exact ⟨recv', hrun⟩

/-- A call with the given bytes. -/
def callOf (bs : Bytes) : SodiumCall := ⟨bufSize, Buffer.balloc [], Buffer.ofBytes bs⟩

/-- The second of two calls goes over the end of a block, and the first of two segments ends behind
the IV. -/
theorem two_calls_delivered :
    ∃ ctx wire recv,
      Stream.runAll (encryptCall ⟨libsodium, .chacha20Ietf, List.replicate 32 7⟩)
        ⟨false, List.replicate 12 9, 0⟩ [callOf (List.replicate 60 1), callOf (List.replicate 10 2)] =
          some (ctx, wire) ∧
      Stream.runAll (decryptCall ⟨libsodium, .chacha20Ietf, List.replicate 32 7⟩ fun _ ↦ false)
        ⟨false, [], 0⟩ [callOf (wire.take 13), callOf (wire.drop 13)] =
          some (recv, List.replicate 60 1 ++ List.replicate 10 2) := by
  have hcalls : ∀ c ∈ [callOf (List.replicate 60 1), callOf (List.replicate 10 2)], c.Ok :=
    List.forall_mem_cons.mpr ⟨Nat.le_refl _, List.forall_mem_singleton.mpr (Nat.le_refl _)⟩
  obtain ⟨ctx, wire, hsend, hwire, hrecv⟩ := @sodium_stream_delivers libsodium sodiumKeystream
    libsodium_correct .chacha20Ietf (List.replicate 32 7) (List.replicate 12 9) rfl 0 _ hcalls
    (by decide)
  have hlen : wire.length = 82 := by
    rw [hwire, List.length_append, length_xorAt]
    rfl
  have hjoin : callBytes [callOf (wire.take 13), callOf (wire.drop 13)] = wire := by
    rw [callBytes_cons, callBytes_cons]
    show (Buffer.ofBytes _).data ++ ((Buffer.ofBytes _).data ++ []) = wire
    rw [Buffer.data_ofBytes, Buffer.data_ofBytes, List.append_nil, List.take_append_drop]
  have hfirst : ∀ s ∈ [callOf (wire.take 13), callOf (wire.drop 13)].head?, 12 < s.buf.len := by
    intro s hs
    cases hs
    show 12 < (wire.take 13).length
    rw [List.length_take, hlen]
    decide
  obtain ⟨recv, hrun⟩ := hrecv (fun _ ↦ false) ⟨false, [], 0⟩ _ rfl rfl
    (List.forall_mem_cons.mpr ⟨Nat.le_refl _, List.forall_mem_singleton.mpr (Nat.le_refl _)⟩) hfirst
    hjoin
  exact ⟨ctx, wire, recv, hsend, hrun⟩

end OpenWrtCompile.Server
