import OpenWrtCompile.Server.Buffer

/-!
# Encryption of a connection

`shadowsocksr-libev/src/server/encrypt.c:1347–1430` `ss_decrypt` and, for the responses, `1199–1271`
`ss_encrypt`. The first call takes the IV off the front, or puts it there, and sets up the context;
every call then runs the stream cipher over the rest. The cipher itself (OpenSSL, mbed TLS or
libsodium) is a parameter: a stream cipher whose output is as long as its input and depends on the
bytes processed so far, not on how they were cut into calls.
-/

namespace OpenWrtCompile.Server
open OpenWrtCompile.Base

/-- A stream cipher as the server uses it: `σ` is the running state of `cipher_ctx_t`. -/
structure StreamCipher (σ : Type) where
  /-- `enc_get_iv_len()`; the table `supported_ciphers_iv_size` has nothing above 16. -/
  ivLen : Nat
  /-- `enc_method > RC4`: the IV of a new context must not have been seen. -/
  checksIv : Bool
  /-- `cipher_context_set_iv`. -/
  setIv : Bytes → σ
  /-- One encryption call. -/
  encrypt : σ → Bytes → σ × Bytes
  /-- One decryption call (`cipher_context_update` or `crypto_stream_xor_ic`). -/
  decrypt : σ → Bytes → σ × Bytes
  ivLen_le : ivLen ≤ 16
  encrypt_append : ∀ s p q, encrypt s (p ++ q) =
    ((encrypt (encrypt s p).1 q).1, (encrypt s p).2 ++ (encrypt (encrypt s p).1 q).2)
  length_encrypt : ∀ s p, (encrypt s p).2.length = p.length
  decrypt_encrypt : ∀ s p, decrypt s (encrypt s p).2 = ((encrypt s p).1, p)

/-- A cipher to run examples with: every byte is XORed with `c`, after an eight-byte IV. -/
def xorCipher (c : UInt8) : StreamCipher Unit where
  ivLen := 8
  checksIv := true
  setIv _ := ()
  encrypt _ p := ((), p.map (· ^^^ c))
  decrypt _ p := ((), p.map (· ^^^ c))
  ivLen_le := by decide
  encrypt_append _ p q := by rw [List.map_append]
  length_encrypt _ p := List.length_map _
  decrypt_encrypt _ p := by
    have h (x : UInt8) : x ^^^ c ^^^ c = x := by rw [UInt8.xor_assoc, UInt8.xor_self, UInt8.xor_zero]
    simp only [List.map_map, Function.comp_def, h, List.map_id']

/-- `enc_ctx_t` of the decrypting direction. -/
structure EncCtx (σ : Type) where
  init : Bool
  evp : σ

variable {σ : Type}

/-- `ss_decrypt`; `none` is the `-1` return. `seen` is `cache_key_exist(iv_cache, iv)`. -/
def ssDecrypt (k : StreamCipher σ) (seen : Bytes → Bool) (ctx : EncCtx σ) (cipher : Buffer) :
    Option (EncCtx σ × Buffer) :=
  if ctx.init then
    let out := k.decrypt ctx.evp (window cipher.array 0 cipher.len)
    some (⟨true, out.1⟩, (cipher.brealloc out.2.length bufSize).assign out.2)
  else
    let iv := cipher.array.take k.ivLen
    if k.checksIv && seen iv then none
    else
      let out := k.decrypt (k.setIv iv) (window cipher.array k.ivLen (cipher.len - k.ivLen))
      some (⟨true, out.1⟩, (cipher.brealloc out.2.length bufSize).assign out.2)

/-- `ss_encrypt`; `iv` is the IV that `enc_ctx_init` drew, which precedes the first output. -/
def ssEncrypt (k : StreamCipher σ) (iv : Bytes) (ctx : EncCtx σ) (plain : Buffer) :
    EncCtx σ × Buffer :=
  if ctx.init then
    let out := k.encrypt ctx.evp plain.data
    (⟨true, out.1⟩, (plain.brealloc out.2.length bufSize).assign out.2)
  else
    let out := k.encrypt (k.setIv iv) plain.data
    (⟨true, out.1⟩, (plain.brealloc (iv ++ out.2).length bufSize).assign (iv ++ out.2))

/-- The sender's side of a connection: the ciphertext of consecutive plaintext segments. -/
def encryptSegments (k : StreamCipher σ) : σ → List Bytes → List Bytes
  | _, [] => []
  | s, p :: ps => (k.encrypt s p).2 :: encryptSegments k (k.encrypt s p).1 ps

/-- The segments on the wire: the IV precedes the first ciphertext. -/
def wire (k : StreamCipher σ) (iv : Bytes) : List Bytes → List Bytes
  | [] => []
  | p :: ps =>
    (iv ++ (k.encrypt (k.setIv iv) p).2) :: encryptSegments k (k.encrypt (k.setIv iv) p).1 ps

/-- A running context turns the next ciphertext into its plaintext. -/
theorem ssDecrypt_running (k : StreamCipher σ) (seen : Bytes → Bool) (s : σ) (b : Buffer)
    (p : Bytes) (h : b.data = (k.encrypt s p).2) :
    ssDecrypt k seen ⟨true, s⟩ b =
      some (⟨true, (k.encrypt s p).1⟩, (b.brealloc p.length bufSize).assign p) := by
  have hw : window b.array 0 b.len = (k.encrypt s p).2 := by
    rw [← h]
    rfl
  simp only [ssDecrypt, if_true, hw, k.decrypt_encrypt]

/-- A new context takes the IV off and turns the rest into its plaintext. -/
theorem ssDecrypt_first (k : StreamCipher σ) (seen : Bytes → Bool) (s : σ) (b : Buffer)
    (iv p : Bytes) (hiv : iv.length = k.ivLen) (hseen : seen iv = false)
    (h : b.data = iv ++ (k.encrypt (k.setIv iv) p).2) (hl : b.len ≤ b.array.length) :
    ssDecrypt k seen ⟨false, s⟩ b =
      some (⟨true, (k.encrypt (k.setIv iv) p).1⟩, (b.brealloc p.length bufSize).assign p) := by
  have hlen : b.len = k.ivLen + (k.encrypt (k.setIv iv) p).2.length := by
    rw [← b.length_data hl, h, List.length_append, hiv]
  have htake : b.array.take k.ivLen = iv := by
    have ht : b.data.take k.ivLen = iv := by rw [h, ← hiv, List.take_left]
    rwa [Buffer.data, List.take_take, Nat.min_eq_left (by omega)] at ht
  have hwin : window b.array k.ivLen (b.len - k.ivLen) = (k.encrypt (k.setIv iv) p).2 := by
    have hd : b.data.drop k.ivLen = (k.encrypt (k.setIv iv) p).2 := by
      rw [h, ← hiv, List.drop_left]
    rwa [Buffer.data, List.drop_take] at hd
  simp only [ssDecrypt, htake, hseen, Bool.and_false, hwin, k.decrypt_encrypt]
  rfl

end OpenWrtCompile.Server
