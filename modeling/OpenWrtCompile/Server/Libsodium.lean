import OpenWrtCompile.Base.Keystream

/-!
# libsodium as the server uses it

`shadowsocksr-libev/src/server/encrypt.c:293–308` `crypto_stream_xor_ic`, the methods from `SALSA20`
on and their IV sizes. The functions of libsodium are parameters: each XORs its input with the
keystream of key and nonce from the block on that it is given. `libsodium` has them for Salsa20 and
ChaCha20.
-/

namespace OpenWrtCompile.Server
open OpenWrtCompile.Base

/-- `SODIUM_BLOCK_SIZE`. -/
def sodiumBlockSize : Nat := 64

/-- The methods from `SALSA20` on. -/
inductive SodiumMethod where
  | salsa20
  | chacha20
  | chacha20Ietf
  deriving DecidableEq, Repr

/-- `supported_ciphers_iv_size`. -/
def SodiumMethod.ivLen : SodiumMethod → Nat
  | .salsa20 => 8
  | .chacha20 => 8
  | .chacha20Ietf => 12

/-- The functions of libsodium: the output for a message, a nonce, the number of the first block and
a key. -/
structure Libsodium where
  salsa20XorIc : Bytes → Bytes → UInt64 → Bytes → Bytes
  chacha20XorIc : Bytes → Bytes → UInt64 → Bytes → Bytes
  chacha20IetfXorIc : Bytes → Bytes → UInt32 → Bytes → Bytes

/-- `crypto_stream_xor_ic`. -/
def cryptoStreamXorIc (lib : Libsodium) (m n : Bytes) (ic : UInt64) (k : Bytes) :
    SodiumMethod → Bytes
  | .salsa20 => lib.salsa20XorIc m n ic k
  | .chacha20 => lib.chacha20XorIc m n ic k
  | .chacha20Ietf => lib.chacha20IetfXorIc m n ic.toUInt32 k

/-- `*_xor_ic` XORs with the keystream from the given block on, below 2^38 bytes. -/
structure Libsodium.Correct (lib : Libsodium) (ks : SodiumMethod → Bytes → Bytes → Nat → UInt8) :
    Prop where
  salsa20 : ∀ m n ic k, sodiumBlockSize * ic.toNat + m.length < 2 ^ 38 →
    lib.salsa20XorIc m n ic k = xorAt (ks .salsa20 k n) (sodiumBlockSize * ic.toNat) m
  chacha20 : ∀ m n ic k, sodiumBlockSize * ic.toNat + m.length < 2 ^ 38 →
    lib.chacha20XorIc m n ic k = xorAt (ks .chacha20 k n) (sodiumBlockSize * ic.toNat) m
  chacha20Ietf : ∀ m n ic k, sodiumBlockSize * ic.toNat + m.length < 2 ^ 38 →
    lib.chacha20IetfXorIc m n ic k = xorAt (ks .chacha20Ietf k n) (sodiumBlockSize * ic.toNat) m

/-- `crypto_stream_xor_ic` below 2^38 bytes, where the block number fits the 32 bits of
`CHACHA20IETF`. -/
theorem Libsodium.Correct.cryptoStreamXorIc_eq {lib : Libsodium}
    {ks : SodiumMethod → Bytes → Bytes → Nat → UInt8} (hlib : lib.Correct ks) (method : SodiumMethod)
    (m n k : Bytes) {ic : UInt64} (hbound : sodiumBlockSize * ic.toNat + m.length < 2 ^ 38) :
    cryptoStreamXorIc lib m n ic k method =
      xorAt (ks method k n) (sodiumBlockSize * ic.toNat) m := by
  cases method with
  | salsa20 => exact hlib.salsa20 m n ic k hbound
  | chacha20 => exact hlib.chacha20 m n ic k hbound
  | chacha20Ietf =>
    have hic : ic.toUInt32.toNat = ic.toNat := by
      rw [UInt64.toNat_toUInt32]
      apply Nat.mod_eq_of_lt
      unfold sodiumBlockSize at hbound
      omega
    have h := hlib.chacha20Ietf m n ic.toUInt32 k
    rw [hic] at h
    exact h hbound

/-- The blocks of `crypto_stream_xor_ic` from the one that holds byte `c` on, for a message that is
padded up to that byte. -/
theorem cryptoStreamXorIc_padded {lib : Libsodium}
    {ks : SodiumMethod → Bytes → Bytes → Nat → UInt8} (hlib : lib.Correct ks) (method : SodiumMethod)
    (n k m : Bytes) {counter : UInt64} (hbound : counter.toNat + m.length < 2 ^ 38) :
    ∃ junk : Bytes, junk.length = counter.toNat % sodiumBlockSize ∧
      cryptoStreamXorIc lib (List.replicate (counter.toNat % sodiumBlockSize) 0 ++ m) n
          (counter / UInt64.ofNat sodiumBlockSize) k method =
        junk ++ xorAt (ks method k n) counter.toNat m := by
  have hic : (counter / UInt64.ofNat sodiumBlockSize).toNat = counter.toNat / sodiumBlockSize := by
    rw [UInt64.toNat_div]
    rfl
  have hpos : sodiumBlockSize * (counter.toNat / sodiumBlockSize) +
      counter.toNat % sodiumBlockSize = counter.toNat := Nat.div_add_mod _ _
  refine ⟨xorAt (ks method k n) (sodiumBlockSize * (counter.toNat / sodiumBlockSize))
    (List.replicate (counter.toNat % sodiumBlockSize) 0), ?_, ?_⟩
  · rw [length_xorAt, List.length_replicate]
  · rw [hlib.cryptoStreamXorIc_eq, hic, xorAt_append, List.length_replicate, hpos]
    rw [hic, List.length_append, List.length_replicate]
    omega

/-! ## Salsa20 and ChaCha20 -/

/-- The words of a little-endian byte string. -/
def littleEndianWords : Bytes → List UInt32
  | a :: b :: c :: d :: rest =>
    (a.toUInt32 ||| b.toUInt32 <<< 8 ||| c.toUInt32 <<< 16 ||| d.toUInt32 <<< 24) ::
      littleEndianWords rest
  | _ => []

/-- The bytes of a word, the lowest first. -/
def littleEndianBytes (w : UInt32) : Bytes :=
  [w.toUInt8, (w >>> 8).toUInt8, (w >>> 16).toUInt8, (w >>> 24).toUInt8]

/-- A rotation to the left. -/
def rotateLeft (x n : UInt32) : UInt32 := (x <<< n) ||| (x >>> (32 - n))

/-- A word of the state. -/
def wordAt (x : List UInt32) (i : Nat) : UInt32 := x[i]?.getD 0

/-- `x[i] ^= (x[j] + x[k]) <<< n`, the step of Salsa20. -/
def salsaStep (x : List UInt32) (i j k : Nat) (n : UInt32) : List UInt32 :=
  x.set i (wordAt x i ^^^ rotateLeft (wordAt x j + wordAt x k) n)

/-- The quarter round of Salsa20. -/
def salsaQuarter (x : List UInt32) : Nat × Nat × Nat × Nat → List UInt32
  | (a, b, c, d) => salsaStep (salsaStep (salsaStep (salsaStep x b a d 7) c b a 9) d c b 13) a d c 18

/-- `x[a] += x[b]; x[d] = (x[d] ^ x[a]) <<< n`, the step of ChaCha20. -/
def chachaStep (x : List UInt32) (a b d : Nat) (n : UInt32) : List UInt32 :=
  let sum := wordAt x a + wordAt x b
  (x.set a sum).set d (rotateLeft (wordAt x d ^^^ sum) n)

/-- The quarter round of ChaCha20. -/
def chachaQuarter (x : List UInt32) : Nat × Nat × Nat × Nat → List UInt32
  | (a, b, c, d) =>
    chachaStep (chachaStep (chachaStep (chachaStep x a b d 16) c d b 12) a b d 8) c d b 7

/-- Two rounds of Salsa20: the columns and the rows. -/
def salsaRounds (x : List UInt32) : List UInt32 :=
  [(0, 4, 8, 12), (5, 9, 13, 1), (10, 14, 2, 6), (15, 3, 7, 11),
    (0, 1, 2, 3), (5, 6, 7, 4), (10, 11, 8, 9), (15, 12, 13, 14)].foldl salsaQuarter x

/-- Two rounds of ChaCha20: the columns and the diagonals. -/
def chachaRounds (x : List UInt32) : List UInt32 :=
  [(0, 4, 8, 12), (1, 5, 9, 13), (2, 6, 10, 14), (3, 7, 11, 15),
    (0, 5, 10, 15), (1, 6, 11, 12), (2, 7, 8, 13), (3, 4, 9, 14)].foldl chachaQuarter x

/-- The bytes of a block: twenty rounds, and the state before them added. -/
def blockBytes (rounds : List UInt32 → List UInt32) (x : List UInt32) : Bytes :=
  (List.zipWith (· + ·) (rounds^[10] x) x).flatMap littleEndianBytes

/-- The constant of both ciphers. -/
def sigma : List UInt32 := littleEndianWords (ascii "expand 32-byte k")

/-- A block of a method: its state has the constant, the key, the nonce and the block number. -/
def sodiumBlock (k n : Bytes) (ic : UInt64) : SodiumMethod → Bytes
  | .salsa20 =>
    let key := littleEndianWords k
    blockBytes salsaRounds (sigma.take 1 ++ key.take 4 ++ (sigma.drop 1).take 1 ++
      littleEndianWords n ++ [ic.toUInt32, (ic >>> 32).toUInt32] ++ (sigma.drop 2).take 1 ++
      key.drop 4 ++ sigma.drop 3)
  | .chacha20 => blockBytes chachaRounds
      (sigma ++ littleEndianWords k ++ [ic.toUInt32, (ic >>> 32).toUInt32] ++ littleEndianWords n)
  | .chacha20Ietf => blockBytes chachaRounds
      (sigma ++ littleEndianWords k ++ [ic.toUInt32] ++ littleEndianWords n)

/-- The keystream of a method: its blocks, one after the other. -/
def sodiumKeystream (method : SodiumMethod) (k n : Bytes) (pos : Nat) : UInt8 :=
  (sodiumBlock k n (UInt64.ofNat (pos / sodiumBlockSize)) method)[pos % sodiumBlockSize]?.getD 0

/-- libsodium with these ciphers. -/
def libsodium : Libsodium where
  salsa20XorIc m n ic k := xorAt (sodiumKeystream .salsa20 k n) (sodiumBlockSize * ic.toNat) m
  chacha20XorIc m n ic k := xorAt (sodiumKeystream .chacha20 k n) (sodiumBlockSize * ic.toNat) m
  chacha20IetfXorIc m n ic k :=
    xorAt (sodiumKeystream .chacha20Ietf k n) (sodiumBlockSize * ic.toNat) m

/-- These functions start at the block they are given. -/
theorem libsodium_correct : libsodium.Correct sodiumKeystream where
  salsa20 _ _ _ _ _ := rfl
  chacha20 _ _ _ _ _ := rfl
  chacha20Ietf _ _ _ _ _ := rfl

end OpenWrtCompile.Server
