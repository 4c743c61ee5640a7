import OpenWrtCompile.Base.Base64
import Mathlib.Logic.Function.Basic

/-!
# The base64 functions of the server

`base64_encode` and `base64_decode` of `shadowsocksr-libev/src/server/base64.c`. Lengths and indices are
`unsigned int`; a read outside the input or the decoding table ends the run.
-/

namespace OpenWrtCompile.Server
open OpenWrtCompile.Base

/-- `base64en`. -/
def base64en : Bytes := ascii "ABCDEFGHIJKLMNOPQRSTUVWXYZabcdefghijklmnopqrstuvwxyz0123456789+/"

/-- `base64de`, from `+` to `z` behind 43 unused entries. -/
def base64de : List Int :=
  List.replicate 43 (-1) ++ [62, -1, -1, -1, 63, 52, 53, 54, 55, 56, 57, 58, 59, 60, 61, -1, -1, -1,
    -1, -1, -1, -1, 0, 1, 2, 3, 4, 5, 6, 7, 8, 9, 10, 11, 12, 13, 14, 15, 16, 17, 18, 19, 20, 21, 22,
    23, 24, 25, -1, -1, -1, -1, -1, -1, 26, 27, 28, 29, 30, 31, 32, 33, 34, 35, 36, 37, 38, 39, 40, 41,
    42, 43, 44, 45, 46, 47, 48, 49, 50, 51]

/-- The decoding table ends at `z`. -/
theorem length_base64de : base64de.length = 123 := rfl

/-- `unsigned int`. -/
def wrap (n : Nat) : Nat := n % 2 ^ 32

/-- The memory at `out`, and `j`. -/
structure Out where
  mem : Nat → UInt8
  j : Nat

/-- `out[j] = c`. -/
def Out.assign (o : Out) (c : UInt8) : Out := { o with mem := Function.update o.mem o.j c }

/-- `out[j++] = c`. -/
def Out.put (o : Out) (c : UInt8) : Out := { o.assign c with j := wrap (o.j + 1) }

/-- `out[j++] += c`. -/
def Out.add (o : Out) (c : UInt8) : Out := o.put (o.mem o.j + c)

/-- `in[i]`. -/
def byteAt (data : Bytes) (i : Nat) : Nat := (data[i]?.getD 0).toNat

/-- `base64en[n]`. -/
def enChar (n : Nat) : UInt8 := base64en[n]?.getD 0

/-- What one pass of the loop of `base64_encode` writes. -/
def encodePass (data : Bytes) (i : Nat) : Bytes :=
  match i % 3 with
  | 0 => [enChar ((byteAt data i >>> 2) &&& 0x3F)]
  | 1 => [enChar (((byteAt data (i - 1) &&& 0x3) <<< 4) + ((byteAt data i >>> 4) &&& 0xF))]
  | _ => [enChar (((byteAt data (i - 1) &&& 0xF) <<< 2) + ((byteAt data i >>> 6) &&& 0x3)),
      enChar (byteAt data i &&& 0x3F)]

/-- What `base64_encode` writes behind its loop, from `i` moved back on. -/
def encodeEnd (data : Bytes) (inlen : Nat) : Bytes :=
  let i := wrap (inlen + (2 ^ 32 - 1))
  if i % 3 = 0 then [enChar ((byteAt data i &&& 0x3) <<< 4), 0x3D, 0x3D]
  else if i % 3 = 1 then [enChar ((byteAt data i &&& 0xF) <<< 2), 0x3D]
  else []

/-- `base64_encode(in, inlen, out)`. -/
def base64Encode (data : Bytes) (out : Nat → UInt8) : Out :=
  let inlen := wrap data.length
  let o := (List.range inlen).foldl (fun o i ↦ (encodePass data i).foldl Out.put o) ⟨out, 0⟩
  (encodeEnd data inlen).foldl Out.put o

/-- `BASE64_OK` and `BASE64_INVALID`. -/
inductive Base64Result where
  | ok
  | invalid
  deriving DecidableEq, Repr

/-- `i < (inlen - k) || in[inlen - (k - 1)] != '='`, where the right side is only read if needed. -/
def notPadded (text : Bytes) (inlen i k : Nat) : Option Bool :=
  if i < wrap (inlen + (2 ^ 32 - k)) then some true
  else (text[wrap (inlen + (2 ^ 32 - (k - 1)))]?).map fun c ↦ decide (c ≠ 0x3D)

/-- The `switch` of `base64_decode`. -/
def decodePass (text : Bytes) (inlen i c : Nat) (o : Out) : Option Out :=
  match i % 4 with
  | 0 => some (o.assign (UInt8.ofNat ((c <<< 2) &&& 0xFF)))
  | 1 => (notPadded text inlen i 3).map fun more ↦
    let o := o.add (UInt8.ofNat ((c >>> 4) &&& 0x3))
    if more then o.assign (UInt8.ofNat ((c &&& 0xF) <<< 4)) else o
  | 2 => (notPadded text inlen i 2).map fun more ↦
    let o := o.add (UInt8.ofNat ((c >>> 2) &&& 0xF))
    if more then o.assign (UInt8.ofNat ((c &&& 0x3) <<< 6)) else o
  | _ => some (o.add (UInt8.ofNat c))

/-- The loop of `base64_decode` with `n` characters left from `i` on. A negative `char` is below `+`, an
unsigned one from 128 on is above `z`: both end the loop. -/
def decodeLoop (text : Bytes) (inlen : Nat) : Nat → Nat → Out → Option (Base64Result × Out)
  | 0, _, o => some (.ok, o)
  | n + 1, i, o => do
    let x ← text[i]?
    if x = 0x3D then some (.ok, o)
    else if x < 0x2B ∨ 0x7A < x then some (.invalid, o)
    else do
      let c ← base64de[x.toNat]?
      if c = -1 then some (.invalid, o)
      else do
        let o' ← decodePass text inlen i c.toNat o
        decodeLoop text inlen n (i + 1) o'

/-- `base64_decode(in, inlen, out)`. -/
def base64Decode (text : Bytes) (out : Nat → UInt8) : Option (Base64Result × Out) :=
  let inlen := wrap text.length
  decodeLoop text inlen inlen 0 ⟨out, 0⟩

/-- The memory after `l` has been written to its start. -/
def overlay (out : Nat → UInt8) (l : Bytes) (k : Nat) : UInt8 := l[k]?.getD (out k)

/-- The characters of the table. -/
theorem enChar_eq {n : Nat} (h : n < 64) : enChar n = Base64.symbol n := by
  have hall : ∀ k : Fin 64, enChar k = Base64.symbol k := by decide +kernel
  exact hall ⟨n, h⟩

/-- The entries of the decoding table. -/
theorem base64de_symbol {n : Nat} (h : n < 64) :
    base64de[(Base64.symbol n).toNat]? = some (n : Int) ∧ Base64.symbol n ≠ 0x3D ∧
      ¬ (Base64.symbol n < 0x2B ∨ 0x7A < Base64.symbol n) := by
  have hall : ∀ k : Fin 64, base64de[(Base64.symbol k).toNat]? = some ((k : Nat) : Int) ∧
      Base64.symbol k ≠ 0x3D ∧ ¬ (Base64.symbol k < 0x2B ∨ 0x7A < Base64.symbol k) := by
    decide +kernel
  exact hall ⟨n, h⟩

/-- A character put behind what has been written. -/
theorem put_overlay (out : Nat → UInt8) (l : Bytes) (c : UInt8) :
    Out.put ⟨overlay out l, l.length⟩ c = ⟨overlay out (l ++ [c]), wrap (l.length + 1)⟩ := by
  unfold Out.put Out.assign
  simp only [Out.mk.injEq, and_true]
  funext k
  unfold overlay
  by_cases hk : k = l.length
  · rw [hk, Function.update_self, List.getElem?_concat_length]
    rfl
  · rw [Function.update_of_ne hk]
    by_cases hlt : k < l.length
    · rw [List.getElem?_append_left hlt]
    · rw [List.getElem?_eq_none (by omega), List.getElem?_eq_none (by simp; omega)]

/-- Characters put behind what has been written, as far as `j` counts. -/
theorem foldl_put_overlay (out : Nat → UInt8) (l chars : Bytes)
    (h : l.length + chars.length < 2 ^ 32) :
    chars.foldl Out.put ⟨overlay out l, l.length⟩ =
      ⟨overlay out (l ++ chars), (l ++ chars).length⟩ := by
  induction chars generalizing l with
  | nil => rw [List.append_nil]; rfl
  | cons c chars ih =>
    rw [List.length_cons] at h
    have hnext := ih (l ++ [c]) (by rw [List.length_append, List.length_singleton]; omega)
    rw [List.length_append, List.length_singleton] at hnext
    rw [List.foldl_cons, put_overlay, wrap, Nat.mod_eq_of_lt (by omega), hnext, List.append_assoc,
      List.singleton_append]

/-- A group in front of the padded text. -/
theorem padded_cons (a b c : UInt8) (rest : Bytes) :
    Base64.padded (a :: b :: c :: rest) =
      Base64.symbol (a.toNat / 4) :: Base64.symbol (a.toNat % 4 * 16 + b.toNat / 16) ::
        Base64.symbol (b.toNat % 16 * 4 + c.toNat / 64) :: Base64.symbol (c.toNat % 64) ::
        Base64.padded rest := by
  have hmod : ((Base64.encode rest).length + 4) % 4 = (Base64.encode rest).length % 4 :=
    Nat.add_mod_right _ 4
  show Base64.encode (a :: b :: c :: rest) ++
    List.replicate ((4 - ((Base64.encode rest).length + 4) % 4) % 4) 0x3D = _
  rw [hmod]
  rfl

/-- The length of the padded text. -/
theorem length_padded (data : Bytes) :
    (Base64.padded data).length = (data.length + 2) / 3 * 4 := by
  fun_induction Base64.encode data with
  | case1 => rfl
  | case2 a => simp [Base64.padded, Base64.encode]
  | case3 a b => simp [Base64.padded, Base64.encode]
  | case4 a b c rest ih =>
    rw [padded_cons]
    simp only [List.length_cons, ih]
    omega

/-- The masks and shifts of both functions. -/
theorem and_mask (n k : Nat) : n &&& (2 ^ k - 1) = n % 2 ^ k := Nat.and_two_pow_sub_one_eq_mod n k

/-- Passes three bytes further on. -/
theorem encodePass_add_three (a b c : UInt8) (rest : Bytes) (i : Nat) :
    encodePass (a :: b :: c :: rest) (i + 3) = encodePass rest i := by
  have hat : ∀ k, byteAt (a :: b :: c :: rest) (k + 3) = byteAt rest k := fun k ↦ rfl
  unfold encodePass
  rw [Nat.add_mod_right]
  obtain h | h := Nat.eq_zero_or_pos (i % 3)
  · rw [h]
    simp only [hat]
  · have hprev : byteAt (a :: b :: c :: rest) (i + 3 - 1) = byteAt rest (i - 1) := by
      rw [show i + 3 - 1 = i - 1 + 3 by omega, hat]
    simp only [hat, hprev]

/-- The first passes write the characters of a group. -/
theorem encodePass_group (a b c : UInt8) (rest : Bytes) :
    encodePass (a :: rest) 0 = [Base64.symbol (a.toNat / 4)] ∧
      encodePass (a :: b :: rest) 1 = [Base64.symbol (a.toNat % 4 * 16 + b.toNat / 16)] ∧
      encodePass (a :: b :: c :: rest) 2 =
        [Base64.symbol (b.toNat % 16 * 4 + c.toNat / 64), Base64.symbol (c.toNat % 64)] := by
  have ha := a.toNat_lt
  have hb := b.toNat_lt
  have hc := c.toNat_lt
  have hfirst : (a.toNat >>> 2) &&& 0x3F = a.toNat / 4 := by
    rw [show 0x3F = 2 ^ 6 - 1 from rfl, and_mask, Nat.shiftRight_eq_div_pow]
    omega
  have hsecond : ((a.toNat &&& 0x3) <<< 4) + ((b.toNat >>> 4) &&& 0xF) =
      a.toNat % 4 * 16 + b.toNat / 16 := by
    rw [show 0x3 = 2 ^ 2 - 1 from rfl, show 0xF = 2 ^ 4 - 1 from rfl, and_mask, and_mask,
      Nat.shiftRight_eq_div_pow, Nat.shiftLeft_eq]
    omega
  have hthird : ((b.toNat &&& 0xF) <<< 2) + ((c.toNat >>> 6) &&& 0x3) =
      b.toNat % 16 * 4 + c.toNat / 64 := by
    rw [show 0x3 = 2 ^ 2 - 1 from rfl, show 0xF = 2 ^ 4 - 1 from rfl, and_mask, and_mask,
      Nat.shiftRight_eq_div_pow, Nat.shiftLeft_eq]
    omega
  have hfourth : c.toNat &&& 0x3F = c.toNat % 64 := and_mask _ 6
  refine ⟨?_, ?_, ?_⟩
  · show [enChar ((a.toNat >>> 2) &&& 0x3F)] = _
    rw [hfirst, enChar_eq (by omega)]
  · show [enChar (((a.toNat &&& 0x3) <<< 4) + ((b.toNat >>> 4) &&& 0xF))] = _
    rw [hsecond, enChar_eq (by omega)]
  · show [enChar (((b.toNat &&& 0xF) <<< 2) + ((c.toNat >>> 6) &&& 0x3)),
      enChar (c.toNat &&& 0x3F)] = _
    rw [hthird, hfourth, enChar_eq (by omega), enChar_eq (by omega)]

/-- The end of the text depends on the last group. -/
theorem encodeEnd_add_three (a b c : UInt8) (rest : Bytes) {n : Nat} (hpos : 0 < n)
    (h : n + 3 < 2 ^ 32) : encodeEnd (a :: b :: c :: rest) (n + 3) = encodeEnd rest n := by
  have hwrap : wrap (n + 3 + (2 ^ 32 - 1)) = wrap (n + (2 ^ 32 - 1)) + 3 := by
    unfold wrap
    omega
  have hat : ∀ k, byteAt (a :: b :: c :: rest) (k + 3) = byteAt rest k := fun k ↦ rfl
  simp only [encodeEnd, hwrap, Nat.add_mod_right, hat]

/-- What `base64_encode` writes, in order. -/
def written (data : Bytes) (inlen : Nat) : Bytes :=
  (List.range inlen).flatMap (encodePass data) ++ encodeEnd data inlen

/-- A group in front of what is written. -/
theorem written_group (a b c : UInt8) (rest : Bytes) (n : Nat) :
    (List.range (n + 3)).flatMap (encodePass (a :: b :: c :: rest)) =
      Base64.symbol (a.toNat / 4) :: Base64.symbol (a.toNat % 4 * 16 + b.toNat / 16) ::
        Base64.symbol (b.toNat % 16 * 4 + c.toNat / 64) :: Base64.symbol (c.toNat % 64) ::
        (List.range n).flatMap (encodePass rest) := by
  obtain ⟨hfirst, -, -⟩ := encodePass_group a b c (b :: c :: rest)
  obtain ⟨-, hsecond, -⟩ := encodePass_group a b c (c :: rest)
  obtain ⟨-, -, hthird⟩ := encodePass_group a b c rest
  have hshift : (fun i ↦ encodePass (a :: b :: c :: rest) (3 + i)) = encodePass rest := by
    funext i
    rw [Nat.add_comm, encodePass_add_three]
  rw [Nat.add_comm, List.range_add, List.flatMap_append, List.flatMap_map, hshift]
  show encodePass (a :: b :: c :: rest) 0 ++ (encodePass (a :: b :: c :: rest) 1 ++
    (encodePass (a :: b :: c :: rest) 2 ++ [])) ++ _ = _
  rw [hfirst, hsecond, hthird]
  rfl

/-- `base64_encode` writes the padded text. -/
theorem written_eq_padded {data : Bytes} (hne : data ≠ []) (h : data.length < 2 ^ 32) :
    written data data.length = Base64.padded data := by
  fun_induction Base64.encode data with
  | case1 => exact absurd rfl hne
  | case2 a =>
    obtain ⟨hfirst, -, -⟩ := encodePass_group a a a []
    have hend : encodeEnd [a] 1 = [enChar ((a.toNat &&& 0x3) <<< 4), 0x3D, 0x3D] := rfl
    show encodePass [a] 0 ++ [] ++ encodeEnd [a] 1 = _
    rw [hfirst, hend, show 0x3 = 2 ^ 2 - 1 from rfl, and_mask, Nat.shiftLeft_eq,
      enChar_eq (by omega)]
    rfl
  | case3 a b =>
    obtain ⟨hfirst, -, -⟩ := encodePass_group a a a [b]
    obtain ⟨-, hsecond, -⟩ := encodePass_group a b b []
    have hend : encodeEnd [a, b] 2 = [enChar ((b.toNat &&& 0xF) <<< 2), 0x3D] := rfl
    show encodePass [a, b] 0 ++ (encodePass [a, b] 1 ++ []) ++ encodeEnd [a, b] 2 = _
    rw [hfirst, hsecond, hend, show 0xF = 2 ^ 4 - 1 from rfl, and_mask, Nat.shiftLeft_eq,
      enChar_eq (by omega)]
    rfl
  | case4 a b c rest ih =>
    rw [List.length_cons, List.length_cons, List.length_cons] at h
    show (List.range (rest.length + 3)).flatMap (encodePass (a :: b :: c :: rest)) ++
      encodeEnd (a :: b :: c :: rest) (rest.length + 3) = _
    rw [written_group, padded_cons]
    by_cases hrest : rest = []
    · rw [hrest]
      rfl
    · have hpos := List.length_pos_iff.mpr hrest
      rw [encodeEnd_add_three a b c rest hpos (by omega), ← ih hrest (by omega)]
      rfl

/-- What `base64_encode` leaves in memory. -/
theorem base64Encode_eq {data : Bytes} (hne : data ≠ []) (h : data.length ≤ 3221225469)
    (out : Nat → UInt8) :
    base64Encode data out =
      ⟨overlay out (Base64.padded data), (Base64.padded data).length⟩ := by
  have hlen : (Base64.padded data).length < 2 ^ 32 := by
    rw [length_padded]
    omega
  have hwrap : wrap data.length = data.length := Nat.mod_eq_of_lt (by omega)
  have hwritten := written_eq_padded hne (by omega)
  have hput := foldl_put_overlay out [] (written data data.length) (by rw [hwritten]; simpa using hlen)
  rw [List.nil_append, hwritten] at hput
  rw [← hput, ← hwritten, written, List.foldl_append, List.foldl_flatMap]
  simp only [base64Encode, hwrap]
  rfl

/-- A value assigned first and added to then. -/
theorem add_assign (o : Out) (x y : Nat) :
    (o.assign (UInt8.ofNat x)).add (UInt8.ofNat y) = o.put (UInt8.ofNat (x + y)) := by
  unfold Out.add Out.put Out.assign
  simp only [Function.update_self, Function.update_idem, UInt8.ofNat_add]

/-- A character of the table takes the loop to its pass. -/
theorem decodeLoop_symbol {text : Bytes} {i c : Nat} (h : text[i]? = some (Base64.symbol c))
    (hc : c < 64) (inlen n : Nat) (o : Out) :
    decodeLoop text inlen (n + 1) i o =
      (decodePass text inlen i c o).bind (decodeLoop text inlen n (i + 1)) := by
  obtain ⟨hentry, hpad, hrange⟩ := base64de_symbol hc
  have hvalue : ¬ ((c : Int) = -1) := by omega
  show (text[i]?).bind _ = _
  rw [h]
  show (if Base64.symbol c = 0x3D then _ else _) = _
  rw [if_neg hpad, if_neg hrange]
  show (base64de[(Base64.symbol c).toNat]?).bind _ = _
  rw [hentry, Option.bind_some, if_neg hvalue]
  rfl

/-- The loop ends at padding. -/
theorem decodeLoop_pad {text : Bytes} {i : Nat} (h : text[i]? = some 0x3D) (inlen n : Nat) (o : Out) :
    decodeLoop text inlen (n + 1) i o = some (.ok, o) := by
  show (text[i]?).bind _ = _
  rw [h]
  rfl

/-- The first character of a group. -/
theorem decodePass_zero (text : Bytes) {i c : Nat} (hi : i % 4 = 0) (hc : c < 64) (inlen : Nat)
    (o : Out) : decodePass text inlen i c o = some (o.assign (UInt8.ofNat (c * 4))) := by
  have hvalue : (c <<< 2) &&& 0xFF = c * 4 := by
    rw [show 0xFF = 2 ^ 8 - 1 from rfl, and_mask, Nat.shiftLeft_eq]
    omega
  simp only [decodePass, hi, hvalue]

/-- The second character of a group completes its first byte. -/
theorem decodePass_one {text : Bytes} {inlen i c : Nat} {more : Bool} (hi : i % 4 = 1) (hc : c < 64)
    (hmore : notPadded text inlen i 3 = some more) (x : Nat) (o : Out) :
    decodePass text inlen i c (o.assign (UInt8.ofNat x)) =
      some (if more then (o.put (UInt8.ofNat (x + c / 16))).assign (UInt8.ofNat (c % 16 * 16))
        else o.put (UInt8.ofNat (x + c / 16))) := by
  have hupper : (c >>> 4) &&& 0x3 = c / 16 := by
    rw [show 0x3 = 2 ^ 2 - 1 from rfl, and_mask, Nat.shiftRight_eq_div_pow]
    omega
  have hlower : (c &&& 0xF) <<< 4 = c % 16 * 16 := by
    rw [show 0xF = 2 ^ 4 - 1 from rfl, and_mask, Nat.shiftLeft_eq]
    rfl
  simp only [decodePass, hi, hmore, hupper, hlower, add_assign, Option.map_some]

/-- The third character of a group completes its second byte. -/
theorem decodePass_two {text : Bytes} {inlen i c : Nat} {more : Bool} (hi : i % 4 = 2) (hc : c < 64)
    (hmore : notPadded text inlen i 2 = some more) (x : Nat) (o : Out) :
    decodePass text inlen i c (o.assign (UInt8.ofNat x)) =
      some (if more then (o.put (UInt8.ofNat (x + c / 4))).assign (UInt8.ofNat (c % 4 * 64))
        else o.put (UInt8.ofNat (x + c / 4))) := by
  have hupper : (c >>> 2) &&& 0xF = c / 4 := by
    rw [show 0xF = 2 ^ 4 - 1 from rfl, and_mask, Nat.shiftRight_eq_div_pow]
    omega
  have hlower : (c &&& 0x3) <<< 6 = c % 4 * 64 := by
    rw [show 0x3 = 2 ^ 2 - 1 from rfl, and_mask, Nat.shiftLeft_eq]
    rfl
  simp only [decodePass, hi, hmore, hupper, hlower, add_assign, Option.map_some]

/-- The last character of a group completes its third byte. -/
theorem decodePass_three (text : Bytes) {i : Nat} (hi : i % 4 = 3) (inlen c x : Nat) (o : Out) :
    decodePass text inlen i c (o.assign (UInt8.ofNat x)) = some (o.put (UInt8.ofNat (x + c))) := by
  simp only [decodePass, hi, add_assign]

/-- The test for padding with an `inlen` that counts far enough. -/
theorem notPadded_eq {text : Bytes} {k : Nat} (hk : 2 ≤ k) (hlen : k ≤ text.length)
    (h : text.length < 2 ^ 32) (i : Nat) :
    notPadded text text.length i k =
      if i < text.length - k then some true
      else (text[text.length - (k - 1)]?).map fun c ↦ decide (c ≠ 0x3D) := by
  have hend : wrap (text.length + (2 ^ 32 - k)) = text.length - k := by
    unfold wrap
    omega
  have hlast : wrap (text.length + (2 ^ 32 - (k - 1))) = text.length - (k - 1) := by
    unfold wrap
    omega
  rw [notPadded, hend, hlast]

/-- A character of the table there is no padding. -/
theorem notPadded_symbol {text : Bytes} {k : Nat} (hk : 2 ≤ k) (hlen : k ≤ text.length)
    (h : text.length < 2 ^ 32) (i : Nat) {c : Nat} (hc : c < 64)
    (hat : text[text.length - (k - 1)]? = some (Base64.symbol c)) :
    notPadded text text.length i k = some true := by
  obtain ⟨-, hpad, -⟩ := base64de_symbol hc
  rw [notPadded_eq hk hlen h, hat, Option.map_some, decide_eq_true hpad]
  split <;> rfl

/-- A whole group is three bytes. -/
theorem decodeLoop_group {text : Bytes} {inlen i c₁ c₂ c₃ c₄ : Nat} (hi : i % 4 = 0)
    (hc₁ : c₁ < 64) (hc₂ : c₂ < 64) (hc₃ : c₃ < 64) (hc₄ : c₄ < 64)
    (h₁ : text[i]? = some (Base64.symbol c₁)) (h₂ : text[i + 1]? = some (Base64.symbol c₂))
    (h₃ : text[i + 2]? = some (Base64.symbol c₃)) (h₄ : text[i + 3]? = some (Base64.symbol c₄))
    (hmore₂ : notPadded text inlen (i + 1) 3 = some true)
    (hmore₃ : notPadded text inlen (i + 2) 2 = some true) (n : Nat) (o : Out) :
    decodeLoop text inlen (n + 4) i o = decodeLoop text inlen n (i + 4)
      ([UInt8.ofNat (c₁ * 4 + c₂ / 16), UInt8.ofNat (c₂ % 16 * 16 + c₃ / 4),
        UInt8.ofNat (c₃ % 4 * 64 + c₄)].foldl Out.put o) := by
  rw [decodeLoop_symbol h₁ hc₁, decodePass_zero text hi hc₁, Option.bind_some,
    decodeLoop_symbol h₂ hc₂, decodePass_one (by omega) hc₂ hmore₂, if_pos rfl, Option.bind_some,
    decodeLoop_symbol h₃ hc₃, decodePass_two (by omega) hc₃ hmore₃, if_pos rfl, Option.bind_some,
    decodeLoop_symbol h₄ hc₄, decodePass_three text (by omega), Option.bind_some]
  rfl

/-- A character behind a start of the text. -/
theorem getElem?_behind (start rest : Bytes) (k : Nat) :
    (start ++ rest)[start.length + k]? = rest[k]? := by
  rw [List.getElem?_append_right (Nat.le_add_right _ _), Nat.add_sub_cancel_left]

/-- Before the end of a whole group the test for padding fails. -/
theorem notPadded_group {text : Bytes} {i k c : Nat} (hk : 2 ≤ k) (hlen : k ≤ text.length)
    (h : text.length < 2 ^ 32) (hc : c < 64) (hat : text[i + 1]? = some (Base64.symbol c))
    (hi : i + k ≤ text.length) : notPadded text text.length i k = some true := by
  obtain hlt | hend := Nat.lt_or_eq_of_le hi
  · rw [notPadded_eq hk hlen h, if_pos (by omega)]
  · have hidx : text.length - (k - 1) = i + 1 := by omega
    exact notPadded_symbol hk hlen h i hc (by rw [hidx, hat])

/-- From the start of a group on, the loop writes the bytes of the padded rest. -/
theorem decodeLoop_padded {text : Bytes} (data start : Bytes) (o : Out)
    (htext : text = start ++ Base64.padded data) (hstart : start.length % 4 = 0)
    (h : text.length < 2 ^ 32) :
    decodeLoop text text.length (Base64.padded data).length start.length o =
      some (.ok, data.foldl Out.put o) := by
  have hat : ∀ k, text[start.length + k]? = (Base64.padded data)[k]? := by
    intro k
    rw [htext, List.getElem?_append_right (Nat.le_add_right _ _), Nat.add_sub_cancel_left]
  have hlen : text.length = start.length + (data.length + 2) / 3 * 4 := by
    rw [htext, List.length_append, length_padded]
  fun_induction Base64.encode data generalizing start o with
  | case1 => rfl
  | case2 a =>
    have ha := a.toNat_lt
    simp only [List.length_cons, List.length_nil] at hlen
    have hidx : text.length - (3 - 1) = start.length + 2 := by omega
    have hmore : notPadded text text.length (start.length + 1) 3 = some false := by
      rw [notPadded_eq (by omega) (by omega) h, if_neg (by omega), hidx, hat 2]
      rfl
    have hbyte := Base64.byte_of_six_two a (by omega : 0 < 16)
    show decodeLoop text text.length 4 start.length o = _
    rw [decodeLoop_symbol (i := start.length) (hat 0) (by omega), decodePass_zero text hstart (by omega),
      Option.bind_some, decodeLoop_symbol (hat 1) (by omega),
      decodePass_one (by omega) (by omega) hmore, Option.bind_some, decodeLoop_pad (hat 2)]
    rw [Nat.add_zero] at hbyte
    rw [hbyte]
    rfl
  | case3 a b =>
    have ha := a.toNat_lt
    have hb := b.toNat_lt
    simp only [List.length_cons, List.length_nil] at hlen
    have hidx : text.length - (2 - 1) = start.length + 3 := by omega
    have hmore₂ : notPadded text text.length (start.length + 1) 3 = some true :=
      notPadded_group (by omega) (by omega) h (by omega) (hat 2) (by omega)
    have hmore₃ : notPadded text text.length (start.length + 2) 2 = some false := by
      rw [notPadded_eq (by omega) (by omega) h, if_neg (by omega), hidx, hat 3]
      rfl
    have hlast := Base64.byte_of_four_four (a.toNat % 4) b (by omega : 0 < 4)
    rw [Nat.add_zero] at hlast
    show decodeLoop text text.length 4 start.length o = _
    rw [decodeLoop_symbol (i := start.length) (hat 0) (by omega), decodePass_zero text hstart (by omega),
      Option.bind_some, decodeLoop_symbol (hat 1) (by omega),
      decodePass_one (by omega) (by omega) hmore₂, if_pos rfl, Option.bind_some,
      decodeLoop_symbol (hat 2) (by omega), decodePass_two (by omega) (by omega) hmore₃,
      Option.bind_some, decodeLoop_pad (hat 3), Base64.byte_of_six_two a (by omega), hlast]
    rfl
  | case4 a b c rest ih =>
    have ha := a.toNat_lt
    have hb := b.toNat_lt
    have hc := c.toNat_lt
    rw [padded_cons] at htext hat ⊢
    have hfrom : start.length + 4 ≤ text.length := by
      rw [htext, List.length_append]
      simp only [List.length_cons]
      omega
    rw [List.length_cons, List.length_cons, List.length_cons, List.length_cons,
      decodeLoop_group hstart (by omega) (by omega) (by omega) (by omega) (hat 0) (hat 1) (hat 2)
        (hat 3) (notPadded_group (by omega) (by omega) h (by omega) (hat 2) (by omega))
        (notPadded_group (by omega) (by omega) h (by omega) (hat 3) (by omega)),
      Base64.byte_of_six_two a (by omega), Base64.byte_of_four_four (a.toNat % 4) b (by omega),
      Base64.byte_of_two_six (b.toNat % 16) c]
    have hcons : text = start ++ [Base64.symbol (a.toNat / 4),
        Base64.symbol (a.toNat % 4 * 16 + b.toNat / 16),
        Base64.symbol (b.toNat % 16 * 4 + c.toNat / 64), Base64.symbol (c.toNat % 64)] ++
        Base64.padded rest := by
      rw [htext, List.append_assoc]
      rfl
    have hnext := ih _ ([a, b, c].foldl Out.put o) hcons
      (by rw [List.length_append]; exact (Nat.add_mod_right _ 4).trans hstart)
      (fun k ↦ by rw [hcons, List.getElem?_append_right (Nat.le_add_right _ _),
        Nat.add_sub_cancel_left])
      (by rw [hcons, List.length_append, length_padded])
    rw [List.length_append] at hnext
    exact hnext

/-- What `base64_decode` leaves in memory behind a padded text. -/
theorem base64Decode_padded {data : Bytes} (h : data.length ≤ 3221225469) (out : Nat → UInt8) :
    base64Decode (Base64.padded data) out = some (.ok, ⟨overlay out data, data.length⟩) := by
  have hlen : (Base64.padded data).length < 2 ^ 32 := by
    rw [length_padded]
    omega
  have hwrap : wrap (Base64.padded data).length = (Base64.padded data).length :=
    Nat.mod_eq_of_lt hlen
  have hput := foldl_put_overlay out [] data (by rw [List.length_nil]; omega)
  have hloop := decodeLoop_padded data [] ⟨out, 0⟩ rfl rfl hlen
  rw [List.nil_append] at hput
  have hwritten : data.foldl Out.put ⟨out, 0⟩ = ⟨overlay out data, data.length⟩ := hput
  rw [hwritten] at hloop
  rw [base64Decode, hwrap]
  exact hloop

/-- The test for padding reads inside the input. -/
theorem isSome_notPadded {text : Bytes} {inlen i k : Nat} (hlen : inlen ≤ text.length)
    (h : inlen < 2 ^ 32) (hk : 2 ≤ k) (hi : i < inlen) (hki : k ≤ i + 2) :
    (notPadded text inlen i k).isSome := by
  unfold notPadded
  split
  · rfl
  · rename_i hend
    have hlast : wrap (inlen + (2 ^ 32 - (k - 1))) < text.length := by
      unfold wrap at hend ⊢
      omega
    rw [Option.isSome_map, List.getElem?_eq_getElem hlast]
    rfl

/-- A pass reads inside the input. -/
theorem isSome_decodePass {text : Bytes} {inlen i : Nat} (hlen : inlen ≤ text.length)
    (h : inlen < 2 ^ 32) (hi : i < inlen) (c : Nat) (o : Out) :
    (decodePass text inlen i c o).isSome := by
  unfold decodePass
  split
  · rfl
  · rw [Option.isSome_map]
    exact isSome_notPadded hlen h (by omega) hi (by omega)
  · rw [Option.isSome_map]
    exact isSome_notPadded hlen h (by omega) hi (by omega)
  · rfl

/-- The loop reads inside the input and inside the decoding table. -/
theorem isSome_decodeLoop {text : Bytes} {inlen : Nat} (hlen : inlen ≤ text.length)
    (h : inlen < 2 ^ 32) (n i : Nat) (hn : i + n = inlen) (o : Out) :
    (decodeLoop text inlen n i o).isSome := by
  induction n generalizing i o with
  | zero => rfl
  | succ n ih =>
    have hi : i < text.length := by omega
    obtain ⟨o', hpass⟩ : ∃ f : Nat → Out, ∀ c, decodePass text inlen i c o = some (f c) :=
      ⟨fun c ↦ (decodePass text inlen i c o).get (isSome_decodePass hlen h (by omega) c o),
        fun c ↦ (Option.some_get _).symm⟩
    rw [decodeLoop, List.getElem?_eq_getElem hi]
    simp only [Option.bind_eq_bind, Option.bind_some, hpass]
    split
    · rfl
    split
    · rfl
    · rename_i hrange
      have hentry : (text[i]).toNat < base64de.length := by
        have hmax : text[i] ≤ 0x7A := UInt8.not_lt.mp fun hlt ↦ hrange (.inr hlt)
        have hle : (text[i]).toNat ≤ 122 := hmax
        rw [length_base64de]
        omega
      rw [List.getElem?_eq_getElem hentry, Option.bind_some]
      split
      · rfl
      · exact ih (i + 1) (by omega) _

/-- A round trip through both functions, for every byte string whose encoding an `unsigned int` counts:
the text is the padded one, decoding it gives the bytes back with nothing behind them, and decoding never
reads outside its input or its table, whatever the text. -/
theorem base64_round_trip :
    (∀ data : Bytes, data ≠ [] → data.length ≤ 3221225469 → ∀ out : Nat → UInt8,
      (base64Encode data out).mem = overlay out (Base64.padded data) ∧
        (base64Decode (Base64.padded data) out).map (fun r ↦ (r.1, r.2.mem)) =
          some (.ok, overlay out data)) ∧
      ∀ (text : Bytes) (out : Nat → UInt8), (base64Decode text out).isSome := by
  refine ⟨fun data hne h out ↦ ⟨?_, ?_⟩, fun text out ↦ ?_⟩
  · rw [base64Encode_eq hne h]
  · rw [base64Decode_padded h]
    rfl
  · exact isSome_decodeLoop (Nat.mod_le _ _) (Nat.mod_lt _ (Nat.two_pow_pos 32)) _ 0
      (Nat.zero_add _) _

/-- The text of one byte more has as many characters as `unsigned int` has values: its length is taken
for zero, and nothing is decoded. -/
theorem not_base64_round_trip_long :
    ¬ ∀ data : Bytes, data ≠ [] → ∀ out : Nat → UInt8,
      (base64Encode data out).mem = overlay out (Base64.padded data) ∧
        (base64Decode (Base64.padded data) out).map (fun r ↦ (r.1, r.2.mem)) =
          some (.ok, overlay out data) := by
  intro hall
  have hlen : (List.replicate 3221225470 (0 : UInt8)).length = 3221225470 := List.length_replicate
  obtain ⟨-, hdecode⟩ := hall (List.replicate 3221225470 0)
    (List.ne_nil_of_length_pos (by rw [hlen]; omega)) (fun _ ↦ 1)
  have hwrap : wrap (Base64.padded (List.replicate 3221225470 0)).length = 0 := by
    rw [length_padded, hlen]
    rfl
  rw [base64Decode, hwrap] at hdecode
  simp only [decodeLoop, Option.map_some, Option.some.injEq, Prod.mk.injEq, true_and] at hdecode
  have hfirst := congrFun hdecode 0
  rw [overlay, List.getElem?_replicate, if_pos (by omega)] at hfirst
  exact absurd hfirst (by decide)

end OpenWrtCompile.Server
