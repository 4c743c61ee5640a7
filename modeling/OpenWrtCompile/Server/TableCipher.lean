import OpenWrtCompile.Base.MergeSort
import OpenWrtCompile.Server.Cipher

/-!
# The substitution table

`shadowsocksr-libev/src/server/encrypt.c`: `random_compare`, `merge` and `merge_sort` (310–389),
`enc_table_init` (428–450), and the branches of `ss_encrypt_all`, `ss_encrypt`, `ss_decrypt_all` and
`ss_decrypt` for the method `TABLE` (1188–1196, 1262–1270, 1338–1346, 1421–1429). MD5 is a parameter.
-/

namespace OpenWrtCompile.Server
open OpenWrtCompile.Base

/-- `random_compare`, the difference of two remainders cut to an `int`; `none` is a division by
zero. -/
def randomCompare (x y : UInt8) (i : UInt32) (a : UInt64) : Option Int32 :=
  if x.toUInt32 + i = 0 ∨ y.toUInt32 + i = 0 then none
  else some (a % (x.toUInt32 + i).toUInt64 - a % (y.toUInt32 + i).toUInt64).toUInt32.toInt32

/-- The test of `merge`: the value of the left run is taken. -/
def takesLeft (salt : UInt32) (key : UInt64) (x y : UInt8) : Option Bool :=
  (randomCompare x y salt key).map fun r ↦ decide (r ≤ 0)

/-- `merge`: the two runs, which lie side by side, are written back merged. -/
def merge (salt : UInt32) (key : UInt64) (left right : Bytes) : Option Bytes :=
  mergeRuns (takesLeft salt key) left right

/-- `merge_sort`: `middle` is a `uint8_t`, and the left part has `length - middle` values. -/
def mergeSort (salt : UInt32) (key : UInt64) (depth : Nat) (array : Bytes) : Option Bytes :=
  sortRuns (takesLeft salt key) (fun length ↦ length / 2 % 256) depth array

/-- `enc_table` and `dec_table`. -/
structure Tables where
  enc : Bytes
  dec : Bytes
  deriving DecidableEq, Repr

/-- `table[(uint8_t)c]`. -/
def entry (table : Bytes) (c : UInt8) : UInt8 := table[c.toNat]?.getD 0

/-- The sum of `OFFSET_ROL(digest, i)`: the first eight bytes of the digest. -/
def tableKey (digest : Vector UInt8 16) : UInt64 :=
  (List.range 8).foldl
    (fun key i ↦ key + (digest[i]?.getD 0).toUInt64 <<< UInt64.ofNat (8 * i)) 0

/-- The passes `i = 1, …, 1023` of `enc_table_init`. -/
def sortPasses (key : UInt64) (depth : Nat) (table : Bytes) : Option Bytes :=
  (List.range' 1 1023).foldlM (fun t i ↦ mergeSort (UInt32.ofNat i) key depth t) table

/-- The decrypt table from the encrypt table: `dec_table[enc_table[i]] = i`, in the block `mem`. -/
def genDecTable (enc mem : Bytes) : Bytes :=
  fill (fun i ↦ (entry enc (UInt8.ofNat i)).toNat) UInt8.ofNat mem (List.range 256)

/-- `enc_table_init`; `encMem` and `decMem` are the blocks that `ss_malloc` returned. -/
def encTableInit (md5 : Bytes → Vector UInt8 16) (depth : Nat) (encMem decMem : Vector UInt8 256)
    (pass : Bytes) : Option Tables :=
  let key := tableKey (md5 (cString pass 0))
  let start := fill id UInt8.ofNat encMem.toList (List.range 256)
  (sortPasses key depth start).map fun enc ↦ ⟨enc, genDecTable enc decMem.toList⟩

/-- The loop over `*ptr` from the start of the block to its length. -/
def substitute (table : Bytes) (b : Buffer) : Buffer :=
  { b with array := (b.array.take b.len).map (entry table) ++ b.array.drop b.len }

namespace Tables
variable {σ : Type}

/-- The method `TABLE`. -/
def method : Int := 0

/-- `ss_encrypt`: the table is used where there is no context. -/
def ssEncrypt (t : Tables) (k : StreamCipher σ) (iv : Bytes) (ctx : Option (EncCtx σ))
    (plain : Buffer) : Option (EncCtx σ) × Buffer :=
  match ctx with
  | some ctx => ((Server.ssEncrypt k iv ctx plain).1, (Server.ssEncrypt k iv ctx plain).2)
  | none => (none, substitute t.enc plain)

/-- `ss_decrypt`; `none` is the `-1` return. -/
def ssDecrypt (t : Tables) (k : StreamCipher σ) (seen : Bytes → Bool) (ctx : Option (EncCtx σ))
    (cipher : Buffer) : Option (Option (EncCtx σ) × Buffer) :=
  match ctx with
  | some ctx => (Server.ssDecrypt k seen ctx cipher).map fun out ↦ (some out.1, out.2)
  | none => some (none, substitute t.dec cipher)

/-- `ss_encrypt_all`; `packet` is what it does for the methods above `TABLE`. -/
def ssEncryptAll (t : Tables) (packet : Buffer → Option Buffer) (m : Int) (plain : Buffer) :
    Option Buffer :=
  if m > method then packet plain else some (substitute t.enc plain)

/-- `ss_decrypt_all`. -/
def ssDecryptAll (t : Tables) (packet : Buffer → Option Buffer) (m : Int) (cipher : Buffer) :
    Option Buffer :=
  if m > method then packet cipher else some (substitute t.dec cipher)

end Tables

/-- Each pass compares with a salt that no byte brings to zero. -/
theorem randomCompare_isSome {i : UInt32} (hpos : 1 ≤ i.toNat) (hlt : i.toNat < 1024)
    (x y : UInt8) (a : UInt64) : (randomCompare x y i a).isSome := by
  have hne (c : UInt8) : c.toUInt32 + i ≠ 0 := by
    intro h
    have hn := congrArg UInt32.toNat h
    have hc := c.toNat_lt
    simp only [UInt32.toNat_add, UInt8.toNat_toUInt32, UInt32.toNat_zero] at hn
    omega
  rw [randomCompare, if_neg (not_or.mpr ⟨hne x, hne y⟩)]
  rfl

/-- `merge_sort` ends for the lengths up to 511 and permutes the array. -/
theorem mergeSort_perm {salt : UInt32} {key : UInt64} {depth : Nat} {a : Bytes}
    (hpos : 1 ≤ salt.toNat) (hlt : salt.toNat < 1024) (hlen : a.length < 512)
    (hdepth : a.length ≤ depth + 1) :
    ∃ out, mergeSort salt key depth a = some out ∧ out.Perm a := by
  apply sortRuns_perm
  · intro x y
    rw [takesLeft, Option.isSome_map]
    exact randomCompare_isSome hpos hlt x y key
  · intro n h2 hn
    constructor <;> omega
  · exact hdepth

/-- Any sequence of passes with salts from 1 to 1023 permutes a table of 256 values. -/
theorem foldlM_mergeSort_perm (key : UInt64) {depth : Nat} (hdepth : 256 ≤ depth) {is : List Nat}
    (hsalt : ∀ i ∈ is, 1 ≤ i ∧ i < 1024) {a : Bytes} (hlen : a.length = 256) :
    ∃ out, is.foldlM (fun t i ↦ mergeSort (UInt32.ofNat i) key depth t) a = some out ∧
      out.Perm a := by
  induction is generalizing a with
  | nil => exact ⟨a, rfl, List.Perm.refl a⟩
  | cons i is ih =>
    have hi := hsalt i List.mem_cons_self
    have hnat : (UInt32.ofNat i).toNat = i := by
      rw [UInt32.toNat_ofNat']
      omega
    have hpass : ∃ b, mergeSort (UInt32.ofNat i) key depth a = some b ∧ b.Perm a := by
      apply mergeSort_perm <;> omega
    obtain ⟨b, hb, hperm⟩ := hpass
    obtain ⟨out, hout, hrest⟩ := ih (fun j hj ↦ hsalt j (List.mem_cons_of_mem i hj))
      (hperm.length_eq.trans hlen)
    refine ⟨out, ?_, hrest.trans hperm⟩
    rw [List.foldlM_cons, hb]
    exact hout

/-- The bytes in order. -/
def allBytes : Bytes := (List.range 256).map UInt8.ofNat

/-- There are 256 bytes. -/
theorem length_allBytes : allBytes.length = 256 := by
  rw [allBytes, List.length_map, List.length_range]

/-- Every byte is in the list. -/
theorem mem_allBytes (c : UInt8) : c ∈ allBytes := by
  apply List.mem_map.mpr
  exact ⟨c.toNat, List.mem_range.mpr c.toNat_lt, UInt8.ofNat_toNat⟩

/-- No byte is in the list twice. -/
theorem nodup_allBytes : allBytes.Nodup := by
  apply List.Nodup.map_on _ List.nodup_range
  intro i hi j hj h
  have hn := congrArg UInt8.toNat h
  rw [List.mem_range] at hi hj
  rw [UInt8.toNat_ofNat', UInt8.toNat_ofNat'] at hn
  omega

/-- The table before the passes: every byte at its own place. -/
theorem fill_id (mem : Vector UInt8 256) :
    fill id UInt8.ofNat mem.toList (List.range 256) = allBytes := by
  apply List.ext_getElem?
  intro i
  by_cases h : i < 256
  · have hnodup : ((List.range 256).map id).Nodup := by
      rw [List.map_id]
      exact List.nodup_range
    have hlt : id i < mem.toList.length := by
      rw [Vector.length_toList]
      exact h
    have hfill := getElem?_fill UInt8.ofNat hnodup (List.mem_range.mpr h) hlt
    rw [id] at hfill
    rw [hfill, allBytes, List.getElem?_map, List.getElem?_range h]
    rfl
  · rw [List.getElem?_eq_none (by rw [length_fill, Vector.length_toList]; omega),
      List.getElem?_eq_none (by rw [allBytes, List.length_map, List.length_range]; omega)]

/-- The entries of a table of 256 values, in order. -/
theorem map_entry_range {t : Bytes} (h : t.length = 256) :
    (List.range 256).map (fun i ↦ entry t (UInt8.ofNat i)) = t := by
  apply List.ext_getElem
  · rw [List.length_map, List.length_range, h]
  · intro i hi ht
    rw [List.getElem_map, List.getElem_range, entry, UInt8.toNat_ofNat',
      Nat.mod_eq_of_lt (by omega), List.getElem?_eq_getElem ht]
    rfl

/-- The decrypt table fills its block. -/
theorem length_genDecTable (enc mem : Bytes) : (genDecTable enc mem).length = mem.length :=
  length_fill _ _ _

/-- The table written from a permutation of the bytes undoes it. -/
theorem entry_inverse {enc : Bytes} (hperm : enc.Perm allBytes) {mem : Bytes}
    (hmem : mem.length = 256) (c : UInt8) :
    entry (genDecTable enc mem) (entry enc c) = c := by
  have hlen : enc.length = 256 := hperm.length_eq.trans length_allBytes
  have hslots : (List.range 256).map (fun i ↦ (entry enc (UInt8.ofNat i)).toNat) =
      enc.map UInt8.toNat := by
    have h := congrArg (List.map UInt8.toNat) (map_entry_range hlen)
    rwa [List.map_map] at h
  have hnodup : (enc.map UInt8.toNat).Nodup :=
    (hperm.nodup_iff.mpr nodup_allBytes).map fun _ _ h ↦ UInt8.toNat_inj.mp h
  have hlt : (entry enc (UInt8.ofNat c.toNat)).toNat < mem.length :=
    hmem ▸ (entry enc (UInt8.ofNat c.toNat)).toNat_lt
  have hfill := getElem?_fill UInt8.ofNat (hslots ▸ hnodup) (List.mem_range.mpr c.toNat_lt) hlt
  rw [UInt8.ofNat_toNat] at hfill
  rw [entry, genDecTable, hfill]
  rfl

/-- `enc_table_init` writes a permutation of the bytes and its inverse. -/
theorem encTableInit_perm (md5 : Bytes → Vector UInt8 16) {depth : Nat} (h : 256 ≤ depth)
    (encMem decMem : Vector UInt8 256) (pass : Bytes) :
    ∃ t, encTableInit md5 depth encMem decMem pass = some t ∧ t.enc.Perm allBytes ∧
      t.dec.length = 256 ∧ ∀ c, entry t.dec (entry t.enc c) = c := by
  have hsalt : ∀ i ∈ List.range' 1 1023, 1 ≤ i ∧ i < 1024 := by
    intro i hi
    rw [List.mem_range'_1] at hi
    omega
  obtain ⟨enc, henc, hperm⟩ :=
    foldlM_mergeSort_perm (tableKey (md5 (cString pass 0))) h hsalt length_allBytes
  have hdec : decMem.toList.length = 256 := Vector.length_toList
  refine ⟨⟨enc, genDecTable enc decMem.toList⟩, ?_, hperm, ?_, ?_⟩
  · simp only [encTableInit, fill_id, sortPasses, henc, Option.map_some]
  · simp only [length_genDecTable, hdec]
  · simp only [entry_inverse hperm hdec, implies_true]

/-- A table that undoes the other is undone by it. -/
theorem entry_entry_dec {t : Tables} (hperm : t.enc.Perm allBytes)
    (hinv : ∀ c, entry t.dec (entry t.enc c) = c) (c : UInt8) :
    entry t.enc (entry t.dec c) = c := by
  have hmem : c ∈ (List.range 256).map fun i ↦ entry t.enc (UInt8.ofNat i) := by
    rw [map_entry_range (hperm.length_eq.trans length_allBytes)]
    exact hperm.mem_iff.mpr (mem_allBytes c)
  obtain ⟨i, -, rfl⟩ := List.mem_map.mp hmem
  rw [hinv]

/-- Substituting by a table and then by one that undoes it gives the buffer back. -/
theorem substitute_substitute {enc dec : Bytes} (h : ∀ c, entry dec (entry enc c) = c)
    (b : Buffer) : substitute dec (substitute enc b) = b := by
  have hmap (l : Bytes) : (l.map (entry enc)).map (entry dec) = l := by
    rw [List.map_map]
    exact List.map_id'' h l
  by_cases hle : b.len ≤ b.array.length
  · have hlen : ((b.array.take b.len).map (entry enc)).length = b.len := by
      rw [List.length_map, List.length_take, Nat.min_eq_left hle]
    rw [substitute, substitute, List.take_left' hlen, List.drop_left' hlen, hmap,
      List.take_append_drop]
  · have htake : b.array.take b.len = b.array := List.take_of_length_le (by omega)
    have hdrop : b.array.drop b.len = [] := List.drop_of_length_le (by omega)
    have hall : (b.array.map (entry enc)).length ≤ b.len := by
      rw [List.length_map]
      omega
    rw [substitute, substitute, htake, hdrop, List.append_nil, List.take_of_length_le hall,
      List.drop_of_length_le hall, List.append_nil, hmap]

/-- For every key the tables are a permutation of the bytes and its inverse, no pass divides by
zero, and in table mode decryption gives back what was encrypted. -/
theorem encTableInit_bijective (md5 : Bytes → Vector UInt8 16) {depth : Nat} (h : 256 ≤ depth)
    (encMem decMem : Vector UInt8 256) (pass : Bytes) :
    ∃ t, encTableInit md5 depth encMem decMem pass = some t ∧
      t.enc.Perm allBytes ∧ t.dec.length = 256 ∧
      (∀ c, entry t.dec (entry t.enc c) = c ∧ entry t.enc (entry t.dec c) = c) ∧
      (∀ i ∈ List.range' 1 1023, ∀ x y key, (randomCompare x y (UInt32.ofNat i) key).isSome) ∧
      ∀ (σ : Type) (k : StreamCipher σ) (iv : Bytes) (seen : Bytes → Bool)
        (packet : Buffer → Option Buffer) (b : Buffer),
        t.ssEncryptAll packet Tables.method b = some (t.ssEncrypt k iv none b).2 ∧
        t.ssDecrypt k seen none (t.ssEncrypt k iv none b).2 = some (none, b) ∧
        t.ssDecryptAll packet Tables.method (t.ssEncrypt k iv none b).2 = some b := by
  obtain ⟨t, ht, hperm, hlen, hinv⟩ := encTableInit_perm md5 h encMem decMem pass
  refine ⟨t, ht, hperm, hlen, fun c ↦ ⟨hinv c, entry_entry_dec hperm hinv c⟩, ?_, ?_⟩
  · intro i hi x y key
    rw [List.mem_range'_1] at hi
    have hnat : (UInt32.ofNat i).toNat = i := by
      rw [UInt32.toNat_ofNat']
      omega
    apply randomCompare_isSome <;> omega
  · intro σ k iv seen packet b
    have hback := substitute_substitute hinv b
    refine ⟨rfl, ?_, ?_⟩
    · show some (none, substitute t.dec (substitute t.enc b)) = some (none, b)
      rw [hback]
    · show some (substitute t.dec (substitute t.enc b)) = some b
      rw [hback]

/-- The tables of a key, for one digest. -/
theorem encTableInit_bijective_key :
    ∃ t, encTableInit (fun _ ↦ Vector.replicate 16 7) 256 (Vector.replicate 256 0)
      (Vector.replicate 256 0) (ascii "secret") = some t ∧ t.enc.Perm allBytes := by
  obtain ⟨t, ht, hperm, -⟩ := encTableInit_bijective (fun _ ↦ Vector.replicate 16 7)
    (Nat.le_refl 256) (Vector.replicate 256 0) (Vector.replicate 256 0) (ascii "secret")
  exact ⟨t, ht, hperm⟩

end OpenWrtCompile.Server
