import OpenWrtCompile.Subscribe.Codec

/-!
# Signed requests to Aliyun

`percentEncode` and `aliyun_transfer` of `ddns-scripts-aliyun/update_aliyun_com.sh`: what is signed and
what is sent.
-/

namespace OpenWrtCompile.Ddns
open OpenWrtCompile.Base
open OpenWrtCompile.Subscribe (escapeBytes getUrlencode hexUpper percentDecode)

/-- `[A-Za-z0-9_.~-]`. -/
def isUnreserved (c : UInt8) : Bool :=
  (0x41 ≤ c && c ≤ 0x5A) || (0x61 ≤ c && c ≤ 0x7A) || (0x30 ≤ c && c ≤ 0x39) || c = 0x5F || c = 0x2E ||
    c = 0x7E || c = 0x2D

/-- What `echo` takes for options: a dash and one or more of `n`, `e` and `E`. -/
def isEchoOption : Bytes → Bool
  | 0x2D :: c :: r => (c :: r).all fun x ↦ x = 0x6E || x = 0x65 || x = 0x45
  | _ => false

/-- `echo -n "$1"`. -/
def echoN (text : Bytes) : Bytes := if isEchoOption text then [] else text

/-- `percentEncode`; `printf '%%%02X' "'$chr"` is two digits of the byte. -/
def percentEncode (text : Bytes) : Bytes :=
  if text.filter (fun c ↦ !isUnreserved c) = [] then echoN text
  else echoN (escapeBytes isUnreserved text)

/-- `${string%%=*}`. -/
def argKey (string : Bytes) : Bytes := string.takeWhile (· ≠ 0x3D)

/-- `${string#*=}`. -/
def argValue (string : Bytes) : Bytes :=
  if 0x3D ∈ string then string.drop ((argKey string).length + 1) else string

/-- `$(percentEncode "${string%%=*}")"="$(percentEncode "${string#*=}")`. -/
def encodedArg (string : Bytes) : Bytes :=
  percentEncode (argKey string) ++ 0x3D :: percentEncode (argValue string)

/-- The public parameters that are filtered out of the arguments. -/
def publicKeys : List Bytes :=
  [ascii "Format", ascii "Version", ascii "AccessKeyId", ascii "SignatureMethod", ascii "Timestamp",
    ascii "SignatureVersion", ascii "SignatureNonce", ascii "Signature"]

/-- What a request depends on besides its arguments: the names to which a word is expanded, the user name,
the outputs of `date` and of the kernel's `uuid`, which start with a digit of a year and of a number to
base 16, and the HMAC under the password. -/
structure Account where
  names : Bytes → List Bytes
  username : Bytes
  timestamp : Bytes
  nonce : Bytes
  hmac : Bytes → Bytes
  timestamp_head : timestamp.head? ≠ some 0x2D
  nonce_head : nonce.head? ≠ some 0x2D

namespace Account
variable (acc : Account)

/-- `$*`, unquoted: split at blanks, and each word expanded to the names it matches, if there are any. -/
def words (args : List Bytes) : List Bytes :=
  (args.flatMap fun a ↦ (a.splitOnP fun c ↦ c = 0x20 || c = 0x09 || c = 0x0A).filter (· ≠ [])).flatMap
    fun w ↦ if acc.names w = [] then [w] else acc.names w

/-- The words that the loop adds. -/
def added (args : List Bytes) : List Bytes :=
  (acc.words args).filter fun w ↦ decide (argKey w ∉ publicKeys)

/-- The public parameters that are appended. -/
def publics : List Bytes :=
  [ascii "Format=JSON", ascii "Version=2015-01-09", ascii "AccessKeyId=" ++ acc.username,
    ascii "SignatureMethod=HMAC-SHA1", ascii "Timestamp=" ++ acc.timestamp,
    ascii "SignatureVersion=1.0", ascii "SignatureNonce=" ++ acc.nonce, ascii "Line=default"]

/-- `__URLARGS` in front of the signature. -/
def urlArgs (args : List Bytes) : Bytes :=
  acc.publics.foldl (fun u string ↦ u ++ 0x26 :: encodedArg string)
    (((acc.added args).foldl (fun u string ↦ u ++ 0x26 :: encodedArg string) []).drop 1)

/-- `sed 's/&/\n/g' | sort | sed ':label; N; s/\n/&/g; b label'`. -/
def sortArgs (text : Bytes) : Bytes :=
  [0x26].intercalate
    ((((text.map fun c ↦ if c = 0x26 then 0x0A else c).splitOn 0x0A).mergeSort
      fun a b ↦ decide (a ≤ b)))

/-- The text that is signed. -/
def signed (args : List Bytes) : Bytes :=
  ascii "GET&" ++ percentEncode (ascii "/") ++ ascii "&" ++
    percentEncode (sortArgs (echoN (acc.urlArgs args)))

/-- The query of the request. -/
def query (args : List Bytes) : Bytes :=
  acc.urlArgs args ++ 0x26 :: encodedArg (ascii "Signature=" ++ acc.hmac (acc.signed args))

end Account

/-- The percent-encoding of a text. -/
def encoded (text : Bytes) : Bytes := escapeBytes isUnreserved text

/-- A parameter with its key and its value encoded. -/
def encodedParam (string : Bytes) : Bytes :=
  encoded (argKey string) ++ 0x3D :: encoded (argValue string)

/-- The parameters of a query other than the signature. -/
def sentParams (query : Bytes) : List Bytes :=
  (query.splitOn 0x26).filter fun p ↦ decide (argKey p ≠ ascii "Signature")

/-- A digit as `%X` writes it. -/
def isUpperHex (c : UInt8) : Bool := (0x30 ≤ c && c ≤ 0x39) || (0x41 ≤ c && c ≤ 0x46)

/-- Unreserved characters and escapes, nothing else. -/
def isEncoded : Bytes → Bool
  | 0x25 :: a :: b :: r => isUpperHex a && isUpperHex b && isEncoded r
  | c :: r => isUnreserved c && isEncoded r
  | [] => true

/-! ### The encoding -/

/-- An encoded text is decoded. -/
theorem percentDecode_encoded (text : Bytes) : percentDecode (encoded text) = text := by
  induction text with
  | nil => rfl
  | cons c text ih =>
    show percentDecode ((if isUnreserved c then [c] else getUrlencode c) ++ encoded text) = _
    split
    · rename_i hc
      have hne : c ≠ 0x25 := by
        rintro rfl
        revert hc
        decide
      rw [List.singleton_append, Subscribe.percentDecode_cons_ne hne, ih]
    · rw [Subscribe.percentDecode_getUrlencode, ih]

/-- Texts are told apart by their encodings. -/
theorem encoded_inj {s t : Bytes} (h : encoded s = encoded t) : s = t := by
  rw [← percentDecode_encoded s, h, percentDecode_encoded]

/-- An encoded text is empty if the text is. -/
theorem encoded_ne_nil {text : Bytes} (h : text ≠ []) : encoded text ≠ [] := by
  intro hnil
  exact h (encoded_inj (hnil.trans rfl))

/-- An encoding consists of unreserved characters and escapes. -/
theorem isEncoded_encoded (text : Bytes) : isEncoded (encoded text) = true := by
  have hdigit : ∀ {n : UInt8}, n < 16 → isUpperHex (hexUpper n) = true := by
    intro n hn
    have hall : ∀ k : Fin 16, isUpperHex (hexUpper (UInt8.ofNat k)) = true := by decide
    have hk := hall ⟨n.toNat, hn⟩
    rwa [UInt8.ofNat_toNat] at hk
  induction text with
  | nil => rfl
  | cons c text ih =>
    show isEncoded ((if isUnreserved c then [c] else getUrlencode c) ++ encoded text) = true
    split
    · rename_i hc
      rw [List.singleton_append, isEncoded]
      · rw [hc, ih]
        rfl
      · rintro a b r rfl
        exact absurd hc (by decide)
    · obtain ⟨hhigh, hlow, -⟩ := Subscribe.halves c
      show (isUpperHex _ && isUpperHex _ && isEncoded (encoded text)) = true
      rw [hdigit hhigh, hdigit hlow, ih]
      rfl

/-- The characters of an encoded text. -/
theorem mem_of_isEncoded {text : Bytes} (h : isEncoded text = true) :
    ∀ c ∈ text, isUnreserved c = true ∨ c = 0x25 := by
  have hhex : ∀ {c : UInt8}, isUpperHex c = true → isUnreserved c = true := by
    intro c
    have hall : ∀ k : Fin 256, isUpperHex (UInt8.ofNat k) = true →
        isUnreserved (UInt8.ofNat k) = true := by decide +kernel
    have hc := hall ⟨c.toNat, c.toNat_lt⟩
    rwa [UInt8.ofNat_toNat] at hc
  fun_induction isEncoded text with
  | case1 a b r ih =>
    rw [Bool.and_eq_true, Bool.and_eq_true] at h
    intro c hc
    simp only [List.mem_cons] at hc
    obtain rfl | rfl | rfl | hc := hc
    · exact .inr rfl
    · exact .inl (hhex h.1.1)
    · exact .inl (hhex h.1.2)
    · exact ih h.2 c hc
  | case2 x r hne ih =>
    rw [Bool.and_eq_true] at h
    intro c hc
    obtain rfl | hc := List.mem_cons.mp hc
    · exact .inl h.1
    · exact ih h.2 c hc
  | case3 => exact fun c hc ↦ by cases hc

/-- A text without reserved characters is its own encoding. -/
theorem encoded_eq_self {text : Bytes} (h : text.filter (fun c ↦ !isUnreserved c) = []) :
    encoded text = text := by
  have hall : ∀ c ∈ text, isUnreserved c = true := by
    intro c hc
    have hnot := List.filter_eq_nil_iff.mp h c hc
    simpa using hnot
  clear h
  induction text with
  | nil => rfl
  | cons c text ih =>
    show (if isUnreserved c then [c] else getUrlencode c) ++ encoded text = _
    rw [if_pos (hall c List.mem_cons_self), ih fun x hx ↦ hall x (List.mem_cons_of_mem c hx)]
    rfl

/-- What a byte outside `-`, `n`, `e` and `E` makes no option. -/
theorem isEchoOption_of_mem {text : Bytes} {c : UInt8} (hc : c ∈ text)
    (h : c ≠ 0x2D ∧ c ≠ 0x6E ∧ c ≠ 0x65 ∧ c ≠ 0x45) : isEchoOption text = false := by
  unfold isEchoOption
  split
  · rename_i x r
    rw [Bool.eq_false_iff]
    intro hall
    obtain rfl | hc := List.mem_cons.mp hc
    · exact h.1 rfl
    · have hx := List.all_eq_true.mp hall c hc
      simp only [Bool.or_eq_true, decide_eq_true_eq] at hx
      obtain (hx | hx) | hx := hx
      · exact h.2.1 hx
      · exact h.2.2.1 hx
      · exact h.2.2.2 hx
  · rfl

/-- A reserved character makes an escape. -/
theorem mem_encoded_of_reserved {text : Bytes} (h : text.filter (fun c ↦ !isUnreserved c) ≠ []) :
    (0x25 : UInt8) ∈ encoded text := by
  obtain ⟨c, hc⟩ := List.exists_mem_of_ne_nil _ h
  obtain ⟨hmem, hres⟩ := List.mem_filter.mp hc
  refine List.mem_flatMap.mpr ⟨c, hmem, ?_⟩
  rw [if_neg (by simpa using hres)]
  exact List.mem_cons_self

/-- `percentEncode` encodes everything but what `echo` takes for options. -/
theorem percentEncode_eq (text : Bytes) :
    percentEncode text = if isEchoOption text then [] else encoded text := by
  unfold percentEncode
  split
  · rename_i hall
    rw [echoN, encoded_eq_self hall]
  · rename_i hres
    have hplain : isEchoOption (encoded text) = false :=
      isEchoOption_of_mem (mem_encoded_of_reserved hres) (by decide)
    obtain ⟨c, hc⟩ := List.exists_mem_of_ne_nil _ hres
    obtain ⟨hmem, hc⟩ := List.mem_filter.mp hc
    have htext : isEchoOption text = false := by
      refine isEchoOption_of_mem hmem ⟨?_, ?_, ?_, ?_⟩ <;>
      · rintro rfl
        revert hc
        decide
    rw [htext, if_neg Bool.false_ne_true]
    show echoN (encoded text) = _
    rw [echoN, hplain, if_neg Bool.false_ne_true]

/-- What `percentEncode` makes is an encoding. -/
theorem isEncoded_percentEncode (text : Bytes) : isEncoded (percentEncode text) = true := by
  rw [percentEncode_eq]
  split
  · rfl
  · exact isEncoded_encoded text

/-- An option is not empty. -/
theorem ne_nil_of_isEchoOption {text : Bytes} (h : isEchoOption text = true) : text ≠ [] := by
  rintro rfl
  cases h

/-- `percentEncode` gives the encoding exactly of what is no option. -/
theorem percentEncode_eq_encoded_iff (text : Bytes) :
    percentEncode text = encoded text ↔ isEchoOption text = false := by
  rw [percentEncode_eq]
  cases h : isEchoOption text with
  | false => simp
  | true =>
    rw [if_pos rfl]
    refine ⟨fun hnil ↦ absurd hnil.symm (encoded_ne_nil (ne_nil_of_isEchoOption h)), fun h ↦ ?_⟩
    cases h

/-- And exactly that is decoded. -/
theorem percentDecode_percentEncode_iff (text : Bytes) :
    percentDecode (percentEncode text) = text ↔ isEchoOption text = false := by
  rw [percentEncode_eq]
  cases h : isEchoOption text with
  | false => simp [percentDecode_encoded]
  | true =>
    rw [if_pos rfl]
    refine ⟨fun hnil ↦ absurd hnil.symm (ne_nil_of_isEchoOption h), fun h ↦ ?_⟩
    cases h

/-- The bytes that are no part of an encoding. -/
theorem not_mem_percentEncode {text : Bytes} {c : UInt8} (h : isUnreserved c = false)
    (hne : c ≠ 0x25) : c ∉ percentEncode text := by
  intro hc
  obtain hu | hp := mem_of_isEncoded (isEncoded_percentEncode text) c hc
  · rw [h] at hu
    cases hu
  · exact hne hp

/-! ### The parameters -/

/-- What stands in front of the first `=`. -/
theorem argKey_append {k v : Bytes} (h : (0x3D : UInt8) ∉ k) : argKey (k ++ 0x3D :: v) = k := by
  unfold argKey
  rw [List.takeWhile_append_of_pos]
  · rw [List.takeWhile_cons_of_neg (by decide), List.append_nil]
  · intro c hc
    exact decide_eq_true fun he ↦ h (he ▸ hc)

/-- What stands behind it. -/
theorem argValue_append {k v : Bytes} (h : (0x3D : UInt8) ∉ k) : argValue (k ++ 0x3D :: v) = v := by
  unfold argValue
  rw [argKey_append h, if_pos (List.mem_append_right k List.mem_cons_self), List.drop_append,
    List.drop_eq_nil_of_le (Nat.le_succ _), List.nil_append, Nat.add_sub_cancel_left]
  rfl

/-- The key of a parameter that is sent. -/
theorem argKey_encodedArg (string : Bytes) :
    argKey (encodedArg string) = percentEncode (argKey string) :=
  argKey_append (not_mem_percentEncode (by decide) (by decide))

/-- A byte that is no part of an encoding and is not `=` does not stand in a parameter. -/
theorem not_mem_encodedArg {string : Bytes} {c : UInt8} (h : isUnreserved c = false)
    (hne : c ≠ 0x25) (heq : c ≠ 0x3D) : c ∉ encodedArg string := by
  unfold encodedArg
  rw [List.mem_append, List.mem_cons]
  rintro (hc | hc | hc)
  · exact not_mem_percentEncode h hne hc
  · exact heq hc
  · exact not_mem_percentEncode h hne hc

/-- The parameter is encoded as it should be exactly if neither its key nor its value is an option. -/
theorem encodedArg_eq_iff (string : Bytes) :
    encodedArg string = encodedParam string ↔
      isEchoOption (argKey string) = false ∧ isEchoOption (argValue string) = false := by
  rw [← percentEncode_eq_encoded_iff, ← percentEncode_eq_encoded_iff]
  constructor
  · intro h
    have hencoded : (0x3D : UInt8) ∉ encoded (argKey string) := by
      intro hc
      obtain hu | hp := mem_of_isEncoded (isEncoded_encoded _) _ hc
      · cases hu
      · cases hp
    have hkey := congrArg argKey h
    rw [argKey_encodedArg, encodedParam, argKey_append hencoded] at hkey
    refine ⟨hkey, ?_⟩
    unfold encodedArg encodedParam at h
    rw [hkey] at h
    exact (List.cons.inj (List.append_cancel_left h)).2
  · rintro ⟨hkey, hvalue⟩
    rw [encodedArg, encodedParam, hkey, hvalue]

/-- Parameters put one behind the other. -/
theorem foldl_params (start : Bytes) (strings : List Bytes) :
    strings.foldl (fun u string ↦ u ++ 0x26 :: encodedArg string) start =
      start ++ strings.flatMap fun string ↦ 0x26 :: encodedArg string := by
  induction strings generalizing start with
  | nil => rw [List.foldl_nil, List.flatMap_nil, List.append_nil]
  | cons string strings ih =>
    rw [List.foldl_cons, ih, List.flatMap_cons, List.append_assoc]

/-- They are joined by `&`. -/
theorem flatMap_params (first : Bytes) (rest : List Bytes) (f : Bytes → Bytes) :
    f first ++ rest.flatMap (fun string ↦ 0x26 :: f string) =
      [0x26].intercalate ((first :: rest).map f) := by
  induction rest generalizing first with
  | nil => rw [List.flatMap_nil, List.append_nil, List.map_singleton, List.intercalate_singleton]
  | cons second rest ih =>
    rw [List.flatMap_cons, List.map_cons, List.map_cons, List.intercalate_cons_cons, ← List.map_cons,
      ← ih, List.append_assoc]
    rfl

/-- A substitution of bytes in pieces and between them. -/
theorem map_intercalate (f : UInt8 → UInt8) (x : UInt8) (pieces : List Bytes) :
    ([x].intercalate pieces).map f = [f x].intercalate (pieces.map (List.map f)) := by
  induction pieces with
  | nil => rfl
  | cons first rest ih =>
    cases rest with
    | nil => rw [List.intercalate_singleton, List.map_singleton, List.intercalate_singleton]
    | cons second rest =>
      have hmaps : (first :: second :: rest).map (List.map f) =
          first.map f :: second.map f :: rest.map (List.map f) := rfl
      rw [hmaps, List.intercalate_cons_cons, List.intercalate_cons_cons, List.map_append,
        List.map_append, ih]
      rfl

/-- A joined text holds the bytes of its pieces. -/
theorem mem_intercalate_of_mem {c x : UInt8} {piece : Bytes} {pieces : List Bytes}
    (hpiece : piece ∈ pieces) (hc : c ∈ piece) : c ∈ [x].intercalate pieces := by
  induction pieces with
  | nil => cases hpiece
  | cons first rest ih =>
    cases rest with
    | nil =>
      rw [List.intercalate_singleton]
      exact List.mem_singleton.mp hpiece ▸ hc
    | cons second rest =>
      rw [List.intercalate_cons_cons]
      obtain rfl | hpiece := List.mem_cons.mp hpiece
      · exact List.mem_append_left _ (List.mem_append_left _ hc)
      · exact List.mem_append_right _ (ih hpiece)

/-- Pieces without `&` and newlines are sorted as the lines they are made into. -/
theorem sortArgs_intercalate {pieces : List Bytes} (hne : pieces ≠ [])
    (hamp : ∀ p ∈ pieces, (0x26 : UInt8) ∉ p) (hnl : ∀ p ∈ pieces, (0x0A : UInt8) ∉ p) :
    Account.sortArgs ([0x26].intercalate pieces) =
      [0x26].intercalate (pieces.mergeSort fun a b ↦ decide (a ≤ b)) := by
  have hmap : pieces.map (List.map fun c ↦ if c = 0x26 then 0x0A else c) = pieces := by
    conv_rhs => rw [← List.map_id pieces]
    apply List.map_congr_left
    intro p hp
    conv_rhs => rw [id_eq, ← List.map_id p]
    apply List.map_congr_left
    intro c hc
    rw [if_neg fun he : c = 0x26 ↦ hamp p hp (he ▸ hc)]
    rfl
  unfold Account.sortArgs
  rw [map_intercalate, hmap, if_pos rfl, List.splitOn_intercalate 0x0A hnl hne]

/-- `sort` puts its lines in order, byte by byte. -/
theorem pairwise_mergeSort_le (lines : List Bytes) :
    (lines.mergeSort fun a b ↦ decide (a ≤ b)).Pairwise (· ≤ ·) := by
  have h := @List.pairwise_mergeSort Bytes (fun a b ↦ decide (a ≤ b)) ?_ ?_ lines
  · exact h.imp fun hab ↦ of_decide_eq_true hab
  · intro a b c hab hbc
    exact decide_eq_true (List.le_trans (of_decide_eq_true hab) (of_decide_eq_true hbc))
  · intro a b
    rw [Bool.or_eq_true, decide_eq_true_iff, decide_eq_true_iff]
    exact List.le_total a b

/-- What is encoded as `Signature` is `Signature`. -/
theorem eq_signature {k : Bytes} (h : percentEncode k = ascii "Signature") : k = ascii "Signature" := by
  have hself : encoded (ascii "Signature") = ascii "Signature" := by decide
  rw [percentEncode_eq] at h
  split at h
  · cases h
  · exact encoded_inj (h.trans hself.symm)

namespace Account
variable (acc : Account) {args : List Bytes}

/-- The keys and values of the public parameters. -/
theorem mem_publics {w : Bytes} (h : w ∈ acc.publics) :
    argKey w ≠ ascii "Signature" ∧ isEchoOption (argKey w) = false ∧
      (isEchoOption (argValue w) = true → argValue w = acc.username) := by
  have hhead : ∀ {t : Bytes}, t.head? ≠ some 0x2D → isEchoOption t = true → False := by
    intro t ht ho
    unfold isEchoOption at ho
    split at ho
    · exact ht rfl
    · cases ho
  have hkey : ∀ {k : Bytes}, (0x3D : UInt8) ∉ k → k ≠ ascii "Signature" → isEchoOption k = false →
      ∀ v, (isEchoOption v = true → v = acc.username) →
        argKey (k ++ 0x3D :: v) ≠ ascii "Signature" ∧ isEchoOption (argKey (k ++ 0x3D :: v)) = false ∧
        (isEchoOption (argValue (k ++ 0x3D :: v)) = true →
          argValue (k ++ 0x3D :: v) = acc.username) := by
    intro k hk hne ho v hv
    rw [argKey_append hk, argValue_append hk]
    exact ⟨hne, ho, hv⟩
  simp only [publics, List.mem_cons, List.not_mem_nil, or_false] at h
  obtain rfl | rfl | rfl | rfl | rfl | rfl | rfl | rfl := h
  · exact hkey (k := ascii "Format") (by decide) (by decide) (by decide) (ascii "JSON")
      fun h ↦ absurd h (by decide)
  · exact hkey (k := ascii "Version") (by decide) (by decide) (by decide) (ascii "2015-01-09")
      fun h ↦ absurd h (by decide)
  · exact hkey (k := ascii "AccessKeyId") (by decide) (by decide) (by decide) acc.username
      fun _ ↦ rfl
  · exact hkey (k := ascii "SignatureMethod") (by decide) (by decide) (by decide)
      (ascii "HMAC-SHA1") fun h ↦ absurd h (by decide)
  · exact hkey (k := ascii "Timestamp") (by decide) (by decide) (by decide) acc.timestamp
      fun h ↦ (hhead acc.timestamp_head h).elim
  · exact hkey (k := ascii "SignatureVersion") (by decide) (by decide) (by decide) (ascii "1.0")
      fun h ↦ absurd h (by decide)
  · exact hkey (k := ascii "SignatureNonce") (by decide) (by decide) (by decide) acc.nonce
      fun h ↦ (hhead acc.nonce_head h).elim
  · exact hkey (k := ascii "Line") (by decide) (by decide) (by decide) (ascii "default")
      fun h ↦ absurd h (by decide)

/-- The parameters of a request, in order. -/
def pieces (args : List Bytes) : List Bytes := (acc.added args ++ acc.publics).map encodedArg

/-- The arguments and the public parameters are joined by `&`. -/
theorem urlArgs_eq (h : acc.added args ≠ []) :
    acc.urlArgs args = [0x26].intercalate (acc.pieces args) := by
  obtain ⟨first, rest, hadded⟩ := List.exists_cons_of_ne_nil h
  unfold urlArgs pieces
  rw [hadded, foldl_params, foldl_params, List.nil_append, List.flatMap_cons, List.cons_append,
    List.cons_append, ← flatMap_params, List.flatMap_append, ← List.append_assoc]
  rfl

/-- So is the signature. -/
theorem query_eq (h : acc.added args ≠ []) :
    acc.query args = [0x26].intercalate
      (acc.pieces args ++ [encodedArg (ascii "Signature=" ++ acc.hmac (acc.signed args))]) := by
  unfold query
  generalize ascii "Signature=" ++ acc.hmac (acc.signed args) = signature
  rw [acc.urlArgs_eq h]
  obtain ⟨first, rest, hadded⟩ := List.exists_cons_of_ne_nil h
  have hsingle : [encodedArg signature] = [signature].map encodedArg := rfl
  unfold pieces
  rw [hadded, hsingle, ← List.map_append, List.cons_append, List.cons_append, ← flatMap_params,
    ← flatMap_params]
  simp only [List.flatMap_append, List.flatMap_cons, List.flatMap_nil, List.append_nil,
    List.append_assoc]

/-- A parameter holds no `&` and no newline, but a `=`. -/
theorem mem_pieces {p : Bytes} (h : p ∈ acc.pieces args) :
    (0x26 : UInt8) ∉ p ∧ (0x0A : UInt8) ∉ p ∧ (0x3D : UInt8) ∈ p := by
  obtain ⟨w, -, rfl⟩ := List.mem_map.mp h
  exact ⟨not_mem_encodedArg (by decide) (by decide) (by decide),
    not_mem_encodedArg (by decide) (by decide) (by decide),
    List.mem_append_right _ List.mem_cons_self⟩

/-- There are parameters. -/
theorem pieces_ne_nil (args : List Bytes) : acc.pieces args ≠ [] := by
  intro h
  have happend := (List.append_eq_nil_iff.mp (List.map_eq_nil_iff.mp h)).2
  cases happend

/-- The parameters that are sent besides the signature. -/
theorem sentParams_query (h : acc.added args ≠ []) :
    sentParams (acc.query args) = acc.pieces args := by
  unfold sentParams
  rw [acc.query_eq h, List.splitOn_intercalate 0x26 _ (List.append_ne_nil_of_left_ne_nil
    (acc.pieces_ne_nil args) _), List.filter_append]
  · have hsignature : ∀ v, argKey (encodedArg (ascii "Signature=" ++ v)) = ascii "Signature" := by
      intro v
      rw [argKey_encodedArg, show ascii "Signature=" ++ v = ascii "Signature" ++ 0x3D :: v from rfl,
        argKey_append (by decide)]
      decide
    rw [List.filter_cons_of_neg (by rw [hsignature]; decide), List.filter_nil, List.append_nil,
      List.filter_eq_self]
    intro p hp
    obtain ⟨w, hw, rfl⟩ := List.mem_map.mp hp
    rw [decide_eq_true_iff, argKey_encodedArg]
    intro hkey
    have hkey := eq_signature hkey
    obtain hw | hw := List.mem_append.mp hw
    · have hpublic := of_decide_eq_true (List.mem_filter.mp hw).2
      rw [hkey] at hpublic
      exact hpublic (by decide)
    · exact (acc.mem_publics hw).1 hkey
  · intro p hp
    obtain hp | hp := List.mem_append.mp hp
    · exact (acc.mem_pieces hp).1
    · rw [List.mem_singleton.mp hp]
      exact not_mem_encodedArg (by decide) (by decide) (by decide)

/-- What is signed covers what is sent, and every parameter that is sent is encoded once. -/
structure Covers (args : List Bytes) : Prop where
  signed : ∃ sorted, sorted.Perm (sentParams (acc.query args)) ∧ sorted.Pairwise (· ≤ ·) ∧
    acc.signed args = ascii "GET&%2F&" ++ encoded ([0x26].intercalate sorted)
  sent : sentParams (acc.query args) = (acc.added args ++ acc.publics).map encodedParam

/-- What is signed is the encoding of what is sent, sorted and joined. -/
theorem signed_eq (h : acc.added args ≠ []) :
    acc.signed args = ascii "GET&%2F&" ++
      encoded ([0x26].intercalate ((acc.pieces args).mergeSort fun a b ↦ decide (a ≤ b))) := by
  have hjoined : ∀ {ps : List Bytes}, (∀ p ∈ ps, (0x3D : UInt8) ∈ p) → ps ≠ [] →
      isEchoOption ([0x26].intercalate ps) = false := by
    intro ps hps hne
    obtain ⟨p, hp⟩ := List.exists_mem_of_ne_nil ps hne
    exact isEchoOption_of_mem (mem_intercalate_of_mem hp (hps p hp)) (by decide)
  have hmem : ∀ p ∈ (acc.pieces args).mergeSort (fun a b ↦ decide (a ≤ b)), (0x3D : UInt8) ∈ p :=
    fun p hp ↦ (acc.mem_pieces (List.mem_mergeSort.mp hp)).2.2
  have hne : (acc.pieces args).mergeSort (fun a b ↦ decide (a ≤ b)) ≠ [] := by
    intro hnil
    have hlen := @List.length_mergeSort Bytes (fun a b ↦ decide (a ≤ b)) (acc.pieces args)
    rw [hnil] at hlen
    exact acc.pieces_ne_nil args (List.length_eq_zero_iff.mp hlen.symm)
  have hecho : echoN (acc.urlArgs args) = [0x26].intercalate (acc.pieces args) := by
    rw [acc.urlArgs_eq h, echoN, hjoined (fun p hp ↦ (acc.mem_pieces hp).2.2)
      (acc.pieces_ne_nil args), if_neg Bool.false_ne_true]
  have hslash : ascii "GET&" ++ percentEncode (ascii "/") ++ ascii "&" = ascii "GET&%2F&" := by
    decide
  rw [signed, hslash, hecho, sortArgs_intercalate (acc.pieces_ne_nil args)
    (fun p hp ↦ (acc.mem_pieces hp).1) (fun p hp ↦ (acc.mem_pieces hp).2.1),
    (percentEncode_eq_encoded_iff _).mpr (hjoined hmem hne)]

/-- What is signed covers what is sent exactly if no key, no value and no user name is an option. -/
theorem covers_iff (h : acc.added args ≠ []) :
    acc.Covers args ↔ (∀ w ∈ acc.added args,
      isEchoOption (argKey w) = false ∧ isEchoOption (argValue w) = false) ∧
        isEchoOption acc.username = false := by
  have hsent : sentParams (acc.query args) = (acc.added args ++ acc.publics).map encodedParam ↔
      ∀ w ∈ acc.added args ++ acc.publics,
        isEchoOption (argKey w) = false ∧ isEchoOption (argValue w) = false := by
    rw [acc.sentParams_query h, pieces, List.map_inj_left]
    exact forall₂_congr fun w _ ↦ encodedArg_eq_iff w
  have hname : argValue (ascii "AccessKeyId=" ++ acc.username) = acc.username :=
    argValue_append (k := ascii "AccessKeyId") (by decide)
  constructor
  · intro hcovers
    have hall := hsent.mp hcovers.sent
    refine ⟨fun w hw ↦ hall w (List.mem_append_left _ hw), ?_⟩
    have hid := (hall (ascii "AccessKeyId=" ++ acc.username)
      (List.mem_append_right _ (by simp [publics]))).2
    rwa [hname] at hid
  · rintro ⟨hargs, hid⟩
    refine ⟨⟨_, (List.mergeSort_perm _ _).trans (by rw [acc.sentParams_query h]),
      pairwise_mergeSort_le _, acc.signed_eq h⟩, hsent.mpr fun w hw ↦ ?_⟩
    obtain hw | hw := List.mem_append.mp hw
    · exact hargs w hw
    · obtain ⟨-, hkey, hvalue⟩ := acc.mem_publics hw
      refine ⟨hkey, ?_⟩
      rw [← Bool.not_eq_true]
      intro ho
      rw [hvalue ho, hid] at ho
      cases ho

/-- Arguments without blanks that match no names and have keys of their own are added as they are. -/
theorem added_eq_self
    (hplain : ∀ a ∈ args, a ≠ [] ∧ ∀ c ∈ a, (c = 0x20 || c = 0x09 || c = 0x0A) = false)
    (hnames : ∀ a ∈ args, acc.names a = []) (hkeys : ∀ a ∈ args, argKey a ∉ publicKeys) :
    acc.added args = args := by
  have hwords : acc.words args = args := by
    have hsplit : ∀ a ∈ args, (a.splitOnP fun c ↦ c = 0x20 || c = 0x09 || c = 0x0A).filter
        (· ≠ []) = [a] := by
      intro a ha
      rw [List.splitOnP_eq_singleton (hplain a ha).2, List.filter_eq_self]
      intro b hb
      rw [List.mem_singleton.mp hb]
      exact decide_eq_true (hplain a ha).1
    unfold words
    rw [List.flatMap_congr hsplit, List.flatMap_singleton']
    have hexpand : ∀ a ∈ args, (if acc.names a = [] then [a] else acc.names a) = [a] :=
      fun a ha ↦ if_pos (hnames a ha)
    rw [List.flatMap_congr hexpand, List.flatMap_singleton']
  rw [added, hwords, List.filter_eq_self]
  exact fun a ha ↦ decide_eq_true (hkeys a ha)

end Account

/-- What is signed covers what is sent and a text comes back from its encoding exactly where `echo` does
not take a key, a value, the user name or the text for options. -/
theorem aliyun_signing_iff (acc : Account) (args : List Bytes) (text : Bytes)
    (h : acc.added args ≠ []) :
    (acc.Covers args ∧ isEncoded (percentEncode text) = true ∧
        percentDecode (percentEncode text) = text) ↔
      ((∀ w ∈ acc.added args,
          isEchoOption (argKey w) = false ∧ isEchoOption (argValue w) = false) ∧
        isEchoOption acc.username = false) ∧ isEchoOption text = false := by
  rw [acc.covers_iff h, percentDecode_percentEncode_iff]
  exact and_congr_right fun _ ↦ and_iff_right (isEncoded_percentEncode text)

/-- An account for the examples. -/
def someAccount : Account where
  names := fun _ ↦ []
  username := ascii "LTAI"
  timestamp := ascii "2021-05-01T08:00:00Z"
  nonce := ascii "6b1f"
  hmac := fun _ ↦ ascii "c2lnbmF0dXJl"
  timestamp_head := by decide
  nonce_head := by decide

theorem aliyun_signing_iff_describe :
    (someAccount.Covers [ascii "Action=DescribeDomains", ascii "PageSize=2"] ∧
        isEncoded (percentEncode (ascii "a b")) = true ∧
        percentDecode (percentEncode (ascii "a b")) = ascii "a b") ↔
      ((∀ w ∈ someAccount.added [ascii "Action=DescribeDomains", ascii "PageSize=2"],
          isEchoOption (argKey w) = false ∧ isEchoOption (argValue w) = false) ∧
        isEchoOption someAccount.username = false) ∧ isEchoOption (ascii "a b") = false :=
  aliyun_signing_iff someAccount _ (ascii "a b") (by decide)

/-- A value `-n` is sent as an empty one, and does not come back from its encoding. -/
theorem not_covers_option :
    ¬ someAccount.Covers [ascii "Action=AddDomainRecord", ascii "RR=-n"] ∧
      percentDecode (percentEncode (ascii "-n")) ≠ ascii "-n" := by
  have hadded : someAccount.added [ascii "Action=AddDomainRecord", ascii "RR=-n"] =
      [ascii "Action=AddDomainRecord", ascii "RR=-n"] := by decide
  refine ⟨fun h ↦ ?_, by decide⟩
  have hall := ((someAccount.covers_iff (by rw [hadded]; decide)).mp h).1
  rw [hadded] at hall
  exact absurd (hall (ascii "RR=-n") (by decide)) (by decide)

end OpenWrtCompile.Ddns
