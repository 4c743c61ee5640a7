import OpenWrtCompile.Base.CString

/-!
# Headers of `http_simple` and `http_post`

`shadowsocksr-libev/src/server/http_simple.c:4–17, 62–144, 165–248, 278–290, 500–607`: the texts
of the two requests and of the answer, the bytes hidden in the request line, and what the server
reads back from them.
-/

namespace OpenWrtCompile.Http
open OpenWrtCompile.Base

/-- `g_useragent`. -/
def gUseragent : List Bytes :=
  [ascii "Mozilla/5.0 (Windows NT 6.3; WOW64; rv:40.0) Gecko/20100101 Firefox/40.0",
    ascii "Mozilla/5.0 (Windows NT 6.3; WOW64; rv:40.0) Gecko/20100101 Firefox/44.0",
    ascii "Mozilla/5.0 (Windows NT 6.1) AppleWebKit/537.36 (KHTML, like Gecko) Chrome/41.0.2228.0 Safari/537.36",
    ascii "Mozilla/5.0 (X11; Linux x86_64) AppleWebKit/535.11 (KHTML, like Gecko) Ubuntu/11.10 Chromium/27.0.1453.93 Chrome/27.0.1453.93 Safari/537.36",
    ascii "Mozilla/5.0 (X11; Ubuntu; Linux x86_64; rv:35.0) Gecko/20100101 Firefox/35.0",
    ascii "Mozilla/5.0 (compatible; WOW64; MSIE 10.0; Windows NT 6.2)",
    ascii "Mozilla/5.0 (Windows; U; Windows NT 6.1; en-US) AppleWebKit/533.20.25 (KHTML, like Gecko) Version/5.0.4 Safari/533.20.27",
    ascii "Mozilla/4.0 (compatible; MSIE 7.0; Windows NT 6.3; Trident/7.0; .NET4.0E; .NET4.0C)",
    ascii "Mozilla/5.0 (Windows NT 6.3; Trident/7.0; rv:11.0) like Gecko",
    ascii "Mozilla/5.0 (Linux; Android 4.4; Nexus 5 Build/BuildID) AppleWebKit/537.36 (KHTML, like Gecko) Version/4.0 Chrome/30.0.0.0 Mobile Safari/537.36",
    ascii "Mozilla/5.0 (iPad; CPU OS 5_0 like Mac OS X) AppleWebKit/534.46 (KHTML, like Gecko) Version/5.1 Mobile/9A334 Safari/7534.48.3",
    ascii "Mozilla/5.0 (iPhone; CPU iPhone OS 5_0 like Mac OS X) AppleWebKit/534.46 (KHTML, like Gecko) Version/5.1 Mobile/9A334 Safari/7534.48.3"]

/-- `"\r\n\r\n"`, which ends a header. -/
def blankLine : Bytes := crlf ++ crlf

/-- The part of `server_info` that the plugins read. -/
structure ServerInfo where
  host : Bytes
  port : UInt16
  param : Option Bytes
  headLen : Int
  deriving DecidableEq, Repr

/-- The random choices of one request: two draws of `xorshift128plus`, `g_useragent_index` and the
draws of `rand` in `boundary`. -/
structure Draws where
  size : UInt64
  pick : UInt64
  agent : Fin 12
  rand : Nat → Nat

/-- `http_simple_hex`. -/
def httpSimpleHex (c : UInt8) : UInt8 := if c < 10 then c + 0x30 else c - 10 + 0x61

/-- The two digits of a byte in the request line. -/
def hexPair (b : UInt8) : Bytes := [httpSimpleHex (b >>> 4), httpSimpleHex (b &&& 0xF)]

/-- `http_simple_encode_head`. -/
def httpSimpleEncodeHead (data : Bytes) : Bytes := data.flatMap fun b ↦ 0x25 :: hexPair b

/-- One pass of the loop of `get_data_from_http_header`. Of a token of more than two bytes two are
copied, without a NUL behind them, so `strtol` reads on in `behind`, what the new block holds. -/
def hexToken (behind token : Bytes) : UInt8 :=
  toChar (strtol16 (if 2 < token.length then token.take 2 ++ behind else token))

/-- `get_data_from_http_header`: the tokens of the first line that a `%` is in front of. -/
def getDataFromHttpHeader (behind data : Bytes) : Bytes :=
  match strtok crlf (cString data 0) with
  | none => []
  | some (pLine, _) =>
    match strtok (ascii "%") pLine with
    | none => []
    | some (_, rest) => (tokens (ascii "%") rest.length rest).map (hexToken behind)

/-- `get_host_from_http_header`: what `host` holds then, `fresh` if nothing is copied to it. The
first `:` in memory ends the host, else the end of the line; more than 1024 bytes overrun `host`. -/
def getHostFromHttpHeader (fresh data : Bytes) : Option Bytes :=
  match strstr data (ascii "Host: ") with
  | none => some fresh
  | some i =>
    let dataBegin := (cString data 0).drop (i + 6)
    match strstr dataBegin (ascii ":"), strstr dataBegin crlf with
    | some n, _ | none, some n =>
      if n = 0 then some fresh
      else if 1024 < n then none
      else some (dataBegin.take n)
    | none, none => none

/-- The copy of what follows `#` to `body_buffer`: a line break leaves `p` on its second byte, which
is written over, and a backslash makes a line break of an `n`. -/
def bodyBuffer : Bool → Bytes → Bytes
  | _, [] => []
  | transChar, c :: s =>
    if c = 0x5C then bodyBuffer true s
    else if c = 0x0A then 0x0D :: bodyBuffer transChar s
    else if transChar then
      if c = 0x6E then crlf ++ bodyBuffer false s else c :: bodyBuffer false s
    else c :: bodyBuffer false s

/-- The loop over `hosts`: the names between commas up to `#`, and the body behind it. -/
def splitHosts : Bytes → List Bytes × Option Bytes
  | [] => ([[]], none)
  | c :: s =>
    if c = 0x23 then ([[]], some (bodyBuffer false s))
    else
      match splitHosts s with
      | ([], body) => ([], body)
      | (name :: names, body) =>
        if c = 0x2C then ([] :: name :: names, body) else ((c :: name) :: names, body)

/-- What the client copies to `hosts`. -/
def ServerInfo.hosts (info : ServerInfo) : Bytes :=
  match info.param with
  | none => cString info.host 0
  | some param => if cString param 0 = [] then cString info.host 0 else cString param 0

/-- `%d` of a number that is not negative. -/
def decimal (n : Nat) : Bytes := (Nat.toDigits 10 n).map fun c ↦ UInt8.ofNat c.toNat

/-- `hostport`, with the host that is drawn. -/
def hostport (info : ServerInfo) (draws : Draws) : Bytes :=
  let names := (splitHosts info.hosts).1
  let name := names.getD (draws.pick.toNat % names.length) []
  if info.port = 80 then name else name ++ ascii ":" ++ decimal info.port.toNat

/-- `str` in `boundary`. -/
def boundaryLetters : Bytes :=
  ascii "ABCDEFGHIJKLMNOPQRSTUVWXYZabcdefghijklmnopqrstuvwxyz0123456789"

/-- `boundary`: 32 letters or digits. -/
def boundary (draws : Draws) : Bytes :=
  (List.range 32).map fun i ↦ boundaryLetters.getD (draws.rand i % boundaryLetters.length) 0

/-- The two plugins of `new_obfs_class` that use this file. -/
inductive Plugin where
  | httpSimple
  | httpPost
  deriving DecidableEq, Repr

/-- The method of the request. -/
def Plugin.method : Plugin → Bytes
  | .httpSimple => ascii "GET"
  | .httpPost => ascii "POST"

/-- The header lines that only one of the plugins sends. -/
def Plugin.contentType (plugin : Plugin) (draws : Draws) : Bytes :=
  match plugin with
  | .httpSimple => []
  | .httpPost =>
    ascii "Content-Type: multipart/form-data; boundary=" ++ boundary draws ++ crlf

/-- The header lines behind `Host`, without or with a body of the user's. -/
def headerLines (plugin : Plugin) (draws : Draws) : Option Bytes → Bytes
  | some body => body ++ ascii "\r\n\r\n"
  | none =>
    ascii "User-Agent: " ++ gUseragent.getD draws.agent [] ++
      ascii "\r\nAccept: text/html,application/xhtml+xml,application/xml;q=0.9,*/*;q=0.8\r\nAccept-Language: en-US,en;q=0.8\r\nAccept-Encoding: gzip, deflate\r\n" ++
      plugin.contentType draws ++ ascii "DNT: 1\r\nConnection: keep-alive\r\n\r\n"

/-- The first line of a request. -/
def requestLine (plugin : Plugin) (head : Bytes) : Bytes :=
  plugin.method ++ ascii " /" ++ httpSimpleEncodeHead head ++ ascii " HTTP/1.1"

/-- The header of a request that hides `head`. -/
def requestHeader (plugin : Plugin) (draws : Draws) (info : ServerInfo) (head : Bytes) : Bytes :=
  requestLine plugin head ++ ascii "\r\nHost: " ++ hostport info draws ++ crlf ++
    headerLines plugin draws (splitHosts info.hosts).2

/-- `struct tm`. -/
structure Tm where
  wday : Fin 7
  mday : Nat
  mon : Fin 12
  year : Nat
  hour : Nat
  min : Nat
  sec : Nat
  deriving DecidableEq, Repr

/-- No random extra bytes, the first host, the first user agent. -/
def exampleDraws : Draws := ⟨0, 0, 0, fun _ ↦ 0⟩

/-- Monday, 1 January 2024, noon. -/
def exampleTm : Tm := ⟨1, 1, 0, 2024, 12, 0, 0⟩

/-- `%02d`. -/
def twoDigits (n : Nat) : Bytes := if n < 10 then 0x30 :: decimal n else decimal n

/-- `strftime` with `"%a, %d %b %Y %H:%M:%S GMT"`; `year` is `tm_year + 1900`. -/
def datetime (t : Tm) : Bytes :=
  [ascii "Sun", ascii "Mon", ascii "Tue", ascii "Wed", ascii "Thu", ascii "Fri",
      ascii "Sat"].getD t.wday [] ++ ascii ", " ++ twoDigits t.mday ++ ascii " " ++
    [ascii "Jan", ascii "Feb", ascii "Mar", ascii "Apr", ascii "May", ascii "Jun", ascii "Jul",
      ascii "Aug", ascii "Sep", ascii "Oct", ascii "Nov", ascii "Dec"].getD t.mon [] ++
    ascii " " ++ decimal t.year ++ ascii " " ++ twoDigits t.hour ++ ascii ":" ++ twoDigits t.min ++
    ascii ":" ++ twoDigits t.sec ++ ascii " GMT"

/-- The header of the answer up to the date. -/
def responseStart : Bytes :=
  ascii "HTTP/1.1 200 OK\r\nConnection: keep-alive\r\nContent-Encoding: gzip\r\nContent-Type: text/html\r\nDate: "

/-- The header of the answer behind the date. -/
def responseEnd : Bytes := ascii "\r\nServer: nginx\r\nVary: Accept-Encoding\r\n\r\n"

/-- The header of the answer. -/
def responseHeader (t : Tm) : Bytes := responseStart ++ datetime t ++ responseEnd

/-- What holds of the bytes below 256 holds of all. -/
theorem forall_byte {P : UInt8 → Prop} (h : ∀ n, n < 256 → P (UInt8.ofNat n)) (b : UInt8) : P b := by
  have hb := h b.toNat b.toNat_lt
  rwa [UInt8.ofNat_toNat] at hb

/-- The digits of a byte are digits of `strtol`. -/
theorem isSome_xdigit_hexPair (b : UInt8) : ∀ c ∈ hexPair b, (xdigit? c).isSome = true := by
  have hall : ∀ b, ((hexPair b).all fun c ↦ decide ((xdigit? c).isSome = true)) = true := by
    apply forall_byte
    decide +kernel
  exact forall_mem_of_all (hall b)

/-- `strtol` reads a byte back from its digits. -/
theorem strtol_hexPair (b : UInt8) : toChar (strtol16 (hexPair b)) = b := by
  revert b
  apply forall_byte
  decide +kernel

/-- No delimiter is a digit, nor is NUL. -/
theorem not_mem_hexPair (b c : UInt8) (hc : xdigit? c = none) : c ∉ hexPair b := by
  intro hmem
  have hdigit := isSome_xdigit_hexPair b c hmem
  rw [hc] at hdigit
  cases hdigit

/-- Neither is a byte of the encoded head, but for the `%`. -/
theorem not_mem_encodeHead (data : Bytes) {c : UInt8} (hc : xdigit? c = none) (hne : c ≠ 0x25) :
    c ∉ httpSimpleEncodeHead data := by
  intro hmem
  obtain ⟨b, -, hb⟩ := List.mem_flatMap.mp hmem
  rcases List.mem_cons.mp hb with rfl | hb
  · exact hne rfl
  · exact not_mem_hexPair b c hc hb

/-- A request line is longer than the ten bytes that `server_decode` asks for. -/
theorem lt_length_requestLine (plugin : Plugin) (head : Bytes) :
    10 < (requestLine plugin head).length := by
  have hmethod : 3 ≤ plugin.method.length := by
    cases plugin <;> decide
  have hslash : (ascii " /").length = 2 := rfl
  have hversion : (ascii " HTTP/1.1").length = 9 := rfl
  unfold requestLine
  simp only [List.length_append]
  omega

/-- A byte takes three in the request line. -/
theorem length_encodeHead (data : Bytes) : (httpSimpleEncodeHead data).length = 3 * data.length := by
  induction data with
  | nil => rfl
  | cons b data ih =>
    unfold httpSimpleEncodeHead at ih ⊢
    rw [List.flatMap_cons, List.length_append, ih, List.length_cons, List.length_cons]
    simp only [hexPair, List.length_cons, List.length_nil]
    omega

/-- What the server reads of the head: of the last byte, the digits and what follows them in the
new block. -/
def readHead (behind : Bytes) : Bytes → Bytes
  | [] => []
  | [b] => [toChar (strtol16 (hexPair b ++ behind))]
  | b :: c :: head => b :: readHead behind (c :: head)

/-- As many bytes are read as were hidden. -/
theorem length_readHead (behind head : Bytes) : (readHead behind head).length = head.length := by
  induction head using readHead.induct with
  | case1 => rfl
  | case2 b => rfl
  | case3 b c head ih => exact congrArg (· + 1) ih

/-- The head is read right if and only if its last byte is. -/
theorem readHead_eq_iff (behind head : Bytes) :
    readHead behind head = head ↔
      ∀ b ∈ head.getLast?, toChar (strtol16 (hexPair b ++ behind)) = b := by
  induction head using readHead.induct with
  | case1 => simp [readHead]
  | case2 b => simp [readHead]
  | case3 b c head ih =>
    rw [readHead, List.cons.injEq, List.getLast?_cons_cons, ← ih]
    simp only [true_and]

/-- The tokens of the encoded head, the last one with the rest of the line. -/
theorem tokens_encodeHead (behind : Bytes) (b : UInt8) (head tail : Bytes) (fuel : Nat)
    (hfuel : head.length < fuel) (htail : tail ≠ []) (hpercent : 0x25 ∉ tail) :
    (tokens (ascii "%") fuel (hexPair b ++ (httpSimpleEncodeHead head ++ tail))).map
      (hexToken behind) = readHead behind (b :: head) := by
  have hdelim : ascii "%" = [0x25] := rfl
  have hpair (b : UInt8) : ∀ c ∈ hexPair b, c ∉ ascii "%" := by
    intro c hc hmem
    rw [hdelim, List.mem_singleton] at hmem
    exact not_mem_hexPair b 0x25 rfl (hmem ▸ hc)
  induction head generalizing b fuel with
  | nil =>
    obtain ⟨fuel, rfl⟩ := Nat.exists_eq_succ_of_ne_zero (by omega : fuel ≠ 0)
    have hall : ∀ c ∈ hexPair b ++ tail, c ∉ ascii "%" := by
      intro c hc hmem
      rcases List.mem_append.mp hc with hc | hc
      · exact hpair b c hc hmem
      · rw [hdelim, List.mem_singleton] at hmem
        exact hpercent (hmem ▸ hc)
    have hlong : 2 < (hexPair b ++ tail).length := by
      have := List.length_pos_iff.mpr htail
      simp only [List.length_append, hexPair, List.length_cons, List.length_nil]
      omega
    have hnil : (tokens (ascii "%") fuel []).map (hexToken behind) = [] := by
      cases fuel with
      | zero => rfl
      | succ fuel => rfl
    have hpairs : httpSimpleEncodeHead [] = [] := rfl
    rw [hpairs, List.nil_append, tokens, strtok_self (by simp [hexPair]) hall]
    simp only [List.map_cons, hnil, hexToken, hlong, if_true]
    rfl
  | cons c head ih =>
    obtain ⟨fuel, rfl⟩ := Nat.exists_eq_succ_of_ne_zero (by omega : fuel ≠ 0)
    have hnext : httpSimpleEncodeHead (c :: head) ++ tail =
        0x25 :: (hexPair c ++ (httpSimpleEncodeHead head ++ tail)) := by
      unfold httpSimpleEncodeHead
      rw [List.flatMap_cons, List.cons_append, List.cons_append, List.append_assoc]
    have htwo : hexToken behind (hexPair b) = b := strtol_hexPair b
    rw [hnext, tokens, strtok_append _ (by simp [hexPair]) (hpair b) (by simp [hdelim])]
    simp only [List.map_cons]
    rw [htwo, ih c fuel (by rw [List.length_cons] at hfuel; omega), readHead]

/-- A byte that is not in the fixed part of a request line, and no digit, is not in the line. -/
theorem not_mem_requestLine (plugin : Plugin) (head : Bytes) {c : UInt8}
    (hc : c ∈ [0x0D, 0x0A, 0, 0x3A]) : c ∉ requestLine plugin head := by
  have hfixed : ∀ c ∈ [(0x0D : UInt8), 0x0A, 0, 0x3A], c ∉ plugin.method ++ ascii " /" ∧
      c ∉ ascii " HTTP/1.1" ∧ xdigit? c = none ∧ c ≠ 0x25 := by
    apply forall_mem_of_all
    cases plugin <;> decide
  obtain ⟨hmethod, hversion, hdigit, hpercent⟩ := hfixed c hc
  intro hmem
  rcases List.mem_append.mp hmem with hmem | hmem
  · rcases List.mem_append.mp hmem with hmem | hmem
    · exact hmethod hmem
    · exact not_mem_encodeHead head hdigit hpercent hmem
  · exact hversion hmem

/-- `get_data_from_http_header` reads the head back from the first line of a request. -/
theorem getData_requestLine (plugin : Plugin) (behind head rest : Bytes) :
    getDataFromHttpHeader behind (requestLine plugin head ++ 0x0D :: rest) =
      readHead behind head := by
  have hdelim : ascii "%" = [0x25] := rfl
  have hline : cString (requestLine plugin head ++ 0x0D :: rest) 0 =
      requestLine plugin head ++ 0x0D :: cString rest 0 := by
    rw [cString_append _ (not_mem_requestLine plugin head (by decide))]
    rfl
  have hne : requestLine plugin head ≠ [] := by
    cases plugin <;> exact List.cons_ne_nil _ _
  have hfirst : strtok crlf (requestLine plugin head ++ 0x0D :: cString rest 0) =
      some (requestLine plugin head, cString rest 0) := by
    apply strtok_append _ hne _ List.mem_cons_self
    intro c hc hmem
    have hnot : c ∉ requestLine plugin head := by
      apply not_mem_requestLine
      rcases List.mem_cons.mp hmem with rfl | hmem
      · decide
      · rw [List.mem_singleton.mp hmem]
        decide
    exact hnot hc
  have hmethod : ∀ c ∈ plugin.method ++ ascii " /", c ∉ ascii "%" := by
    apply forall_mem_of_all
    cases plugin <;> decide
  have hstart : plugin.method ++ ascii " /" ≠ [] := by
    cases plugin <;> decide
  unfold getDataFromHttpHeader
  rw [hline, hfirst]
  simp only
  cases head with
  | nil =>
    have hall : ∀ c ∈ requestLine plugin [], c ∉ ascii "%" := by
      apply forall_mem_of_all
      cases plugin <;> decide
    rw [strtok_self hne hall]
    rfl
  | cons b head =>
    have hsplit : requestLine plugin (b :: head) = (plugin.method ++ ascii " /") ++
        0x25 :: (hexPair b ++ (httpSimpleEncodeHead head ++ ascii " HTTP/1.1")) := by
      unfold requestLine httpSimpleEncodeHead
      simp only [List.flatMap_cons, List.cons_append, List.append_assoc]
    rw [hsplit, strtok_append _ hstart hmethod (by simp [hdelim])]
    simp only
    apply tokens_encodeHead behind b head _ _ _ (by decide) (by decide)
    have hpair : (hexPair b).length = 2 := rfl
    rw [List.length_append, List.length_append, length_encodeHead, hpair]
    omega

/-- The digits of a number are digits. -/
theorem digit_of_mem_decimal {n : Nat} {c : UInt8} (h : c ∈ decimal n) : 0x30 ≤ c ∧ c ≤ 0x39 := by
  obtain ⟨d, hd, rfl⟩ := List.mem_map.mp h
  have hdigit := Nat.isDigit_of_mem_toDigits (by decide) (by decide) hd
  simp only [Char.isDigit, Bool.and_eq_true, decide_eq_true_eq] at hdigit
  have hlow : 48 ≤ d.toNat := hdigit.1
  have hhigh : d.toNat ≤ 57 := hdigit.2
  have hsize : d.toNat < UInt8.size := Nat.lt_of_le_of_lt hhigh (by decide)
  rw [UInt8.le_iff_toNat_le, UInt8.le_iff_toNat_le, UInt8.toNat_ofNat_of_lt' hsize]
  exact ⟨hlow, hhigh⟩

/-- The copied body holds bytes of the parameter and line breaks. -/
theorem mem_bodyBuffer {transChar : Bool} {s : Bytes} {c : UInt8} (h : c ∈ bodyBuffer transChar s) :
    c ∈ s ∨ c ∈ crlf := by
  induction s generalizing transChar with
  | nil => cases h
  | cons x s ih =>
    have hnext {t : Bool} (h : c ∈ bodyBuffer t s) : c ∈ x :: s ∨ c ∈ crlf :=
      (ih h).imp (List.mem_cons_of_mem x) id
    unfold bodyBuffer at h
    split at h
    · exact hnext h
    · split at h
      · rcases List.mem_cons.mp h with rfl | h
        · exact .inr List.mem_cons_self
        · exact hnext h
      · split at h
        · split at h
          · rcases List.mem_append.mp h with h | h
            · exact .inr h
            · exact hnext h
          · rcases List.mem_cons.mp h with rfl | h
            · exact .inl List.mem_cons_self
            · exact hnext h
        · rcases List.mem_cons.mp h with rfl | h
          · exact .inl List.mem_cons_self
          · exact hnext h

/-- The names and the body hold bytes of the parameter, the body line breaks too. -/
theorem mem_splitHosts {s : Bytes} :
    (∀ name ∈ (splitHosts s).1, name ⊆ s) ∧
      ∀ body ∈ (splitHosts s).2, ∀ c ∈ body, c ∈ s ∨ c ∈ crlf := by
  induction s with
  | nil => simp [splitHosts]
  | cons x s ih =>
    obtain ⟨hnames, hbody⟩ := ih
    unfold splitHosts
    split
    · refine ⟨by simp, ?_⟩
      rintro body hmem c hc
      cases hmem
      exact (mem_bodyBuffer hc).imp (List.mem_cons_of_mem x) id
    · cases hrest : splitHosts s with
      | mk names body =>
        rw [hrest] at hnames hbody
        have hbody' : ∀ b ∈ body, ∀ c ∈ b, c ∈ x :: s ∨ c ∈ crlf := fun b hb c hc ↦
          (hbody b hb c hc).imp (List.mem_cons_of_mem x) id
        cases names with
        | nil => exact ⟨by simp, hbody'⟩
        | cons name names =>
          have hold : ∀ n ∈ name :: names, n ⊆ x :: s := fun n hn c hc ↦
            List.mem_cons_of_mem x (hnames n hn hc)
          simp only
          split
          · refine ⟨?_, hbody'⟩
            intro n hn
            rcases List.mem_cons.mp hn with rfl | hn
            · exact List.nil_subset _
            · exact hold n hn
          · refine ⟨?_, hbody'⟩
            intro n hn
            rcases List.mem_cons.mp hn with rfl | hn
            · exact List.cons_subset_cons x (hnames name List.mem_cons_self)
            · exact hold n (List.mem_cons_of_mem name hn)

/-- The hosts are a C string. -/
theorem not_mem_hosts (info : ServerInfo) : 0 ∉ info.hosts := by
  unfold ServerInfo.hosts
  split
  · exact not_mem_cString _ _
  · split
    · exact not_mem_cString _ _
    · exact not_mem_cString _ _

/-- There is no NUL in `hostport`. -/
theorem not_mem_hostport (info : ServerInfo) (draws : Draws) : 0 ∉ hostport info draws := by
  have hname : 0 ∉ (splitHosts info.hosts).1.getD
      (draws.pick.toNat % (splitHosts info.hosts).1.length) [] := by
    rw [List.getD_eq_getElem?_getD]
    cases hget : (splitHosts info.hosts).1[draws.pick.toNat % (splitHosts info.hosts).1.length]? with
    | none => simp
    | some name =>
      intro hmem
      exact not_mem_hosts info (mem_splitHosts.1 name (List.mem_of_getElem? hget) hmem)
  unfold hostport
  simp only
  split
  · exact hname
  · intro hmem
    rcases List.mem_append.mp hmem with hmem | hmem
    · rcases List.mem_append.mp hmem with hmem | hmem
      · exact hname hmem
      · revert hmem
        decide
    · have hdigit := (digit_of_mem_decimal hmem).1
      revert hdigit
      decide

/-- There is no NUL in a user agent. -/
theorem not_mem_gUseragent : ∀ agent ∈ gUseragent, 0 ∉ agent := by
  unfold gUseragent
  simp only [List.forall_mem_cons]
  refine ⟨?_, ?_, ?_, ?_, ?_, ?_, ?_, ?_, ?_, ?_, ?_, ?_, List.forall_mem_nil _⟩
  all_goals
    rw [ascii_ofList]
    decide

/-- There is no NUL in `boundary`. -/
theorem not_mem_boundary (draws : Draws) : 0 ∉ boundary draws := by
  have hletters : 0 ∉ boundaryLetters ∧ 0 < boundaryLetters.length := by
    unfold boundaryLetters
    rw [ascii_ofList]
    decide
  obtain ⟨hletters, hlength⟩ := hletters
  intro hmem
  obtain ⟨i, -, hi⟩ := List.mem_map.mp hmem
  have hlt : draws.rand i % boundaryLetters.length < boundaryLetters.length :=
    Nat.mod_lt _ hlength
  rw [List.getD_eq_getElem?_getD, List.getElem?_eq_getElem hlt, Option.getD_some] at hi
  exact hletters (hi ▸ List.getElem_mem hlt)

/-- There is no NUL in the lines behind `Host`. -/
theorem not_mem_headerLines (plugin : Plugin) (draws : Draws) {body : Option Bytes}
    (hbody : ∀ b ∈ body, 0 ∉ b) : 0 ∉ headerLines plugin draws body := by
  have hagent : 0 ∉ gUseragent.getD draws.agent [] := by
    have hlt : draws.agent.val < gUseragent.length := draws.agent.isLt
    rw [List.getD_eq_getElem?_getD, List.getElem?_eq_getElem hlt, Option.getD_some]
    exact not_mem_gUseragent _ (List.getElem_mem hlt)
  have htype : 0 ∉ plugin.contentType draws := by
    cases plugin with
    | httpSimple => exact List.not_mem_nil
    | httpPost =>
      have hconst : 0 ∉ ascii "Content-Type: multipart/form-data; boundary=" := by
        rw [ascii_ofList]
        decide
      simp only [Plugin.contentType, List.mem_append, not_or]
      exact ⟨⟨hconst, not_mem_boundary draws⟩, by decide⟩
  unfold headerLines
  split
  · next b =>
    rw [List.mem_append, not_or]
    exact ⟨hbody b rfl, by decide⟩
  · simp only [List.mem_append, not_or]
    refine ⟨⟨⟨⟨?_, hagent⟩, ?_⟩, htype⟩, ?_⟩
    all_goals
      rw [ascii_ofList]
      decide

/-- There is no NUL in a request header. -/
theorem not_mem_requestHeader (plugin : Plugin) (draws : Draws) (info : ServerInfo) (head : Bytes) :
    0 ∉ requestHeader plugin draws info head := by
  have hline : 0 ∉ requestLine plugin head := not_mem_requestLine plugin head (by decide)
  have hlines : 0 ∉ headerLines plugin draws (splitHosts info.hosts).2 := by
    apply not_mem_headerLines
    intro b hb hmem
    rcases mem_splitHosts.2 b hb 0 hmem with h | h
    · exact not_mem_hosts info h
    · revert h
      decide
  have hhost : 0 ∉ ascii "\r\nHost: " := by
    rw [ascii_ofList]
    decide
  unfold requestHeader
  simp only [List.mem_append, not_or]
  exact ⟨⟨⟨⟨hline, hhost⟩, not_mem_hostport info draws⟩, by decide⟩, hlines⟩

/-- The lines behind `Host` end with an empty one. -/
theorem blankLine_suffix_headerLines (plugin : Plugin) (draws : Draws) (body : Option Bytes) :
    blankLine <:+ headerLines plugin draws body := by
  cases body with
  | none =>
    have hend : blankLine <:+ ascii "DNT: 1\r\nConnection: keep-alive\r\n\r\n" := by
      rw [ascii_ofList]
      decide
    exact hend.trans (List.suffix_append _ _)
  | some b => exact List.suffix_append b _

/-- A request header has an empty line, and none starts in its first line. -/
theorem exists_blankLine (plugin : Plugin) (draws : Draws) (info : ServerInfo) (head : Bytes) :
    ∃ i, Search.find? blankLine (requestHeader plugin draws info head) = some i ∧
      (requestLine plugin head).length ≤ i := by
  have hline : (0x0D : UInt8) ∉ requestLine plugin head :=
    not_mem_requestLine plugin head (by decide)
  have hsuffix := blankLine_suffix_headerLines plugin draws (splitHosts info.hosts).2
  have hrest : blankLine <:+: ascii "\r\nHost: " ++ (hostport info draws ++ (crlf ++
      headerLines plugin draws (splitHosts info.hosts).2)) := by
    apply List.IsSuffix.isInfix
    exact ((hsuffix.trans (List.suffix_append _ _)).trans (List.suffix_append _ _)).trans
      (List.suffix_append _ _)
  obtain ⟨i, hi⟩ := Search.exists_find?_of_infix hrest
  refine ⟨(requestLine plugin head).length + i, ?_, Nat.le_add_right _ _⟩
  unfold requestHeader blankLine crlf at *
  rw [List.append_assoc, List.append_assoc, List.append_assoc, List.cons_append,
    Search.find?_append_of_not_mem _ hline]
  exact congrArg (Option.map _) hi

/-- There is no carriage return and no NUL in the date. -/
theorem not_mem_datetime (t : Tm) {c : UInt8} (hc : c ∈ [0x0D, 0]) : c ∉ datetime t := by
  have hfixed : ∀ c ∈ [(0x0D : UInt8), 0], c < 0x30 ∧ c ∉ ascii ", " ∧ c ∉ ascii " " ∧
      c ∉ ascii ":" ∧ c ∉ ascii " GMT" := by
    apply forall_mem_of_all
    decide
  have hday : ∀ c ∈ [(0x0D : UInt8), 0], ∀ i : Fin 7, c ∉ [ascii "Sun", ascii "Mon", ascii "Tue",
      ascii "Wed", ascii "Thu", ascii "Fri", ascii "Sat"].getD i [] := by
    apply forall_mem_of_all
    decide
  have hmonth : ∀ c ∈ [(0x0D : UInt8), 0], ∀ i : Fin 12, c ∉ [ascii "Jan", ascii "Feb",
      ascii "Mar", ascii "Apr", ascii "May", ascii "Jun", ascii "Jul", ascii "Aug", ascii "Sep",
      ascii "Oct", ascii "Nov", ascii "Dec"].getD i [] := by
    apply forall_mem_of_all
    decide
  obtain ⟨hlow, hcomma, hblank, hcolon, hzone⟩ := hfixed c hc
  have hdecimal (n : Nat) : c ∉ decimal n := fun h ↦
    absurd (digit_of_mem_decimal h).1 (UInt8.not_le.mpr hlow)
  have htwo (n : Nat) : c ∉ twoDigits n := by
    unfold twoDigits
    split
    · rw [List.mem_cons, not_or]
      exact ⟨UInt8.ne_of_lt hlow, hdecimal n⟩
    · exact hdecimal n
  unfold datetime
  simp only [List.mem_append, hday c hc, hmonth c hc, hdecimal, htwo, hcomma, hblank, hcolon, hzone,
    or_self, not_false_eq_true]

/-- There is no NUL in the header of the answer. -/
theorem not_mem_responseHeader (t : Tm) : 0 ∉ responseHeader t := by
  have hstart : 0 ∉ responseStart := by
    unfold responseStart
    rw [ascii_ofList]
    decide
  have hend : 0 ∉ responseEnd := by
    unfold responseEnd
    rw [ascii_ofList]
    decide
  have hdate : 0 ∉ datetime t := not_mem_datetime t (by decide)
  unfold responseHeader
  simp only [List.mem_append, hstart, hdate, hend, or_self, not_false_eq_true]

/-- The only empty line of the answer is the one that ends it. -/
theorem find?_responseHeader (t : Tm) : Search.find? blankLine (responseHeader t) =
    some ((responseHeader t).length - 4) := by
  have hstart : ∀ j, j < responseStart.length →
      ¬ blankLine.take (responseStart.length - j) <+: responseStart.drop j := by
    unfold responseStart
    rw [ascii_ofList]
    decide
  have hdate : Search.find? blankLine (datetime t ++ responseEnd) =
      (Search.find? blankLine responseEnd).map ((datetime t).length + ·) :=
    Search.find?_append_of_not_mem responseEnd (not_mem_datetime t (by decide))
  have hend : Search.find? blankLine responseEnd = some 38 ∧ responseEnd.length = 42 := by
    unfold responseEnd
    rw [ascii_ofList]
    decide
  obtain ⟨hend, hlength⟩ := hend
  unfold responseHeader
  rw [List.append_assoc, Search.find?_append_of_clear _ hstart, hdate, hend, Option.map_some,
    Option.map_some, List.length_append, List.length_append, hlength]
  generalize responseStart.length = n
  apply congrArg some
  omega

end OpenWrtCompile.Http
