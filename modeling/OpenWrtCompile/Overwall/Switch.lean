import OpenWrtCompile.Base.Bytes

/-!
# The switch to another server

`luci-app-overwall/root/usr/share/overwall/switch`: the loop that watches the current server, and
`select_proxy`, which looks for another one. The functions of the script share their variables, also
the `i` of its `for` loops. Variables in tests are not quoted, so a value stands for its words. What
the programs that are called find in the network is a parameter.
-/

namespace OpenWrtCompile.Overwall.Switch
open OpenWrtCompile.Base

/-- `[ $l = $r ]` for the words of two values; a test that cannot be parsed fails. -/
def testEq : List Bytes → List Bytes → Bool
  | [], [] => true
  | [x], [y] => x = y
  | _, _ => false

/-- `[ $l != $r ]`. -/
def testNe : List Bytes → List Bytes → Bool
  | [], [] => true
  | [x], [y] => x ≠ y
  | _, _ => false

/-- The words of a value that is one word or empty. -/
def words (value : Bytes) : List Bytes := if value = [] then [] else [value]

/-- The options that the script asks for, whatever node it has. -/
def askedFor : List Bytes :=
  [ascii "switch_enable", ascii "server", ascii "kcp_enable", ascii "encrypt_method_ss",
    ascii "type"]

/-- The configuration: the names of the nodes in their order, and the value of an option of a
section, empty if there is none. The names are such as `uci` makes up. -/
structure Config where
  servers : List Bytes
  get : Bytes → Bytes → Bytes
  name_ne_nil : [] ∉ servers
  name_ne_one : ascii "1" ∉ servers
  get_name : ∀ x ∈ servers, ∀ y ∈ servers, get x y = []
  get_option : ∀ o ∈ askedFor, ∀ v, get o v = []

/-- `uci_get_by_name`. -/
def Config.getByName (cfg : Config) (args : List Bytes) : Bytes :=
  let w := cfg.get (args.getD 0 []) (args.getD 1 [])
  if w = [] then args.getD 2 [] else w

/-- What the script finds when it calls other programs: the address that `nslookup` gives within ten
tries, the open ports of a server, the programs of a type that are installed, whether one that is
started listens, and the exit status of `curl` through a node. -/
structure World where
  lookup : Bytes → Option Bytes
  check : Bytes → Bytes → Bool
  tcping : Bytes → Bytes → Bool
  program : Bytes → Bool
  listens : List Bytes → Bool
  curl : List Bytes → Nat

def isDigit (c : UInt8) : Bool := 0x30 ≤ c && c ≤ 0x39

def isHex (c : UInt8) : Bool :=
  isDigit c || (0x41 ≤ c && c ≤ 0x46) || (0x61 ≤ c && c ≤ 0x66)

/-- The pattern of `get_ip`. -/
def isAddress (ip : Bytes) : Bool :=
  let v4 := ip.splitOn 0x2E
  let v6 := ip.splitOn 0x3A
  (v4.length = 4 && v4.all fun p ↦ 1 ≤ p.length && p.length ≤ 3 && p.all isDigit) ||
    (2 ≤ v6.length && v6.length ≤ 8 && v6.all fun p ↦ p.length ≤ 4 && p.all isHex)

/-- `get_ip`: the address, unless it returns 1, and `i`. -/
def getIp (w : World) (ip : Bytes) : Option Bytes × Nat :=
  if isAddress ip then (some ip, 0)
  else
    match w.lookup ip with
    | none => (none, 0)
    | some ip => if ip = [] then (none, 1) else (some ip, 0)

/-- The types of which `curl_check` starts a program. -/
def started (type : Bytes) : Bool :=
  type ∈ [ascii "ss", ascii "ssr", ascii "ss2022", ascii "vmess", ascii "vless", ascii "trojan",
    ascii "naiveproxy"]

/-- The type of a node that `curl_check` goes by. -/
def checkedType (cfg : Config) (node : List Bytes) : Bytes :=
  if cfg.getByName (node ++ [ascii "encrypt_method_ss"]) ∈ [ascii "2022-blake3-aes-128-gcm",
    ascii "2022-blake3-aes-256-gcm", ascii "2022-blake3-chacha20-poly1305"] then ascii "ss2022"
  else cfg.getByName (node ++ [ascii "type"])

/-- `curl_check`: what it returns, and `i`. Only a node that `curl` is called for sets `i`. -/
def curlCheck (cfg : Config) (w : World) (node : List Bytes) (i : Nat) : Nat × Nat :=
  let type := checkedType cfg node
  let kcp := cfg.getByName (node ++ [ascii "kcp_enable", ascii "0"])
  let auth := cfg.getByName (node ++ [ascii "auth_enable", ascii "0"])
  let username := cfg.getByName (node ++ [ascii "username"])
  if testEq (words kcp) [ascii "1"] then (1, i)
  else if testEq (words type) [ascii "tun"] then (w.curl node, w.curl node)
  else if testNe (words type) [ascii "socks5"] && !w.program type then (1, i)
  else if type = ascii "socks5" ∧ testEq (words auth) [ascii "1"] = true ∧ username = [] then (1, i)
  else if started type && w.listens node then (w.curl node, w.curl node)
  -- nothing listens on the port that `gen_port` has found free
  else (1, i)

/-- `test_proxy`: whether it returns 0, and `i`. -/
def testProxy (cfg : Config) (w : World) (node : List Bytes) : Bool × Nat :=
  match getIp w (cfg.getByName (node ++ [ascii "server"])) with
  | (none, i) => (false, i)
  | (some ip, i) =>
    if w.tcping ip (cfg.getByName (node ++ [ascii "server_port"])) then
      let (b, i) := curlCheck cfg w node i
      (b = 0, i)
    else (false, i)

/-- The loop of `check_proxy` over its tries: `a` and `i`. -/
def checkLoop (google taobao : Nat → Bool) : List Nat → Nat × Nat → Nat × Nat
  | [], s => s
  | k :: ks, _ =>
    if google k then (0, k) else checkLoop google taobao ks (if taobao k then 1 else 2, k)

/-- The variables of the script that are kept from round to round; `SERVER_C` is `none` for 0. -/
structure Shell where
  serverB : List Bytes
  serverC : Option (List Bytes)
  c : Nat
  i : Nat
  deriving DecidableEq, Repr

/-- What `sed -n 0p` prints: every line, or only an error. -/
inductive Sed
  | busybox
  | gnu
  deriving DecidableEq, Repr

/-- The words of the line `i` of the list of nodes. -/
def lineWords (sed : Sed) (servers : List Bytes) : Nat → List Bytes
  | 0 => match sed with
    | .busybox => servers
    | .gnu => []
  | i + 1 => servers[i]?.toList

/-- The current server, and a node without the automatic switch, are passed over. -/
def passesOver (cfg : Config) (serverB d : List Bytes) : Bool :=
  testEq d serverB ||
    testNe (words (cfg.getByName (d ++ [ascii "switch_enable", ascii "0"]))) [ascii "1"]

/-- One pass of the loop of `select_proxy`: whether it takes the node, and `i`. -/
def visit (cfg : Config) (w : World) (serverB d : List Bytes) (i : Nat) : Bool × Nat :=
  if passesOver cfg serverB d then (false, i)
  else
    match getIp w (cfg.getByName (d ++ [ascii "server"])) with
    | (none, i) => (false, i)
    | (some ip, i) =>
      if w.check ip (cfg.getByName (d ++ [ascii "server_port"])) then
        let (y, i) := curlCheck cfg w (d.take 1) i
        (y = 0, i)
      else (false, i)

/-- The loop of `select_proxy` over these numbers of lines; `world k` is the world at pass `k`. -/
def scan (sed : Sed) (cfg : Config) (world : Nat → World) : List Nat → Shell → Shell
  | [], s => s
  | k :: ks, s =>
    let d := lineWords sed cfg.servers k
    match visit cfg (world k) s.serverB d k with
    | (true, i) => { s with serverC := some d, c := i, i := i }
    | (false, i) => scan sed cfg world ks { s with i := i }

/-- `select_proxy`. The list of no nodes has one line too. -/
def selectProxy (sed : Sed) (cfg : Config) (world : Nat → World) (s : Shell) : Shell :=
  let b := max 1 cfg.servers.length
  let c := if b ≤ s.c then 1 else s.c
  scan sed cfg world (List.range' c (b + 1 - c)) { s with serverC := none, c := c }

/-- What one round of the main loop finds; `stale` is what `check_proxy` returns without a try. -/
structure Round where
  cfg : Config
  main : World
  google : Nat → Bool
  taobao : Nat → Bool
  tries : Nat
  stale : Nat
  scanned : Nat → World

/-- A round up to the call of `select_proxy`: with what `check_proxy` returns, unless the script has
switched back to the main server. -/
def checks (serverA : List Bytes) (r : Round) (s : Shell) : Shell × Option Nat :=
  let away := testNe serverA s.serverB
  let t := testProxy r.cfg r.main serverA
  if away && t.1 then ({ s with serverB := serverA, i := t.2 }, none)
  else
    let a := checkLoop r.google r.taobao (List.range' 1 r.tries) (r.stale, if away then t.2 else s.i)
    ({ s with i := a.2 }, some a.1)

/-- One round of the main loop. -/
def round (sed : Sed) (serverA : List Bytes) (s : Shell) (r : Round) : Shell :=
  match checks serverA r s with
  | (s, some 1) =>
    let s := selectProxy sed r.cfg r.scanned s
    match s.serverC with
    | some d => { s with serverB := d }
    | none => s
  | (s, _) => s

/-- The main loop from its start. -/
def run (sed : Sed) (serverA : List Bytes) (start : Nat) (rounds : List Round) : Shell :=
  rounds.foldl (round sed serverA) ⟨serverA, none, 1, start⟩

/-! ## What a pass takes -/

/-- A node that the script may switch to: it is not the current one, may be switched to, resolves,
and passes both checks. -/
structure Live (cfg : Config) (w : World) (serverB : List Bytes) (d : Bytes) : Prop where
  mem : d ∈ cfg.servers
  other : serverB ≠ [d]
  enabled : cfg.get d (ascii "switch_enable") = ascii "1"
  answers : ∃ ip, (getIp w (cfg.get d (ascii "server"))).1 = some ip ∧
    w.check ip (cfg.get d (ascii "server_port")) = true
  works : (curlCheck cfg w [d] 0).1 = 0

section visits
variable {cfg : Config} {w : World} {serverB : List Bytes}

theorem testEq_singleton {d : Bytes} {r : List Bytes} : testEq [d] r = true ↔ r = [d] := by
  match r with
  | [] => simp [testEq]
  | [y] => simp [testEq, eq_comm]
  | _ :: _ :: _ => simp [testEq]

/-- An option of a node that has no default. -/
theorem getByName_node (d o : Bytes) : cfg.getByName [d, o] = cfg.get d o := by
  unfold Config.getByName
  simp only [List.getD_cons_zero, List.getD_cons_succ, List.getD_nil]
  split
  · next h => exact h.symm
  · rfl

/-- The status of `curl_check` does not depend on `i`. -/
theorem curlCheck_status (node : List Bytes) (i j : Nat) :
    (curlCheck cfg w node i).1 = (curlCheck cfg w node j).1 := by
  unfold curlCheck
  simp only
  split_ifs <;> rfl

/-- A node that works leaves 0 in `i`. -/
theorem curlCheck_snd {node : List Bytes} {i : Nat} (h : (curlCheck cfg w node i).1 = 0) :
    (curlCheck cfg w node i).2 = 0 := by
  unfold curlCheck at h ⊢
  simp only at h ⊢
  split_ifs at h ⊢ <;> exact h

/-- What takes a node leaves 0 in `i`. -/
theorem visit_snd {d : List Bytes} {k : Nat} (h : (visit cfg w serverB d k).1 = true) :
    (visit cfg w serverB d k).2 = 0 := by
  unfold visit at h ⊢
  split at h
  · cases h
  · next hover =>
    rw [if_neg hover]
    split at h
    · cases h
    · split at h
      · next hcheck =>
        rw [if_pos hcheck]
        exact curlCheck_snd (of_decide_eq_true h)
      · cases h

/-- The passes that are not made over one of the nodes take nothing: those over several names are
passed over, and for none there is no type of which `curl_check` would start a program. -/
theorem visit_of_length {d : List Bytes} {k : Nat} (hd : d ⊆ cfg.servers) (hlen : d.length ≠ 1) :
    (visit cfg w serverB d k).1 = false := by
  match d, hlen with
  | [], _ =>
    have hnone (o : Bytes) (ho : o ∈ askedFor) : cfg.getByName [o] = [] := by
      simp [Config.getByName, cfg.get_option o ho]
    have hkcp : cfg.getByName [ascii "kcp_enable", ascii "0"] = [] := by
      simp [Config.getByName, cfg.get_option (ascii "kcp_enable") (by decide)]
    have htype : checkedType cfg [] = [] := by
      unfold checkedType
      rw [List.nil_append, List.nil_append, hnone _ (by decide), hnone _ (by decide)]
      exact if_neg (by decide)
    have hcheck (i : Nat) : (curlCheck cfg w [] i).1 = 1 := by
      have htun : testEq (words []) [ascii "tun"] = false := rfl
      have hsocks : testNe (words []) [ascii "socks5"] = false := rfl
      have hstarted : started [] = false := by decide
      unfold curlCheck
      simp only [htype, htun, hsocks, hstarted, Bool.false_and, Bool.false_eq_true, if_false]
      split_ifs <;> rfl
    unfold visit
    split
    · rfl
    · split
      · rfl
      · split
        · exact decide_eq_false (by rw [List.take_nil, hcheck]; decide)
        · rfl
  | x :: y :: d, _ =>
    have hget : cfg.get x y = [] := cfg.get_name x (hd (by simp)) y (hd (by simp))
    have hskip : passesOver cfg serverB (x :: y :: d) = true := by
      have hvalue : testNe (words ((d ++ [ascii "switch_enable", ascii "0"]).getD 0 []))
          [ascii "1"] = true := by
        cases d with
        | nil => decide
        | cons z d =>
          have hz : z ∈ cfg.servers := hd (by simp)
          have hnil : z ≠ [] := fun h ↦ cfg.name_ne_nil (h ▸ hz)
          have hone : z ≠ ascii "1" := fun h ↦ cfg.name_ne_one (h ▸ hz)
          simp [words, testNe, hnil, hone]
      have hname : cfg.getByName (x :: y :: d ++ [ascii "switch_enable", ascii "0"]) =
          (d ++ [ascii "switch_enable", ascii "0"]).getD 0 [] := by
        simp [Config.getByName, hget]
      rw [passesOver, hname, hvalue, Bool.or_true]
    rw [visit, if_pos hskip]

/-- A pass over a node takes it exactly when it is live. -/
theorem visit_iff {d : Bytes} {k : Nat} (hd : d ∈ cfg.servers) :
    (visit cfg w serverB [d] k).1 = true ↔ Live cfg w serverB d := by
  have hover : passesOver cfg serverB [d] = false ↔
      serverB ≠ [d] ∧ cfg.get d (ascii "switch_enable") = ascii "1" := by
    have hname : cfg.getByName [d, ascii "switch_enable", ascii "0"] =
        if cfg.get d (ascii "switch_enable") = [] then ascii "0"
        else cfg.get d (ascii "switch_enable") := rfl
    have hvalue : testNe (words (cfg.getByName [d, ascii "switch_enable", ascii "0"])) [ascii "1"] =
        decide (cfg.get d (ascii "switch_enable") ≠ ascii "1") := by
      rw [hname]
      by_cases hnil : cfg.get d (ascii "switch_enable") = []
      · rw [if_pos hnil, hnil]
        decide
      · rw [if_neg hnil, words, if_neg hnil]
        rfl
    rw [passesOver, Bool.or_eq_false_iff, ← Bool.not_eq_true, testEq_singleton]
    show _ ∧ testNe (words (cfg.getByName [d, ascii "switch_enable", ascii "0"])) _ = _ ↔ _
    rw [hvalue, decide_eq_false_iff_not, not_not]
  have hoption (o : Bytes) : cfg.getByName ([d] ++ [o]) = cfg.get d o := getByName_node d o
  unfold visit
  by_cases hskip : passesOver cfg serverB [d] = true
  · rw [if_pos hskip]
    refine iff_of_false Bool.false_ne_true fun h ↦ ?_
    rw [hover.mpr ⟨h.other, h.enabled⟩] at hskip
    cases hskip
  · obtain ⟨hother, henabled⟩ := hover.mp ((Bool.not_eq_true _).mp hskip)
    rw [if_neg hskip, hoption, hoption]
    constructor
    · intro h
      split at h
      · cases h
      · next ip i hip =>
        split at h
        · next hcheck =>
          have hworks := of_decide_eq_true h
          exact ⟨hd, hother, henabled, ⟨ip, by rw [hip], hcheck⟩,
            (curlCheck_status _ 0 i).trans hworks⟩
        · cases h
    · rintro ⟨-, -, -, ⟨ip, hip, hcheck⟩, hworks⟩
      split
      · next i hnone =>
        rw [hnone] at hip
        cases hip
      · next ip' i hsome =>
        rw [hsome] at hip
        cases hip
        rw [if_pos hcheck]
        exact decide_eq_true ((curlCheck_status _ i 0).trans hworks)

/-- What a pass takes is a live node. -/
theorem live_of_visit {d : List Bytes} {k : Nat} (hd : d ⊆ cfg.servers)
    (h : (visit cfg w serverB d k).1 = true) : ∃ n, d = [n] ∧ Live cfg w serverB n := by
  by_cases hlen : d.length = 1
  · obtain ⟨n, rfl⟩ := List.length_eq_one_iff.mp hlen
    exact ⟨n, rfl, (visit_iff (hd List.mem_cons_self)).mp h⟩
  · rw [visit_of_length hd hlen] at h
    cases h

end visits

/-! ## The scan -/

section scans
variable {sed : Sed} {cfg : Config} {world : Nat → World}

theorem lineWords_subset (sed : Sed) (servers : List Bytes) (k : Nat) :
    lineWords sed servers k ⊆ servers := by
  cases k with
  | zero =>
    cases sed with
    | busybox => exact List.Subset.refl _
    | gnu => exact List.nil_subset _
  | succ k =>
    intro d hd
    exact List.mem_of_getElem? (Option.mem_toList.mp hd)

/-- The scan takes what the first pass takes that takes anything. -/
theorem scan_takes {ks : List Nat} {s : Shell}
    (h : ∃ k ∈ ks, (visit cfg (world k) s.serverB (lineWords sed cfg.servers k) k).1 = true) :
    ∃ k ∈ ks, (visit cfg (world k) s.serverB (lineWords sed cfg.servers k) k).1 = true ∧
      (scan sed cfg world ks s).serverC = some (lineWords sed cfg.servers k) := by
  induction ks generalizing s with
  | nil =>
    obtain ⟨k, hk, -⟩ := h
    cases hk
  | cons k ks ih =>
    rw [scan]
    cases hvisit : visit cfg (world k) s.serverB (lineWords sed cfg.servers k) k with
    | mk taken i =>
      cases taken with
      | true => exact ⟨k, List.mem_cons_self, congrArg Prod.fst hvisit, rfl⟩
      | false =>
        obtain ⟨j, hj, htakes⟩ := h
        have hrest : j ∈ ks := by
          rcases List.mem_cons.mp hj with rfl | hj
          · rw [hvisit] at htakes
            cases htakes
          · exact hj
        obtain ⟨m, hm, hresult⟩ := ih (s := { s with i := i }) ⟨j, hrest, htakes⟩
        exact ⟨m, List.mem_cons_of_mem k hm, hresult⟩

variable (sed cfg world) in
/-- The scan leaves its start or, where it takes a node, 0 for the next position. -/
theorem scan_c (ks : List Nat) (s : Shell) :
    (scan sed cfg world ks s).c = s.c ∨ (scan sed cfg world ks s).c = 0 := by
  induction ks generalizing s with
  | nil => exact .inl rfl
  | cons k ks ih =>
    rw [scan]
    cases hvisit : visit cfg (world k) s.serverB (lineWords sed cfg.servers k) k with
    | mk taken i =>
      cases taken with
      | true =>
        have hzero := visit_snd (congrArg Prod.fst hvisit)
        rw [hvisit] at hzero
        exact .inr hzero
      | false => exact ih { s with i := i }

/-- A scan from the first line or from before it finds a live node, if there is one. -/
theorem selectProxy_finds {s : Shell} (hc : s.c ≤ 1)
    (h : ∃ k d, cfg.servers[k]? = some d ∧ Live cfg (world (k + 1)) s.serverB d) :
    ∃ k d, Live cfg (world k) s.serverB d ∧
      (selectProxy sed cfg world s).serverC = some [d] := by
  obtain ⟨k, d, hd, hlive⟩ := h
  have hk := (List.getElem?_eq_some_iff.mp hd).1
  have hline : lineWords sed cfg.servers (k + 1) = [d] := by
    rw [lineWords, hd]
    rfl
  unfold selectProxy
  simp only
  set b := max 1 cfg.servers.length with hb
  set c := if b ≤ s.c then 1 else s.c with hcut
  have hstart : c ≤ 1 := by
    rw [hcut]
    split
    · exact le_rfl
    · exact hc
  have hmem : k + 1 ∈ List.range' c (b + 1 - c) := by
    rw [List.mem_range'_1]
    omega
  have hvisit : (visit cfg (world (k + 1)) s.serverB (lineWords sed cfg.servers (k + 1)) (k + 1)).1 =
      true := by
    rw [hline]
    exact (visit_iff hlive.mem).mpr hlive
  obtain ⟨j, -, htaken, hresult⟩ :=
    scan_takes (s := { s with serverC := none, c := c }) ⟨k + 1, hmem, hvisit⟩
  obtain ⟨n, hn, hnlive⟩ := live_of_visit (lineWords_subset sed cfg.servers j) htaken
  rw [hn] at hresult
  exact ⟨j, n, hnlive, hresult⟩

variable (sed cfg world) in
theorem selectProxy_c {s : Shell} (hc : s.c ≤ 1) : (selectProxy sed cfg world s).c ≤ 1 := by
  unfold selectProxy
  simp only
  set c := if max 1 cfg.servers.length ≤ s.c then 1 else s.c with hcut
  have hstart : c ≤ 1 := by
    rw [hcut]
    split
    · exact le_rfl
    · exact hc
  rcases scan_c sed cfg world (List.range' c (max 1 cfg.servers.length + 1 - c))
    { s with serverC := none, c := c } with h | h
  · exact h.trans_le hstart
  · omega

end scans

/-! ## The main loop -/

section loop
variable (sed : Sed) (serverA : List Bytes)

theorem checks_c (r : Round) (s : Shell) : (checks serverA r s).1.c = s.c := by
  unfold checks
  simp only
  split <;> rfl

/-- A round leaves the position at the first line or before it. -/
theorem round_c {s : Shell} (hc : s.c ≤ 1) (r : Round) : (round sed serverA s r).c ≤ 1 := by
  have hkeep := checks_c serverA r s
  unfold round
  split
  · next s' heq =>
    rw [heq] at hkeep
    have hselect := selectProxy_c sed r.cfg r.scanned (hkeep.trans_le hc)
    simp only
    split
    · exact hselect
    · exact hselect
  · next s' _ _ heq =>
    rw [heq] at hkeep
    exact hkeep.trans_le hc

/-- After any rounds the position is at the first line or before it. -/
theorem run_c (start : Nat) (rounds : List Round) : (run sed serverA start rounds).c ≤ 1 := by
  unfold run
  have hinit : (⟨serverA, none, 1, start⟩ : Shell).c ≤ 1 := le_rfl
  generalize (⟨serverA, none, 1, start⟩ : Shell) = s at hinit ⊢
  induction rounds generalizing s with
  | nil => exact hinit
  | cons r rounds ih => exact ih _ (round_c sed serverA hinit r)

/-- Whenever `select_proxy` is called and there is a live node, it comes back with a live node in
`SERVER_C`. -/
theorem selectProxy_finds_live (start : Nat) (rounds : List Round) (r : Round) (s : Shell)
    (hcall : checks serverA r (run sed serverA start rounds) = (s, some 1))
    (hlive : ∃ k d, r.cfg.servers[k]? = some d ∧ Live r.cfg (r.scanned (k + 1)) s.serverB d) :
    ∃ k d, Live r.cfg (r.scanned k) s.serverB d ∧
      (selectProxy sed r.cfg r.scanned s).serverC = some [d] := by
  have hkeep := checks_c serverA r (run sed serverA start rounds)
  rw [hcall] at hkeep
  exact selectProxy_finds (hkeep.trans_le (run_c sed serverA start rounds)) hlive

end loop

/-- Two nodes of the same kind. -/
def twoNodes : Config where
  servers := [ascii "cfg1", ascii "cfg2"]
  get name option :=
    if name ∈ [ascii "cfg1", ascii "cfg2"] then
      if option = ascii "switch_enable" then ascii "1"
      else if option = ascii "server" then ascii "h"
      else if option = ascii "type" then ascii "ss"
      else []
    else []
  name_ne_nil := by decide
  name_ne_one := by decide
  get_name := by decide
  get_option o ho v := if_neg (by revert o; decide)

/-- A world in which every node works; the main server does not answer in time. -/
def working : World :=
  ⟨fun _ ↦ some (ascii "10.0.0.1"), fun _ _ ↦ true, fun _ _ ↦ false, fun _ ↦ true, fun _ ↦ true,
    fun _ ↦ 0⟩

/-- A round in which the current server has failed. -/
def failing : Round := ⟨twoNodes, working, fun _ ↦ false, fun _ ↦ true, 1, 0, fun _ ↦ working⟩

/-- After a switch to the second node the first one is found, though the scan has gone past it. -/
theorem selectProxy_finds_first_again :
    ∃ (_ : Nat) (d : Bytes), Live twoNodes working [ascii "cfg2"] d ∧
      (selectProxy .busybox twoNodes (fun _ ↦ working)
        ⟨[ascii "cfg2"], some [ascii "cfg2"], 0, 1⟩).serverC = some [d] :=
  selectProxy_finds_live .busybox [ascii "cfg1"] 0 [failing] failing _ rfl
    ⟨0, ascii "cfg1", rfl, by decide, by decide, rfl, ⟨_, rfl, rfl⟩, rfl⟩

end OpenWrtCompile.Overwall.Switch
