import OpenWrtCompile.Base.Logged
import OpenWrtCompile.Http.HostCheck
import OpenWrtCompile.Obfs.Tls12Client
import Mathlib.Data.List.Forall2

/-!
# The buffers of the host lists

The loops over `hosts[1024]` and `phost[128]` in `http_simple_client_encode`,
`http_post_client_encode` and `http_simple_server_decode` (`http_simple.c:165–224, 400–457,
514–573`) and in `tls12_ticket_auth_client_encode` (`tls1.2_ticket.c:154–184`), with their accesses
to the two arrays and what they write to `hostport[128]` or `sni[256]`. An access beyond an array
ends the run: what it finds there is not known.
-/

namespace OpenWrtCompile.Obfs
open OpenWrtCompile.Base OpenWrtCompile.Http

/-- An access to `hosts[i]` or to `phost[k]`, or a name of `len` bytes, its NUL counted, written to
the block for it. -/
inductive HostAccess where
  | hosts (i : Nat)
  | phost (k : Nat)
  | name (len : Nat)
  deriving DecidableEq, Repr

/-- The access stays in its array, the block for the name having `size` bytes. -/
def HostAccess.Within (size : Nat) : HostAccess → Prop
  | .hosts i => i < 1024
  | .phost k => k < 128
  | .name len => len ≤ size

/-- `hosts[i]`. -/
def readHost (hosts : Bytes) (i : Nat) : Logged HostAccess Unit UInt8 :=
  ⟨[.hosts i], (hosts[i]?).elim (.error ()) .ok⟩

/-- `hosts[i] = 0`. -/
def endHost (hosts : Bytes) (i : Nat) : Logged HostAccess Unit Bytes :=
  ⟨[.hosts i], if i < hosts.length then .ok (hosts.set i 0) else .error ()⟩

/-- `phost[host_num++] = &hosts[i]`. -/
def storeHost (phost : List Nat) (i : Nat) : Logged HostAccess Unit (List Nat) :=
  ⟨[.phost phost.length], if phost.length < 128 then .ok (phost ++ [i]) else .error ()⟩

/-- `phost[k]`. -/
def loadHost (phost : List Nat) (k : Nat) : Logged HostAccess Unit Nat :=
  ⟨[.phost k], (phost[k]?).elim (.error ()) .ok⟩

/-- The string at `hosts[i]`, as `%s` reads it. -/
def readString (hosts : Bytes) : Nat → Nat → Logged HostAccess Unit Bytes
  | 0, _ => .fail ()
  | fuel + 1, i => do
    let c ← readHost hosts i
    if c = 0 then pure []
    else do
      let s ← readString hosts fuel (i + 1)
      pure (c :: s)

/-- `hosts`, `phost` with its first `host_num` pointers, and `pos`. -/
structure HostScan where
  hosts : Bytes
  phost : List Nat
  pos : Nat

/-- The loops over `hosts`. Those of `http_simple.c` also end each name where they find a separator,
and at a `#` they go once over what follows. -/
def hostLoop (http : Bool) : Nat → HostScan → Logged HostAccess Unit HostScan
  | 0, _ => .fail ()
  | fuel + 1, s => do
    let c ← readHost s.hosts s.pos
    if c = 0 then pure s
    else if c = 0x2C then do
      let phost ← storeHost s.phost (s.pos + 1)
      let hosts ← (if http then endHost s.hosts s.pos else pure s.hosts : Logged _ _ _)
      hostLoop http fuel ⟨hosts, phost, s.pos + 1⟩
    else if http ∧ c = 0x23 then do
      let _ ← readString s.hosts (s.hosts.length + 1) (s.pos + 1)
      let hosts ← endHost s.hosts s.pos
      pure { s with hosts := hosts }
    else hostLoop http fuel { s with pos := s.pos + 1 }

/-- `strncpy` to `hosts`, the pointer to its start and the loop. -/
def scanHosts (http : Bool) (text : Bytes) : Logged HostAccess Unit HostScan := do
  let phost ← storeHost [] 0
  hostLoop http 1025 ⟨strncpy text 1024, phost, 0⟩

/-- `sprintf` of the host that is drawn, with what the format puts behind it. -/
def writeName (s : HostScan) (draw : UInt64) (behind : Bytes) : Logged HostAccess Unit Bytes := do
  let i ← loadHost s.phost (draw.toNat % s.phost.length)
  let name ← readString s.hosts 1025 i
  .access (.name ((name ++ behind).length + 1)) (name ++ behind)

/-- The host list of a `client_encode` of `http_simple.c`. -/
def clientHosts (info : Http.ServerInfo) (draw : UInt64) : Logged HostAccess Unit Bytes := do
  let s ← scanHosts true info.hosts
  writeName s draw (if info.port = 80 then [] else ascii ":" ++ decimal info.port.toNat)

/-- `http_simple_client_encode`. -/
def httpSimpleClientHosts : Http.ServerInfo → UInt64 → Logged HostAccess Unit Bytes := clientHosts

/-- `http_post_client_encode`. -/
def httpPostClientHosts : Http.ServerInfo → UInt64 → Logged HostAccess Unit Bytes := clientHosts

/-- `strcmp` of the string at `hosts[i]` with `host`, up to the first difference. -/
def compareHost (hosts : Bytes) : Bytes → Nat → Logged HostAccess Unit Bool
  | [], i => do
    let c ← readHost hosts i
    pure (c = 0)
  | h :: host, i => do
    let c ← readHost hosts i
    if c = h then compareHost hosts host (i + 1) else pure false

/-- The loop over `phost` from `k` on, `n` pointers being left. -/
def matchLoop (s : HostScan) (host : Bytes) : Nat → Nat → Bool → Logged HostAccess Unit Bool
  | 0, _, found => pure found
  | n + 1, k, found => do
    let i ← loadHost s.phost k
    let same ← compareHost s.hosts host i
    matchLoop s host n (k + 1) (found || same)

/-- The host list of `http_simple_server_decode`, `host` being the block for the one in the
request. -/
def httpSimpleServerHosts (param host : Bytes) : Logged HostAccess Unit Bool :=
  if cString param 0 = [] then pure true
  else do
    let s ← scanHosts true (cString param 0)
    matchLoop s (cString host 0) s.phost.length 0 false

/-- The host list of `tls12_ticket_auth_client_encode`. -/
def tls12ClientHosts (info : ServerInfo) (host : Bytes) (draw : UInt64) :
    Logged HostAccess Unit Bytes := do
  let s ← scanHosts false (hostsText info host)
  writeName s draw []

/-! ### Strings in the buffer -/

section strings
variable {size : Nat} {hosts pre rest tail : Bytes}

variable (size) in
theorem readHost_at {c : UInt8} {i : Nat} (hlen : hosts.length = 1024)
    (h : hosts.drop i = c :: rest) :
    (readHost hosts i).All (HostAccess.Within size) ∧ (readHost hosts i).result = .ok c := by
  have hget : hosts[i]? = some c := by
    have := congrArg (·[0]?) h
    simpa using this
  have hi := (List.getElem?_eq_some_iff.mp hget).1
  constructor
  · intro e he
    rw [List.mem_singleton.mp he]
    show i < 1024
    omega
  · show (hosts[i]?).elim _ _ = _
    rw [hget]
    rfl

/-- A read behind the buffer. -/
theorem not_all_readHost {i : Nat} (hi : 1024 ≤ i) :
    ¬ (readHost hosts i).All (HostAccess.Within size) := by
  intro h
  have : i < 1024 := h _ List.mem_cons_self
  omega

variable (size) in
/-- A string with its NUL in the buffer is read without leaving it. -/
theorem readString_of_terminated {s : Bytes} {i : Nat} (fuel : Nat) (hlen : hosts.length = 1024)
    (h : hosts.drop i = s ++ 0 :: tail) (hz : 0 ∉ s) (hf : s.length < fuel) :
    (readString hosts fuel i).All (HostAccess.Within size) ∧
      (readString hosts fuel i).result = .ok s := by
  induction s generalizing i fuel with
  | nil =>
    obtain ⟨fuel, rfl⟩ := Nat.exists_eq_succ_of_ne_zero (show fuel ≠ 0 by omega)
    obtain ⟨hall, hresult⟩ := readHost_at size hlen h
    unfold readString
    rw [Logged.all_bind, Logged.result_bind, hresult]
    refine ⟨⟨hall, fun c hc ↦ ?_⟩, rfl⟩
    cases hc
    exact Logged.all_pure _
  | cons c s ih =>
    obtain ⟨fuel, rfl⟩ := Nat.exists_eq_succ_of_ne_zero (show fuel ≠ 0 by omega)
    rw [List.mem_cons, not_or] at hz
    rw [List.length_cons] at hf
    obtain ⟨hall, hresult⟩ := readHost_at size hlen h
    have hnext : hosts.drop (i + 1) = s ++ 0 :: tail := by
      rw [← List.drop_drop, h]
      rfl
    obtain ⟨hall', hresult'⟩ := ih fuel hnext hz.2 (by omega)
    unfold readString
    rw [Logged.all_bind, Logged.result_bind, hresult]
    constructor
    · refine ⟨hall, fun x hx ↦ ?_⟩
      cases hx
      rw [if_neg (Ne.symm hz.1), Logged.all_bind]
      exact ⟨hall', fun _ _ ↦ Logged.all_pure _⟩
    · simp only [Except.bind, if_neg (Ne.symm hz.1), Logged.result_bind, hresult',
        Logged.result_pure]

/-- A string without a NUL in the buffer is read beyond it. -/
theorem not_all_readString {s : Bytes} {i fuel : Nat} (hlen : hosts.length = 1024)
    (h : hosts.drop i = s) (hi : i ≤ 1024) (hz : 0 ∉ s) (hf : s.length < fuel) :
    ¬ (readString hosts fuel i).All (HostAccess.Within size) := by
  induction s generalizing i fuel with
  | nil =>
    obtain ⟨fuel, rfl⟩ := Nat.exists_eq_succ_of_ne_zero (show fuel ≠ 0 by omega)
    have hend : 1024 ≤ i := by
      rw [List.drop_eq_nil_iff, hlen] at h
      exact h
    unfold readString
    rw [Logged.all_bind]
    exact fun hall ↦ not_all_readHost hend hall.1
  | cons c s ih =>
    obtain ⟨fuel, rfl⟩ := Nat.exists_eq_succ_of_ne_zero (show fuel ≠ 0 by omega)
    rw [List.mem_cons, not_or] at hz
    rw [List.length_cons] at hf
    have hresult := (readHost_at size hlen h).2
    have hlt : i < 1024 := by
      by_contra hge
      rw [List.drop_of_length_le (by omega)] at h
      contradiction
    have hnext : hosts.drop (i + 1) = s := by
      rw [← List.drop_drop, h]
      rfl
    unfold readString
    rw [Logged.all_bind]
    intro hall
    have hrest := hall.2 c hresult
    rw [if_neg (Ne.symm hz.1), Logged.all_bind] at hrest
    exact ih hnext (by omega) hz.2 (show s.length < fuel by omega) hrest.1

end strings

/-! ### The loops -/

/-- The buffer behind `pos` after the loop has gone over this text. -/
def cutHosts (http : Bool) : Bytes → Bytes
  | [] => []
  | c :: s =>
    if c = 0x2C then (if http then 0 else c) :: cutHosts http s
    else if http ∧ c = 0x23 then 0 :: s
    else c :: cutHosts http s

/-- The pointers that the loop adds for a text at `pos`. -/
def hostStarts (http : Bool) (pos : Nat) : Bytes → List Nat
  | [] => []
  | c :: s =>
    if c = 0x2C then (pos + 1) :: hostStarts http (pos + 1) s
    else if http ∧ c = 0x23 then []
    else hostStarts http (pos + 1) s

section loop
variable {size : Nat} (http : Bool) {pre rest tail : Bytes} (phost : List Nat) (fuel : Nat)

@[simp] theorem all_storeHost {phost : List Nat} {i : Nat} :
    (storeHost phost i).All (HostAccess.Within size) ↔ phost.length < 128 := by
  constructor
  · exact fun h ↦ h _ List.mem_cons_self
  · intro h e he
    rw [List.mem_singleton.mp he]
    exact h

theorem result_storeHost {phost : List Nat} {i : Nat} (h : phost.length < 128) :
    (storeHost phost i).result = .ok (phost ++ [i]) := if_pos h

variable (size) in
theorem endHost_at {c : UInt8} {s : Bytes} (hlen : (pre ++ c :: s).length = 1024) :
    (endHost (pre ++ c :: s) pre.length).All (HostAccess.Within size) ∧
      (endHost (pre ++ c :: s) pre.length).result = .ok (pre ++ 0 :: s) := by
  have hi : pre.length < (pre ++ c :: s).length := by simp
  constructor
  · intro e he
    rw [List.mem_singleton.mp he]
    show pre.length < 1024
    omega
  · show (if pre.length < (pre ++ c :: s).length then _ else _) = _
    rw [if_pos hi, List.set_append_right _ _ le_rfl, Nat.sub_self, List.set_cons_zero]

variable (size) in
/-- What a pass does to the buffer at a comma. -/
theorem cutComma_at {c : UInt8} {s : Bytes} (hlen : (pre ++ c :: s).length = 1024) :
    (if http then endHost (pre ++ c :: s) pre.length else pure (pre ++ c :: s) :
      Logged _ _ _).All (HostAccess.Within size) ∧
    (if http then endHost (pre ++ c :: s) pre.length else pure (pre ++ c :: s) :
      Logged _ _ _).result = .ok (pre ++ (if http then 0 else c) :: s) := by
  cases http with
  | true => exact endHost_at size hlen
  | false => exact ⟨Logged.all_pure _, rfl⟩

theorem append_cons_eq (c : UInt8) (t : Bytes) : pre ++ c :: t = (pre ++ [c]) ++ t := by simp

@[simp] theorem length_concat (c : UInt8) : (pre ++ [c]).length = pre.length + 1 := by simp

theorem drop_concat (c : UInt8) (t : Bytes) : (pre ++ c :: t).drop (pre.length + 1) = t := by
  rw [append_cons_eq, ← length_concat c, List.drop_left]

/-- At the end of the text. -/
theorem hostLoop_end (hlen : (pre ++ 0 :: tail).length = 1024) :
    (hostLoop http (fuel + 1) ⟨pre ++ 0 :: tail, phost, pre.length⟩).All (HostAccess.Within size) ∧
      (hostLoop http (fuel + 1) ⟨pre ++ 0 :: tail, phost, pre.length⟩).result =
        .ok ⟨pre ++ 0 :: tail, phost, pre.length⟩ := by
  obtain ⟨hall, hresult⟩ := readHost_at size hlen List.drop_left
  unfold hostLoop
  rw [Logged.all_bind, Logged.result_bind, hresult]
  refine ⟨⟨hall, fun c hc ↦ ?_⟩, rfl⟩
  cases hc
  exact Logged.all_pure _

variable (size) in
/-- At a comma, with a pointer left for what follows. -/
theorem hostLoop_comma {t : Bytes} (hlen : (pre ++ 0x2C :: t).length = 1024)
    (hroom : phost.length < 128) :
    ((hostLoop http (fuel + 1) ⟨pre ++ 0x2C :: t, phost, pre.length⟩).All
        (HostAccess.Within size) ↔
      (hostLoop http fuel ⟨(pre ++ [if http then 0 else 0x2C]) ++ t, phost ++ [pre.length + 1],
        (pre ++ [if http then 0 else 0x2C]).length⟩).All (HostAccess.Within size)) ∧
    (hostLoop http (fuel + 1) ⟨pre ++ 0x2C :: t, phost, pre.length⟩).result =
      (hostLoop http fuel ⟨(pre ++ [if http then 0 else 0x2C]) ++ t, phost ++ [pre.length + 1],
        (pre ++ [if http then 0 else 0x2C]).length⟩).result := by
  obtain ⟨hall, hresult⟩ := readHost_at size hlen List.drop_left
  obtain ⟨hcut, hcutr⟩ := cutComma_at size http hlen
  rw [← append_cons_eq, length_concat]
  rw [hostLoop, Logged.all_bind, Logged.result_bind, hresult]
  simp only [Except.ok.injEq, forall_eq', Except.bind, show ¬ (0x2C : UInt8) = 0 by decide, if_false,
    if_true, Logged.all_bind, Logged.result_bind, result_storeHost hroom, all_storeHost, hroom,
    hcutr, hall, hcut, true_and, and_self]

/-- At a comma, with no pointer left. -/
theorem not_all_hostLoop_comma {t : Bytes} (hlen : (pre ++ 0x2C :: t).length = 1024)
    (hfull : 128 ≤ phost.length) :
    ¬ (hostLoop http (fuel + 1) ⟨pre ++ 0x2C :: t, phost, pre.length⟩).All
      (HostAccess.Within size) := by
  have hresult := (readHost_at size hlen List.drop_left).2
  rw [hostLoop, Logged.all_bind]
  intro hall
  have hrest := hall.2 _ hresult
  rw [if_neg (by decide), if_pos rfl, Logged.all_bind, all_storeHost] at hrest
  exact absurd hrest.1 (not_lt.mpr hfull)

variable (size) in
/-- At a `#`. -/
theorem hostLoop_hash {t : Bytes} (hlen : (pre ++ 0x23 :: t).length = 1024) :
    ((hostLoop true (fuel + 1) ⟨pre ++ 0x23 :: t, phost, pre.length⟩).All
        (HostAccess.Within size) ↔
      (readString (pre ++ 0x23 :: t) (1024 + 1) (pre.length + 1)).All (HostAccess.Within size)) ∧
    ∀ body, (readString (pre ++ 0x23 :: t) (1024 + 1) (pre.length + 1)).result = .ok body →
      (hostLoop true (fuel + 1) ⟨pre ++ 0x23 :: t, phost, pre.length⟩).result =
        .ok ⟨pre ++ 0 :: t, phost, pre.length⟩ := by
  obtain ⟨hall, hresult⟩ := readHost_at size hlen List.drop_left
  obtain ⟨hend, hendr⟩ := endHost_at size hlen
  rw [hostLoop, Logged.all_bind, Logged.result_bind, hresult]
  simp only [Except.ok.injEq, forall_eq', Except.bind, show ¬ (0x23 : UInt8) = 0 by decide,
    show ¬ (0x23 : UInt8) = 0x2C by decide, if_false, and_self, if_true, hlen, Logged.all_bind,
    Logged.result_bind, hendr, hend, hall, true_and, Logged.all_pure, Logged.result_pure,
    implies_true, and_true]
  intro body hbody
  rw [hbody]

variable (size) in
/-- At any other byte. -/
theorem hostLoop_other {c : UInt8} {t : Bytes} (hlen : (pre ++ c :: t).length = 1024)
    (hz : c ≠ 0) (hcomma : c ≠ 0x2C) (hhash : ¬ (http ∧ c = 0x23)) :
    ((hostLoop http (fuel + 1) ⟨pre ++ c :: t, phost, pre.length⟩).All (HostAccess.Within size) ↔
      (hostLoop http fuel ⟨(pre ++ [c]) ++ t, phost, (pre ++ [c]).length⟩).All
        (HostAccess.Within size)) ∧
    (hostLoop http (fuel + 1) ⟨pre ++ c :: t, phost, pre.length⟩).result =
      (hostLoop http fuel ⟨(pre ++ [c]) ++ t, phost, (pre ++ [c]).length⟩).result := by
  obtain ⟨hall, hresult⟩ := readHost_at size hlen List.drop_left
  rw [← append_cons_eq, length_concat, hostLoop, Logged.all_bind, Logged.result_bind, hresult]
  simp only [Except.ok.injEq, forall_eq', Except.bind, if_neg hz, if_neg hcomma, if_neg hhash, hall,
    true_and, and_self]

variable (size) in
/-- A list that fits is gone over without leaving the arrays. -/
theorem hostLoop_of_fits (hlen : (pre ++ (rest ++ 0 :: tail)).length = 1024) (hz : 0 ∉ rest)
    (hf : rest.length < fuel)
    (hfits : phost.length + (hostStarts http pre.length rest).length ≤ 128) :
    (hostLoop http fuel ⟨pre ++ (rest ++ 0 :: tail), phost, pre.length⟩).All
      (HostAccess.Within size) ∧
    ∃ pos, (hostLoop http fuel ⟨pre ++ (rest ++ 0 :: tail), phost, pre.length⟩).result =
      .ok ⟨pre ++ (cutHosts http rest ++ 0 :: tail),
        phost ++ hostStarts http pre.length rest, pos⟩ := by
  obtain ⟨fuel, rfl⟩ := Nat.exists_eq_succ_of_ne_zero (show fuel ≠ 0 by omega)
  induction rest generalizing pre phost fuel with
  | nil =>
    obtain ⟨hall, hresult⟩ := hostLoop_end http phost fuel hlen
    exact ⟨hall, pre.length, by simpa [hostStarts, cutHosts] using hresult⟩
  | cons c rest ih =>
    rw [List.mem_cons, not_or] at hz
    rw [List.length_cons] at hf
    rw [List.cons_append] at hlen ⊢
    obtain ⟨fuel, rfl⟩ := Nat.exists_eq_succ_of_ne_zero (show fuel ≠ 0 by omega)
    have hlen' (x : UInt8) : ((pre ++ [x]) ++ (rest ++ 0 :: tail)).length = 1024 := by
      simp only [List.length_append, List.length_cons, List.length_nil] at hlen ⊢
      omega
    by_cases hcomma : c = 0x2C
    · subst hcomma
      rw [hostStarts, if_pos rfl, List.length_cons] at hfits
      obtain ⟨hall, hresult⟩ := hostLoop_comma size http phost (fuel + 1) hlen (by omega)
      obtain ⟨hrest, pos, hrestr⟩ := ih (phost ++ [pre.length + 1])
        (hlen' (if http then 0 else 0x2C)) hz.2 (by
          rw [length_concat, List.length_append, List.length_singleton]
          omega) fuel (by omega)
      refine ⟨hall.mpr hrest, pos, ?_⟩
      rw [hresult, hrestr, cutHosts, if_pos rfl, hostStarts, if_pos rfl, length_concat]
      simp
    · by_cases hhash : http ∧ c = 0x23
      · obtain ⟨rfl, rfl⟩ := hhash
        obtain ⟨hall, hresult⟩ := hostLoop_hash size phost (fuel + 1) hlen
        obtain ⟨hbody, hbodyr⟩ := readString_of_terminated size (1024 + 1) hlen
          (drop_concat _ _) hz.2 (by
            simp only [List.length_append, List.length_cons] at hlen
            omega)
        refine ⟨hall.mpr hbody, pre.length, ?_⟩
        rw [hresult _ hbodyr]
        simp [cutHosts, hostStarts]
      · rw [hostStarts, if_neg hcomma, if_neg hhash] at hfits
        obtain ⟨hall, hresult⟩ := hostLoop_other size http phost (fuel + 1) hlen
          (Ne.symm hz.1) hcomma hhash
        obtain ⟨hrest, pos, hrestr⟩ := ih phost (hlen' c) hz.2 (by
          rw [length_concat]
          exact hfits) fuel (by omega)
        refine ⟨hall.mpr hrest, pos, ?_⟩
        rw [hresult, hrestr, cutHosts, if_neg hcomma, if_neg hhash, hostStarts, if_neg hcomma,
          if_neg hhash, length_concat]
        simp

/-- A list of more names than there are pointers. -/
theorem not_all_hostLoop_of_many (hlen : (pre ++ (rest ++ 0 :: tail)).length = 1024) (hz : 0 ∉ rest)
    (hf : rest.length < fuel) (hphost : phost.length ≤ 128)
    (hmany : 128 < phost.length + (hostStarts http pre.length rest).length) :
    ¬ (hostLoop http fuel ⟨pre ++ (rest ++ 0 :: tail), phost, pre.length⟩).All
      (HostAccess.Within size) := by
  obtain ⟨fuel, rfl⟩ := Nat.exists_eq_succ_of_ne_zero (show fuel ≠ 0 by omega)
  induction rest generalizing pre phost fuel with
  | nil =>
    rw [hostStarts, List.length_nil] at hmany
    omega
  | cons c rest ih =>
    rw [List.mem_cons, not_or] at hz
    rw [List.length_cons] at hf
    rw [List.cons_append] at hlen ⊢
    obtain ⟨fuel, rfl⟩ := Nat.exists_eq_succ_of_ne_zero (show fuel ≠ 0 by omega)
    have hlen' (x : UInt8) : ((pre ++ [x]) ++ (rest ++ 0 :: tail)).length = 1024 := by
      simp only [List.length_append, List.length_cons, List.length_nil] at hlen ⊢
      omega
    by_cases hcomma : c = 0x2C
    · subst hcomma
      rw [hostStarts, if_pos rfl, List.length_cons] at hmany
      by_cases hroom : phost.length < 128
      · rw [(hostLoop_comma size http phost (fuel + 1) hlen hroom).1]
        refine ih (phost ++ [pre.length + 1]) (hlen' _) hz.2 ?_ ?_ fuel (by omega)
        · rw [List.length_append, List.length_singleton]
          omega
        · rw [length_concat, List.length_append, List.length_singleton]
          omega
      · exact not_all_hostLoop_comma http phost _ hlen (by omega)
    · by_cases hhash : http ∧ c = 0x23
      · rw [hostStarts, if_neg hcomma, if_pos hhash, List.length_nil] at hmany
        omega
      · rw [hostStarts, if_neg hcomma, if_neg hhash] at hmany
        rw [(hostLoop_other size http phost (fuel + 1) hlen (Ne.symm hz.1) hcomma hhash).1]
        refine ih phost (hlen' c) hz.2 hphost ?_ fuel (by omega)
        rw [length_concat]
        exact hmany

/-- A text that fills the buffer, so that no NUL ends it. -/
theorem not_all_hostLoop_of_long (hlen : (pre ++ rest).length = 1024) (hz : 0 ∉ rest)
    (hf : rest.length < fuel) :
    ¬ (hostLoop http fuel ⟨pre ++ rest, phost, pre.length⟩).All (HostAccess.Within size) := by
  obtain ⟨fuel, rfl⟩ := Nat.exists_eq_succ_of_ne_zero (show fuel ≠ 0 by omega)
  induction rest generalizing pre phost fuel with
  | nil =>
    rw [List.append_nil] at hlen
    rw [hostLoop, Logged.all_bind]
    exact fun hall ↦ not_all_readHost hlen.ge hall.1
  | cons c rest ih =>
    rw [List.mem_cons, not_or] at hz
    rw [List.length_cons] at hf
    obtain ⟨fuel, rfl⟩ := Nat.exists_eq_succ_of_ne_zero (show fuel ≠ 0 by omega)
    have hlen' (x : UInt8) : ((pre ++ [x]) ++ rest).length = 1024 := by
      simp only [List.length_append, List.length_cons, List.length_nil] at hlen ⊢
      omega
    by_cases hcomma : c = 0x2C
    · subst hcomma
      by_cases hroom : phost.length < 128
      · rw [(hostLoop_comma size http phost (fuel + 1) hlen hroom).1]
        exact ih _ (hlen' _) hz.2 fuel (by omega)
      · exact not_all_hostLoop_comma http phost _ hlen (by omega)
    · by_cases hhash : http ∧ c = 0x23
      · obtain ⟨rfl, rfl⟩ := hhash
        rw [(hostLoop_hash size phost (fuel + 1) hlen).1]
        simp only [List.length_append, List.length_cons] at hlen
        refine not_all_readString (by simpa using hlen) (drop_concat _ _) (by omega) hz.2 (by omega)
      · rw [(hostLoop_other size http phost (fuel + 1) hlen (Ne.symm hz.1) hcomma hhash).1]
        exact ih phost (hlen' c) hz.2 fuel (by omega)

end loop

/-! ### What the pointers lead to -/

/-- The names that the pointers of a scan lead to. -/
def hostNames (http : Bool) (text : Bytes) : List Bytes :=
  if http then (splitHosts text).1 else phost text

/-- A NUL ends the name that this pointer leads to. -/
def LeadsTo (hosts : Bytes) (i : Nat) (name : Bytes) : Prop := ∃ t, hosts.drop i = name ++ 0 :: t

section names
variable {hosts text tail : Bytes} {i : Nat}

theorem leadsTo_phost (h : hosts.drop i = text ++ 0 :: tail) :
    List.Forall₂ (LeadsTo hosts) (i :: hostStarts false i text) (phost text) := by
  induction text generalizing i with
  | nil => exact .cons ⟨tail, h⟩ .nil
  | cons c text ih =>
    have hnext : hosts.drop (i + 1) = text ++ 0 :: tail := by
      rw [← List.drop_drop, h]
      rfl
    have hrest := ih hnext
    rw [phost, hostStarts, afterCommas]
    by_cases hcomma : c = 0x2C
    · rw [if_pos hcomma, if_pos hcomma]
      exact .cons ⟨tail, h⟩ hrest
    · rw [if_neg hcomma, if_neg hcomma, if_neg (by simp)]
      rw [phost, List.forall₂_cons] at hrest
      exact .cons ⟨tail, h⟩ hrest.2

theorem leadsTo_splitHosts (h : hosts.drop i = cutHosts true text ++ 0 :: tail) :
    List.Forall₂ (LeadsTo hosts) (i :: hostStarts true i text) (splitHosts text).1 := by
  induction text generalizing i with
  | nil => exact .cons ⟨tail, h⟩ .nil
  | cons c text ih =>
    rw [cutHosts] at h
    rw [splitHosts, hostStarts]
    by_cases hhash : c = 0x23
    · subst hhash
      rw [if_neg (by decide), if_pos ⟨rfl, rfl⟩] at h
      rw [if_pos rfl, if_neg (by decide), if_pos ⟨rfl, rfl⟩]
      exact .cons ⟨_, h⟩ .nil
    rw [if_neg hhash]
    have hnext (x : UInt8) (hx : hosts.drop i = x :: (cutHosts true text ++ 0 :: tail)) :
        hosts.drop (i + 1) = cutHosts true text ++ 0 :: tail := by
      rw [← List.drop_drop, hx]
      rfl
    obtain ⟨names, body, hsplit⟩ : ∃ names body, splitHosts text = (names, body) := ⟨_, _, rfl⟩
    cases names with
    | nil => exact absurd (congrArg Prod.fst hsplit) (splitHosts_ne_nil text)
    | cons name names =>
      by_cases hcomma : c = 0x2C
      · rw [if_pos hcomma] at h
        have hrest := ih (hnext _ h)
        rw [hsplit] at hrest ⊢
        rw [if_pos hcomma]
        simp only [if_pos hcomma]
        exact .cons ⟨_, h⟩ hrest
      · rw [if_neg hcomma, if_neg (fun hx ↦ hhash hx.2)] at h
        have hrest := ih (hnext _ h)
        rw [hsplit, List.forall₂_cons] at hrest
        rw [hsplit, if_neg hcomma, if_neg (fun hx ↦ hhash hx.2)]
        simp only [if_neg hcomma]
        obtain ⟨⟨t, ht⟩, hrest⟩ := hrest
        refine .cons ⟨t, ?_⟩ hrest
        rw [← List.drop_drop, h] at ht
        rw [h, List.cons_append, List.cons_append, ← ht]
        rfl

/-- Each pointer of a scan leads to its name. -/
theorem leadsTo_hostNames (http : Bool) (h : hosts.drop i = cutHosts http text ++ 0 :: tail) :
    List.Forall₂ (LeadsTo hosts) (i :: hostStarts http i text) (hostNames http text) := by
  cases http with
  | true => exact leadsTo_splitHosts h
  | false =>
    have hcut : ∀ text, cutHosts false text = text := by
      intro text
      induction text with
      | nil => rfl
      | cons c text ih => simp [cutHosts, ih]
    rw [hcut] at h
    exact leadsTo_phost h

theorem length_cutHosts (http : Bool) (text : Bytes) :
    (cutHosts http text).length = text.length := by
  induction text with
  | nil => rfl
  | cons c text ih =>
    rw [cutHosts]
    split
    · rw [List.length_cons, List.length_cons, ih]
    · split
      · rfl
      · rw [List.length_cons, List.length_cons, ih]

/-- There is one pointer for each name. -/
theorem length_hostStarts (http : Bool) (text : Bytes) :
    (hostStarts http 0 text).length + 1 = (hostNames http text).length := by
  have h : (cutHosts http text ++ [0]).drop 0 = cutHosts http text ++ 0 :: [] := rfl
  exact (leadsTo_hostNames http h).length_eq

end names

/-! ### The four functions -/

/-- What a scan needs: a NUL behind the text, and a pointer for each name. -/
def ScanFits (http : Bool) (text : Bytes) : Prop :=
  text.length < 1024 ∧ (hostNames http text).length ≤ 128

section scans
variable {size : Nat} {http : Bool} {text : Bytes}

theorem length_buffer (h : text.length < 1024) :
    (([] : Bytes) ++ (text ++ 0 :: List.replicate (1024 - text.length - 1) 0)).length = 1024 := by
  simp only [List.nil_append, List.length_append, List.length_cons, List.length_replicate]
  omega

variable (size) in
/-- A list that fits is scanned without leaving the arrays, and each pointer leads to its name. -/
theorem scanHosts_of_fits (hz : 0 ∉ text) (h : ScanFits http text) :
    (scanHosts http text).All (HostAccess.Within size) ∧
    ∃ s, (scanHosts http text).result = .ok s ∧ s.hosts.length = 1024 ∧
      List.Forall₂ (LeadsTo s.hosts) s.phost (hostNames http text) := by
  obtain ⟨hlong, hmany⟩ := h
  have hstart : (storeHost [] 0).result = .ok [0] := result_storeHost (by decide)
  have hbuffer := strncpy_of_lt hz hlong
  have hlen := length_buffer hlong
  have hcount := length_hostStarts http text
  obtain ⟨hall, pos, hresult⟩ := hostLoop_of_fits size http [0] 1025 hlen hz (by omega) (by
    rw [List.length_singleton, List.length_nil]
    omega)
  simp only [List.nil_append, List.length_nil] at hall hresult
  rw [scanHosts, Logged.all_bind, Logged.result_bind, hstart]
  refine ⟨⟨by simp, fun phost hp ↦ ?_⟩, ⟨cutHosts http text ++ 0 ::
    List.replicate (1024 - text.length - 1) 0, 0 :: hostStarts http 0 text, pos⟩, ?_, ?_, ?_⟩
  · cases hp
    rw [hbuffer]
    exact hall
  · simp only [Except.bind, hbuffer, hresult]
    rfl
  · simp only [List.length_append, List.length_cons, length_cutHosts, List.length_nil] at hlen ⊢
    omega
  · exact leadsTo_hostNames http (List.drop_zero)

variable (size) in
/-- A list that does not fit leaves one of them. -/
theorem not_all_scanHosts (hz : 0 ∉ text) (h : ¬ ScanFits http text) :
    ¬ (scanHosts http text).All (HostAccess.Within size) := by
  have hstart : (storeHost [] 0).result = .ok [0] := result_storeHost (by decide)
  have hcount := length_hostStarts http text
  rw [scanHosts, Logged.all_bind]
  intro hall
  have hloop := hall.2 _ hstart
  by_cases hlong : text.length < 1024
  · rw [strncpy_of_lt hz hlong] at hloop
    have hmany : 128 < (hostNames http text).length := by
      by_contra hle
      exact h ⟨hlong, by omega⟩
    exact not_all_hostLoop_of_many http [0] 1025 (length_buffer hlong) hz (by omega) (by decide) (by
      rw [List.length_singleton, List.length_nil]
      omega) hloop
  · rw [strncpy_of_le hz (by omega)] at hloop
    have hlen : (text.take 1024).length = 1024 := List.length_take_of_le (by omega)
    exact not_all_hostLoop_of_long http [0] 1025
      (show (([] : Bytes) ++ text.take 1024).length = 1024 from hlen)
      (fun hm ↦ hz (List.mem_of_mem_take hm)) (by omega) hloop

variable (http) in
/-- The names are not empty, and a NUL is in none of them. -/
theorem hostNames_spec (hz : 0 ∉ text) :
    0 < (hostNames http text).length ∧ ∀ name ∈ hostNames http text, 0 ∉ name := by
  cases http with
  | true =>
    exact ⟨List.length_pos_iff.mpr (splitHosts_ne_nil text),
      fun name hname hm ↦ hz (mem_splitHosts.1 name hname hm)⟩
  | false =>
    refine ⟨Nat.succ_pos _, fun name hname hm ↦ hz ?_⟩
    induction text with
    | nil =>
      rw [List.mem_singleton.mp hname] at hm
      exact absurd hm List.not_mem_nil
    | cons c text ih =>
      rcases List.mem_cons.mp hname with rfl | hname
      · exact hm
      · have hrest : name ∈ phost text := by
          rw [afterCommas] at hname
          split at hname
          · exact hname
          · exact List.mem_cons_of_mem _ hname
        exact List.mem_cons_of_mem c (ih (fun h ↦ hz (List.mem_cons_of_mem c h)) hrest)

variable {s : HostScan} {names : List Bytes}

variable (size) in
theorem loadHost_at {k : Nat} (hleads : List.Forall₂ (LeadsTo s.hosts) s.phost names)
    (hcount : names.length ≤ 128) (hk : k < names.length) :
    (loadHost s.phost k).All (HostAccess.Within size) ∧
      ∃ i, (loadHost s.phost k).result = .ok i ∧ LeadsTo s.hosts i (names.getD k []) := by
  have hk' : k < s.phost.length := by
    rw [hleads.length_eq]
    exact hk
  constructor
  · intro e he
    rw [List.mem_singleton.mp he]
    show k < 128
    omega
  · refine ⟨s.phost[k], ?_, ?_⟩
    · show (s.phost[k]?).elim _ _ = _
      rw [List.getElem?_eq_getElem hk']
      rfl
    · rw [List.getD_eq_getElem?_getD, List.getElem?_eq_getElem hk, Option.getD_some]
      exact hleads.get hk' hk

/-- What is written for the drawn name needs room for it, and nothing else leaves the arrays. -/
theorem all_writeName {draw : UInt64} {behind : Bytes} (hlen : s.hosts.length = 1024)
    (hleads : List.Forall₂ (LeadsTo s.hosts) s.phost names) (hcount : names.length ≤ 128)
    (hpos : 0 < names.length) (hz : ∀ name ∈ names, 0 ∉ name) :
    (writeName s draw behind).All (HostAccess.Within size) ↔
      (names.getD (draw.toNat % names.length) [] ++ behind).length + 1 ≤ size := by
  have hk := Nat.mod_lt draw.toNat hpos
  obtain ⟨hload, i, hloadr, t, ht⟩ := loadHost_at size hleads hcount hk
  set name := names.getD (draw.toNat % names.length) [] with hname
  have hmem : name ∈ names := by
    rw [hname, List.getD_eq_getElem?_getD, List.getElem?_eq_getElem hk, Option.getD_some]
    exact List.getElem_mem hk
  have hshort : name.length < 1025 := by
    have hcut := congrArg List.length ht
    rw [List.length_drop, List.length_append, hlen] at hcut
    omega
  obtain ⟨hread, hreadr⟩ := readString_of_terminated size 1025 hlen ht (hz name hmem) hshort
  rw [writeName, hleads.length_eq, Logged.all_bind, hloadr]
  simp only [hload, true_and, Except.ok.injEq, forall_eq', Logged.all_bind, hread, hreadr,
    Logged.all_access]
  exact Iff.rfl

/-- A comparison stays in the buffer: it ends at the NUL at the latest. -/
theorem all_compareHost {host name : Bytes} {i : Nat} (hlen : s.hosts.length = 1024)
    (hz : 0 ∉ host) (h : LeadsTo s.hosts i name) :
    (compareHost s.hosts host i).All (HostAccess.Within size) := by
  induction host generalizing i name with
  | nil =>
    obtain ⟨t, ht⟩ := h
    obtain ⟨c, rest, hc⟩ : ∃ c rest, s.hosts.drop i = c :: rest := by
      cases name with
      | nil => exact ⟨0, t, ht⟩
      | cons c name => exact ⟨c, name ++ 0 :: t, ht⟩
    rw [compareHost, Logged.all_bind]
    exact ⟨(readHost_at size hlen hc).1, fun _ _ ↦ Logged.all_pure _⟩
  | cons x host ih =>
    rw [List.mem_cons, not_or] at hz
    obtain ⟨t, ht⟩ := h
    rw [compareHost, Logged.all_bind]
    cases name with
    | nil =>
      obtain ⟨hall, hresult⟩ := readHost_at size hlen ht
      refine ⟨hall, fun c hc ↦ ?_⟩
      rw [hresult] at hc
      cases hc
      rw [if_neg hz.1]
      exact Logged.all_pure _
    | cons c name =>
      obtain ⟨hall, hresult⟩ := readHost_at size hlen ht
      refine ⟨hall, fun d _ ↦ Logged.all_ite.mpr ⟨fun _ ↦ ?_, fun _ ↦ Logged.all_pure _⟩⟩
      have hnext : LeadsTo s.hosts (i + 1) name := by
        refine ⟨t, ?_⟩
        rw [← List.drop_drop, ht]
        rfl
      exact ih hz.2 hnext

/-- The loop over the pointers stays in the arrays. -/
theorem all_matchLoop {host : Bytes} {n k : Nat} {found : Bool} (hlen : s.hosts.length = 1024)
    (hleads : List.Forall₂ (LeadsTo s.hosts) s.phost names) (hcount : names.length ≤ 128)
    (hz : 0 ∉ host) (hn : k + n = names.length) :
    (matchLoop s host n k found).All (HostAccess.Within size) := by
  induction n generalizing k found with
  | zero => exact Logged.all_pure _
  | succ n ih =>
    have hk : k < names.length := by omega
    obtain ⟨hload, i, hloadr, hname⟩ := loadHost_at size hleads hcount hk
    rw [matchLoop, Logged.all_bind, hloadr]
    refine ⟨hload, fun j hj ↦ ?_⟩
    cases hj
    rw [Logged.all_bind]
    exact ⟨all_compareHost hlen hz hname, fun same _ ↦ ih (by omega)⟩

end scans

/-- A client: the buffer is terminated and nothing leaves the buffers exactly when the list fits and
the drawn name has room. -/
theorem client_iff {size : Nat} {http : Bool} {text behind : Bytes} (draw : UInt64)
    (hz : 0 ∉ text) :
    (0 ∈ strncpy text 1024 ∧
        (scanHosts http text >>= fun s ↦ writeName s draw behind).All (HostAccess.Within size)) ↔
      ScanFits http text ∧
        ((hostNames http text).getD (draw.toNat % (hostNames http text).length) [] ++
          behind).length + 1 ≤ size := by
  obtain ⟨hpos, hnames⟩ := hostNames_spec http hz
  rw [zero_mem_strncpy hz, Logged.all_bind]
  by_cases hfits : ScanFits http text
  · obtain ⟨hall, s, hresult, hlen, hleads⟩ := scanHosts_of_fits size hz hfits
    rw [hresult]
    simp only [hall, true_and, Except.ok.injEq, forall_eq', hfits,
      all_writeName hlen hleads hfits.2 hpos hnames, hfits.1]
  · simp only [not_all_scanHosts _ hz hfits, false_and, and_false, hfits]

/-- The server: the same, with no name to write. -/
theorem server_iff (size : Nat) (param host : Bytes) :
    (0 ∈ strncpy (cString param 0) 1024 ∧
        (httpSimpleServerHosts param host).All (HostAccess.Within size)) ↔
      ScanFits true (cString param 0) := by
  have hz := not_mem_cString param 0
  rw [zero_mem_strncpy hz, httpSimpleServerHosts]
  by_cases hnone : cString param 0 = []
  · rw [if_pos hnone, hnone]
    exact ⟨fun _ ↦ ⟨by decide, by decide⟩, fun _ ↦ ⟨by decide, Logged.all_pure _⟩⟩
  rw [if_neg hnone, Logged.all_bind]
  by_cases hfits : ScanFits true (cString param 0)
  · obtain ⟨hall, s, hresult, hlen, hleads⟩ := scanHosts_of_fits size hz hfits
    rw [hresult]
    refine ⟨fun _ ↦ hfits, fun _ ↦ ⟨hfits.1, hall, fun t ht ↦ ?_⟩⟩
    cases ht
    refine all_matchLoop hlen hleads hfits.2 (not_mem_cString host 0) ?_
    rw [hleads.length_eq, Nat.zero_add]
  · simp only [not_all_scanHosts _ hz hfits, false_and, and_false, hfits]

/-- What keeps a client of `http_simple.c` in its buffers: fewer than 1024 bytes, no more than 128
names, and room in `hostport` for the drawn one with its port. -/
def HttpFits (info : Http.ServerInfo) (draws : Draws) : Prop :=
  ScanFits true info.hosts ∧ (hostport info draws).length < 128

theorem clientHosts_iff (info : Http.ServerInfo) (draws : Draws) :
    (0 ∈ strncpy info.hosts 1024 ∧
        (clientHosts info draws.pick).All (HostAccess.Within 128)) ↔ HttpFits info draws := by
  have hname : (splitHosts info.hosts).1.getD
      (draws.pick.toNat % (splitHosts info.hosts).1.length) [] ++
        (if info.port = 80 then [] else ascii ":" ++ decimal info.port.toNat) =
      hostport info draws := by
    unfold hostport
    by_cases hport : info.port = 80
    · simp only [hport, if_true, List.append_nil]
    · simp only [hport, if_false, List.append_assoc]
  rw [clientHosts, client_iff draws.pick (not_mem_hosts info), HttpFits]
  simp only [hostNames, if_true, hname]
  exact Iff.rfl

theorem not_mem_hostsText (info : ServerInfo) (host : Bytes) : 0 ∉ hostsText info host := by
  unfold hostsText
  split
  · exact not_mem_cString _ _
  · split
    · exact not_mem_cString _ _
    · exact not_mem_cString _ _

theorem tls12ClientHosts_iff (info : ServerInfo) (host : Bytes) (draw : UInt64) :
    (0 ∈ strncpy (hostsText info host) 1024 ∧
        (tls12ClientHosts info host draw).All (HostAccess.Within 256)) ↔
      hostFits (hostsText info host) draw = true := by
  rw [tls12ClientHosts, client_iff draw (not_mem_hostsText info host), hostFits]
  simp only [ScanFits, hostNames, List.append_nil, chosenHost, List.getD_eq_getElem?_getD,
    Bool.and_eq_true, decide_eq_true_eq, Bool.false_eq_true, if_false, Nat.lt_iff_add_one_le]

/-- The four functions keep `hosts` terminated and stay in `hosts`, `phost` and the block for the
name exactly for the lists that fit in them. -/
theorem hostLists_inBuffers_iff (client : Http.ServerInfo) (draws : Draws) (param header : Bytes)
    (info : ServerInfo) (host : Bytes) (draw : UInt64) :
    ((0 ∈ strncpy client.hosts 1024 ∧
      (httpSimpleClientHosts client draws.pick).All (HostAccess.Within 128)) ↔
        HttpFits client draws) ∧
    ((0 ∈ strncpy client.hosts 1024 ∧
      (httpPostClientHosts client draws.pick).All (HostAccess.Within 128)) ↔
        HttpFits client draws) ∧
    ((0 ∈ strncpy (cString param 0) 1024 ∧
      ∀ size, (httpSimpleServerHosts param header).All (HostAccess.Within size)) ↔
        ScanFits true (cString param 0)) ∧
    ((0 ∈ strncpy (hostsText info host) 1024 ∧
      (tls12ClientHosts info host draw).All (HostAccess.Within 256)) ↔
        hostFits (hostsText info host) draw = true) := by
  refine ⟨clientHosts_iff client draws, clientHosts_iff client draws, ⟨fun h ↦ ?_, fun h ↦ ?_⟩,
    tls12ClientHosts_iff info host draw⟩
  · exact (server_iff 0 param header).mp ⟨h.1, h.2 0⟩
  · have hserver (size : Nat) := (server_iff size param header).mpr h
    exact ⟨(hserver 0).1, fun size ↦ (hserver size).2⟩

/-- `n` commas make `n + 1` names. -/
theorem length_hostNames_commas (http : Bool) (n : Nat) :
    (hostNames http (List.replicate n 0x2C)).length = n + 1 := by
  have hstarts (pos : Nat) : (hostStarts http pos (List.replicate n 0x2C)).length = n := by
    induction n generalizing pos with
    | zero => rfl
    | succ n ih => rw [List.replicate_succ, hostStarts, if_pos rfl, List.length_cons, ih]
  rw [← length_hostStarts, hstarts]

/-- 129 empty names: each of the four functions stores a pointer behind `phost`. -/
theorem hostLists_leave_buffers_at_129_names :
    let commas : Bytes := List.replicate 128 0x2C
    ¬ (httpSimpleClientHosts ⟨[], 80, some commas, 0⟩ 0).All (HostAccess.Within 128) ∧
    ¬ (httpPostClientHosts ⟨[], 80, some commas, 0⟩ 0).All (HostAccess.Within 128) ∧
    ¬ (httpSimpleServerHosts commas []).All (HostAccess.Within 128) ∧
    ¬ (tls12ClientHosts ⟨[], some commas⟩ [] 0).All (HostAccess.Within 256) := by
  intro commas
  have hz : 0 ∉ commas := by
    intro h
    exact absurd (List.eq_of_mem_replicate h) (by decide)
  have hmany (http : Bool) : ¬ ScanFits http commas := by
    intro h
    have hcount := h.2
    rw [length_hostNames_commas] at hcount
    omega
  have hscan (http : Bool) (size : Nat) := not_all_scanHosts size hz (hmany http)
  have htext : cString commas 0 = commas := cString_of_not_mem hz
  have hne : ¬ commas = [] := List.cons_ne_nil _ _
  have hparam (host : Bytes) :
      (if cString commas 0 = [] then host else cString commas 0) = commas := by
    rw [htext, if_neg hne]
  have hclient : ¬ (clientHosts ⟨[], 80, some commas, 0⟩ 0).All (HostAccess.Within 128) := by
    have hhosts : (⟨[], 80, some commas, 0⟩ : Http.ServerInfo).hosts = commas :=
      hparam (cString [] 0)
    rw [clientHosts, hhosts, Logged.all_bind]
    exact fun h ↦ hscan true 128 h.1
  refine ⟨hclient, hclient, ?_, ?_⟩
  · rw [httpSimpleServerHosts, htext, if_neg hne, Logged.all_bind]
    exact fun h ↦ hscan true 128 h.1
  · have hhosts : hostsText ⟨[], some commas⟩ [] = commas := hparam (cString [] 0)
    rw [tls12ClientHosts, hhosts, Logged.all_bind]
    exact fun h ↦ hscan false 256 h.1

end OpenWrtCompile.Obfs
