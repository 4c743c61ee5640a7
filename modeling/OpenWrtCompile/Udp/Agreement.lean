import OpenWrtCompile.Base.Returns
import OpenWrtCompile.Server.EarlyPayload
import OpenWrtCompile.Udp.Header

/-!
# The two header parsers

`shadowsocksr-libev/src/server/server.c:877–1025` and `udprelay.c:220–300` read the same address
header. Both use one library of literals: `cork_ip_init` recognises what `dns_pton` converts, and
`dns_pton` leaves the field alone where it converts nothing.
-/

namespace OpenWrtCompile.Udp
open OpenWrtCompile.Base OpenWrtCompile.Server

/-- `cork_ip_init`, `dns_pton` and `dns_ntop` for textual addresses. -/
structure Literals where
  corkIpInit : Bytes → Option Family
  dnsPton : Family → Bytes → Option Bytes
  dnsNtop : Family → Bytes → Bytes
  /-- The literals recognised are those converted for the matching family. -/
  recognised : ∀ text f, corkIpInit text = some f ↔ (dnsPton f text).isSome

/-- `ss_family` of a family. -/
def toAddrFamily : Family → AddrFamily
  | .inet => .inet
  | .inet6 => .inet6

/-- Bytes of an address field. -/
def fieldSize : Family → Nat
  | .inet => 4
  | .inet6 => 16

/-- `dns_pton` into a zeroed field of a family. -/
def Literals.convert (lits : Literals) (parsed field : Family) (text : Bytes) : Bytes :=
  match lits.dnsPton parsed text with
  | some a => store (List.replicate (fieldSize field) 0) 0 a
  | none => List.replicate (fieldSize field) 0

/-- The TCP parser with this library. -/
def Literals.parseEnv (lits : Literals) (env : ParseEnv) : ParseEnv :=
  { env with corkIpInit := lits.corkIpInit, dnsPton := fun f ↦ lits.convert f f }

/-- The UDP parser with this library; it converts with `AF_INET` alone, into the field of the
family that `cork_ip_init` found. -/
def Literals.addrLib (lits : Literals) : AddrLib where
  corkIpInit text := (lits.corkIpInit text).map toAddrFamily
  dnsPton
    | .inet6, text => lits.convert .inet6 .inet6 text
    | _, text => lits.convert .inet ((lits.corkIpInit text).getD .inet) text
  dnsNtop
    | .inet6, a => lits.dnsNtop .inet6 a
    | _, a => lits.dnsNtop .inet a

/-- The same family, address and port, or the same name to resolve and the same port. -/
def SameTarget (target : Target) (h : Header) : Prop :=
  match target with
  | .addr f a p => h.storage = ⟨toAddrFamily f, a, p⟩ ∧ h.port = p
  | .name host p => h.storage.family = .unspec ∧ h.host = host ∧ h.port = p

/-- Both parsers name one target, and take one number of bytes for it; the HMAC of one-time
authentication stands behind those. -/
structure Agree (buf : Buffer) (r : Request) (h : Header) : Prop where
  target : SameTarget r.target h
  consumed : buf.len = h.len + (if r.auth then onetimeauthBytes else 0) + r.payload.len

/-- The text of the domain field. -/
def domainText (bs : Bytes) : Bytes := cString (window bs 2 (bs[1]?.getD 0).toNat) 0

/-- A domain field that is the literal of an IPv6 address other than `::`. -/
def NamesIpv6 (lits : Literals) (bs : Bytes) : Prop :=
  bs[0]?.getD 0 &&& addrtypeMask = 3 ∧ lits.corkIpInit (domainText bs) = some .inet6 ∧
    lits.convert .inet6 .inet6 (domainText bs) ≠ List.replicate 16 0

/-- A string ends at the first zero byte. -/
theorem takeWhile_append_zero (text rest : Bytes) :
    (text ++ 0 :: rest).takeWhile (· ≠ 0) = text.takeWhile (· ≠ 0) := by
  induction text with
  | nil => rfl
  | cons c text ih => simp only [List.cons_append, List.takeWhile_cons, ih]

/-- A zeroed array reads as the text copied into it. -/
theorem cString_store_zeros (n : Nat) (text : Bytes) (h : text.length < n) :
    cString (store (List.replicate n 0) 0 text) 0 = cString text 0 := by
  obtain ⟨k, hk⟩ : ∃ k, n - text.length = k + 1 := ⟨n - text.length - 1, by omega⟩
  simp only [cString, store, List.drop_zero, List.take_zero, List.nil_append, Nat.zero_add,
    List.drop_replicate, hk, List.replicate_succ]
  exact takeWhile_append_zero text _

/-- A literal of one family is none of the other. -/
theorem Literals.dnsPton_inet_eq_none {lits : Literals} {text : Bytes}
    (h : lits.corkIpInit text = some .inet6) : lits.dnsPton .inet text = none := by
  cases hp : lits.dnsPton .inet text with
  | none => rfl
  | some a =>
    have hinet := (lits.recognised text .inet).mpr (by rw [hp]; rfl)
    rw [h] at hinet
    cases hinet

/-- What the UDP parser stores for the text of a domain field. -/
theorem nameStorage_addrLib (lits : Literals) (text port : Bytes) :
    nameStorage lits.addrLib text port =
      match lits.corkIpInit text with
      | some .inet => ⟨.inet, lits.convert .inet .inet text, port⟩
      | some .inet6 => ⟨.inet6, List.replicate 16 0, port⟩
      | none => .zero := by
  unfold nameStorage
  cases hc : lits.corkIpInit text with
  | none => simp [Literals.addrLib, hc]
  | some f =>
    cases f with
    | inet => simp [Literals.addrLib, hc, toAddrFamily]
    | inet6 =>
      simp [Literals.addrLib, hc, toAddrFamily, Literals.convert, lits.dnsPton_inet_eq_none hc,
        fieldSize]

/-- A domain field with its port, once the TCP parser accepts the text. -/
theorem nameTarget_agrees {lits : Literals} {env : ParseEnv} {text port : Bytes} {valid : Bool}
    {target : Target} {off off' len : Nat}
    (htcp : (if (lits.parseEnv env).outboundBlocked text then .error .blocked
      else match (lits.parseEnv env).corkIpInit text with
        | some f => .ok (.addr f ((lits.parseEnv env).dnsPton f text) port, off)
        | none => if valid then .ok (.name text port, off) else .error .malformed :
          Except Drop (Target × Nat)) = .ok (target, off')) :
    off' = off ∧ (SameTarget target ⟨len, text, port, nameStorage lits.addrLib text port⟩ ↔
      ¬ (lits.corkIpInit text = some .inet6 ∧
        lits.convert .inet6 .inet6 text ≠ List.replicate 16 0)) := by
  rw [nameStorage_addrLib]
  split at htcp
  · cases htcp
  · have hcork : (lits.parseEnv env).corkIpInit = lits.corkIpInit := rfl
    rw [hcork] at htcp
    cases hc : lits.corkIpInit text with
    | none =>
      rw [hc] at htcp
      simp only at htcp
      split at htcp
      · cases htcp
        exact ⟨rfl, by simp [SameTarget, SockAddr.zero]⟩
      · cases htcp
    | some f =>
      rw [hc] at htcp
      cases htcp
      refine ⟨rfl, ?_⟩
      cases f with
      | inet => simp [SameTarget, toAddrFamily, Literals.parseEnv]
      | inet6 => simp [SameTarget, toAddrFamily, Literals.parseEnv, eq_comm]

/-- On the bytes that both parsers accept, the targets are the same unless the domain field is an
IPv6 literal; the offset of the port is the same in any case. -/
theorem parseTarget_agrees {lits : Literals} {env : ParseEnv} {bs : Bytes} {target : Target}
    {off : Nat} {h : Header}
    (htcp : parseTarget (lits.parseEnv env) (.ofBytes bs) = .ok (target, off))
    (hudp : parseUdprelayHeader lits.addrLib bs = some h) :
    off + 2 = h.len ∧ (SameTarget target h ↔ ¬ NamesIpv6 lits bs) := by
  have hbyte (i : Nat) : (Buffer.ofBytes bs).byte i = bs[i]?.getD 0 := rfl
  have hlen : (Buffer.ofBytes bs).len = bs.length := rfl
  have harray : (Buffer.ofBytes bs).array = bs := rfl
  unfold parseTarget at htcp
  unfold parseUdprelayHeader at hudp
  have hmask : (0xEF : UInt8) = addrtypeMask := rfl
  simp only [hbyte, hlen, harray] at htcp
  simp only [hmask] at hudp
  by_cases h1 : bs[0]?.getD 0 &&& addrtypeMask = 1
  · have hnot : ¬ NamesIpv6 lits bs := fun hn ↦ by
      rw [NamesIpv6, h1] at hn
      exact absurd hn.1 (by decide)
    rw [if_pos h1] at htcp
    rw [if_pos h1] at hudp
    by_cases hl : 4 + 3 ≤ bs.length
    · rw [if_pos hl] at htcp hudp
      cases htcp
      cases hudp
      exact ⟨rfl, fun _ ↦ hnot, fun _ ↦ ⟨rfl, rfl⟩⟩
    · rw [if_neg hl] at htcp
      cases htcp
  · rw [if_neg h1] at htcp
    rw [if_neg h1] at hudp
    by_cases h3 : bs[0]?.getD 0 &&& addrtypeMask = 3
    · rw [if_pos h3] at htcp
      rw [if_pos h3] at hudp
      by_cases hl : (bs[1]?.getD 0).toNat + 4 ≤ bs.length
      · rw [if_pos hl] at htcp hudp
        have hname := length_window_le bs 2 (bs[1]?.getD 0).toNat
        have hbound := (bs[1]?.getD 0).toNat_lt
        rw [cString_store_zeros 257 _ (by omega)] at htcp
        obtain ⟨rfl, htarget⟩ := nameTarget_agrees htcp
        cases hudp
        constructor
        · show 2 + (bs[1]?.getD 0).toNat + 2 = 4 + (bs[1]?.getD 0).toNat
          omega
        · rw [NamesIpv6, and_iff_right h3]
          exact htarget
      · rw [if_neg hl] at hudp
        cases hudp
    · rw [if_neg h3] at htcp
      rw [if_neg h3] at hudp
      have hnot : ¬ NamesIpv6 lits bs := fun hn ↦ h3 hn.1
      by_cases h4 : bs[0]?.getD 0 &&& addrtypeMask = 4
      · rw [if_pos h4] at htcp
        rw [if_pos h4] at hudp
        by_cases hl : 16 + 3 ≤ bs.length
        · rw [if_pos hl] at htcp hudp
          cases htcp
          cases hudp
          exact ⟨rfl, fun _ ↦ hnot, fun _ ↦ ⟨rfl, rfl⟩⟩
        · rw [if_neg hl] at htcp
          cases htcp
      · rw [if_neg h4] at htcp
        cases htcp

/-- A parsed request takes the header, and the HMAC where it checked one, off the buffer. -/
theorem parseRequest_target {env : ParseEnv} {serverAuth : Bool} {buf : Buffer} {r : Request}
    (hin : buf.len ≤ buf.array.length) (hreq : parseRequest env serverAuth buf = .ok r) :
    ∃ off, parseTarget env (.ofBytes buf.data) = .ok (r.target, off) ∧
      buf.len = off + 2 + (if r.auth then onetimeauthBytes else 0) + r.payload.len := by
  obtain ⟨auth, -, hreq⟩ := bind_eq_ok.mp hreq
  obtain ⟨⟨target, off⟩, htarget, hreq⟩ := bind_eq_ok.mp hreq
  simp only at hreq
  by_cases hlt : buf.len < off + 2 + (if auth then onetimeauthBytes else 0)
  · rw [if_pos hlt] at hreq
    cases hreq
  · rw [if_neg hlt] at hreq
    rw [parseTarget_eq_ofBytes env buf hin (by omega)] at htarget
    cases hreq
    refine ⟨off, htarget, ?_⟩
    show buf.len = off + 2 + (if auth then onetimeauthBytes else 0) +
      (buf.len - (off + 2 + if auth then onetimeauthBytes else 0))
    omega

/-- On every byte string that both parsers accept they agree, unless its domain field is the literal
of an IPv6 address other than `::`. -/
theorem headers_agree_iff {lits : Literals} {env : ParseEnv} {serverAuth : Bool} {buf : Buffer}
    {r : Request} {h : Header} (hin : buf.len ≤ buf.array.length)
    (htcp : parseRequest (lits.parseEnv env) serverAuth buf = .ok r)
    (hudp : parseUdprelayHeader lits.addrLib buf.data = some h) :
    Agree buf r h ↔ ¬ NamesIpv6 lits buf.data := by
  obtain ⟨off, htarget, hlen⟩ := parseRequest_target hin htcp
  obtain ⟨hoff, hsame⟩ := parseTarget_agrees htarget hudp
  rw [← hsame]
  constructor
  · intro hagree
    exact hagree.target
  · intro htarget
    refine ⟨htarget, ?_⟩
    rw [hlen, ← hoff]

/-! ## Headers of the literal `::1` -/

/-- A library that knows one literal of each family. -/
def twoLiterals : Literals where
  corkIpInit text :=
    if text = ascii "1.2.3.4" then some .inet
    else if text = ascii "::1" then some .inet6
    else none
  dnsPton
    | .inet, text => if text = ascii "1.2.3.4" then some [1, 2, 3, 4] else none
    | .inet6, text => if text = ascii "::1" then some (List.replicate 15 0 ++ [1]) else none
  dnsNtop _ a := a
  recognised text f := by
    by_cases h4 : text = ascii "1.2.3.4"
    · subst h4
      cases f <;> decide
    · by_cases h6 : text = ascii "::1"
      · subst h6
        cases f <;> decide
      · cases f <;> simp [h4, h6]

/-- A server without one-time authentication and without a block list. -/
def plainEnv : ParseEnv where
  auth := false
  onetimeauthFails _ := false
  outboundBlocked _ := false
  corkIpInit _ := none
  dnsPton _ _ := []

/-- The header of a domain field, port 80. -/
def domainHeader (text : Bytes) : Buffer := .ofBytes (3 :: UInt8.ofNat text.length :: text ++ [0, 80])

/-- The literal of an IPv4 address in the domain field. -/
theorem headers_agree_inet :
    ∃ r h, parseRequest (twoLiterals.parseEnv plainEnv) false (domainHeader (ascii "1.2.3.4")) =
        .ok r ∧
      parseUdprelayHeader twoLiterals.addrLib (domainHeader (ascii "1.2.3.4")).data = some h ∧
      (Agree (domainHeader (ascii "1.2.3.4")) r h ↔
        ¬ NamesIpv6 twoLiterals (domainHeader (ascii "1.2.3.4")).data) :=
  ⟨_, _, rfl, rfl, @headers_agree_iff twoLiterals plainEnv false _ _ _ (Nat.le_refl _) rfl rfl⟩

/-- The literal `::1` in the domain field: the TCP server connects to `::1`, the UDP relay to
`::`. -/
theorem headers_disagree_inet6 :
    ∃ r h, parseRequest (twoLiterals.parseEnv plainEnv) false (domainHeader (ascii "::1")) = .ok r ∧
      parseUdprelayHeader twoLiterals.addrLib (domainHeader (ascii "::1")).data = some h ∧
      r.target = .addr .inet6 (List.replicate 15 0 ++ [1]) [0, 80] ∧
      h.storage = ⟨.inet6, List.replicate 16 0, [0, 80]⟩ ∧
      ¬ Agree (domainHeader (ascii "::1")) r h := by
  refine ⟨_, _, rfl, rfl, rfl, rfl, fun hagree ↦ ?_⟩
  have hstorage : (⟨.inet6, List.replicate 16 0, [0, 80]⟩ : SockAddr) =
      ⟨.inet6, List.replicate 15 0 ++ [1], [0, 80]⟩ := hagree.target.1
  exact absurd hstorage (by decide)

end OpenWrtCompile.Udp
