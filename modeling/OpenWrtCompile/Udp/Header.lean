import OpenWrtCompile.Base.Bytes

/-!
# Address headers of relayed datagrams

`shadowsocksr-libev/src/server/udprelay.c:190–300`: `construct_udprealy_header` and
`parse_udprealy_header` of the server build (`MODULE_REMOTE`).
-/

namespace OpenWrtCompile.Udp
open OpenWrtCompile.Base

/-- `ss_family`; a zeroed address has the first one. -/
inductive AddrFamily where
  | unspec
  | inet
  | inet6
  deriving DecidableEq, Repr

/-- `struct sockaddr_storage`; the port stays in network order. -/
structure SockAddr where
  family : AddrFamily
  addr : Bytes
  port : Bytes
  deriving DecidableEq, Repr

/-- `memset(&addr, 0, sizeof(addr))`. -/
def SockAddr.zero : SockAddr := ⟨.unspec, [], [0, 0]⟩

/-- The literal parsers and printers of libcork and libudns. -/
structure AddrLib where
  /-- `cork_ip_init`, with the version it found; `none` is -1. -/
  corkIpInit : Bytes → Option AddrFamily
  /-- `dns_pton`. -/
  dnsPton : AddrFamily → Bytes → Bytes
  /-- `dns_ntop`. -/
  dnsNtop : AddrFamily → Bytes → Bytes

/-- What `parse_udprealy_header` finds: the header's length, the host, the port and `storage`, which
stays zeroed for a name that is no literal. -/
structure Header where
  len : Nat
  host : Bytes
  port : Bytes
  storage : SockAddr
  deriving DecidableEq, Repr

/-- `storage` for the name `tmp`. An IPv6 literal, too, is converted with `AF_INET`. -/
def nameStorage (lib : AddrLib) (tmp port : Bytes) : SockAddr :=
  match lib.corkIpInit tmp with
  | some .inet => ⟨.inet, lib.dnsPton .inet tmp, port⟩
  | some .inet6 => ⟨.inet6, lib.dnsPton .inet tmp, port⟩
  | _ => .zero

/-- `parse_udprealy_header`; `none` is the return value 0. -/
def parseUdprelayHeader (lib : AddrLib) (buf : Bytes) : Option Header :=
  let atyp := buf[0]?.getD 0 &&& 0xEF
  if atyp = 1 then
    if 4 + 3 ≤ buf.length then
      some ⟨7, lib.dnsNtop .inet (window buf 1 4), window buf 5 2,
        ⟨.inet, window buf 1 4, window buf 5 2⟩⟩
    else none
  else if atyp = 3 then
    let nameLen := (buf[1]?.getD 0).toNat
    if nameLen + 4 ≤ buf.length then
      let host := cString (window buf 2 nameLen) 0
      let port := window buf (2 + nameLen) 2
      some ⟨4 + nameLen, host, port, nameStorage lib host port⟩
    else none
  else if atyp = 4 then
    if 16 + 3 ≤ buf.length then
      some ⟨19, lib.dnsNtop .inet6 (window buf 1 16), window buf 17 2,
        ⟨.inet6, window buf 1 16, window buf 17 2⟩⟩
    else none
  else none

/-- `construct_udprealy_header`. -/
def constructUdprelayHeader (a : SockAddr) : Bytes :=
  match a.family with
  | .inet => 1 :: (a.addr ++ a.port)
  | .inet6 => 4 :: (a.addr ++ a.port)
  | .unspec => []

/-- The destination a header names when it is a domain: the name and the port. -/
def destination (lib : AddrLib) (header : Bytes) : Option (Bytes × Bytes) :=
  match parseUdprelayHeader lib header with
  | none => none
  | some h => if h.storage.family = .unspec then some (h.host, h.port) else none

/-- A window inside the first bytes of a block. -/
theorem window_take (buf : Bytes) {off len n : Nat} (h : off + len ≤ n) :
    window (buf.take n) off len = window buf off len := by
  simp only [window, List.drop_take, List.take_take]
  rw [Nat.min_eq_left (by omega)]

/-- The header's own bytes parse as the datagram they were taken from. -/
theorem parse_take (lib : AddrLib) (buf : Bytes) (h : Header)
    (hp : parseUdprelayHeader lib buf = some h) :
    parseUdprelayHeader lib (buf.take h.len) = some h := by
  have hbyte (i : Nat) (hi : i < h.len) : (buf.take h.len)[i]?.getD 0 = buf[i]?.getD 0 := by
    rw [List.getElem?_take_of_lt hi]
  unfold parseUdprelayHeader at hp
  simp only at hp
  by_cases h1 : buf[0]?.getD 0 &&& 0xEF = 1
  · rw [if_pos h1] at hp
    split at hp
    · next hl =>
      cases hp
      have h0 := hbyte 0 (Nat.zero_lt_succ _)
      have hlen : 4 + 3 ≤ (buf.take 7).length := by rw [List.length_take]; omega
      simp only [parseUdprelayHeader, h0, h1, hlen, if_true, window_take buf (show 1 + 4 ≤ 7 by decide),
        window_take buf (show 5 + 2 ≤ 7 by decide)]
    · cases hp
  · rw [if_neg h1] at hp
    by_cases h3 : buf[0]?.getD 0 &&& 0xEF = 3
    · rw [if_pos h3] at hp
      split at hp
      · next hl =>
        cases hp
        have h0 := hbyte 0 (by simp only; omega)
        have h1' := hbyte 1 (by simp only; omega)
        have hlen : (buf[1]?.getD 0).toNat + 4 ≤ (buf.take (4 + (buf[1]?.getD 0).toNat)).length := by
          rw [List.length_take]
          omega
        have hhost : 2 + (buf[1]?.getD 0).toNat ≤ 4 + (buf[1]?.getD 0).toNat := by omega
        have hport : 2 + (buf[1]?.getD 0).toNat + 2 ≤ 4 + (buf[1]?.getD 0).toNat := by omega
        have h31 : ¬ (3 : UInt8) = 1 := by decide
        simp only [parseUdprelayHeader, h0, h1', h3, h31, hlen, if_true, if_false,
          window_take buf hhost, window_take buf hport]
      · cases hp
    · rw [if_neg h3] at hp
      by_cases h4 : buf[0]?.getD 0 &&& 0xEF = 4
      · rw [if_pos h4] at hp
        split at hp
        · next hl =>
          cases hp
          have h0 := hbyte 0 (Nat.zero_lt_succ _)
          have hlen : 16 + 3 ≤ (buf.take 19).length := by rw [List.length_take]; omega
          have h41 : ¬ (4 : UInt8) = 1 := by decide
          have h43 : ¬ (4 : UInt8) = 3 := by decide
          simp only [parseUdprelayHeader, h0, h4, h41, h43, hlen, if_true, if_false,
            window_take buf (show 1 + 16 ≤ 19 by decide),
            window_take buf (show 17 + 2 ≤ 19 by decide)]
        · cases hp
      · rw [if_neg h4] at hp
        cases hp

/-- The destination of a datagram that names a domain. -/
theorem destination_take (lib : AddrLib) (buf : Bytes) (h : Header)
    (hp : parseUdprelayHeader lib buf = some h) :
    destination lib (buf.take h.len) =
      if h.storage.family = .unspec then some (h.host, h.port) else none := by
  unfold destination
  rw [parse_take lib buf h hp]

end OpenWrtCompile.Udp
