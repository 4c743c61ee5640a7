import OpenWrtCompile.Obfs.Tls12Data
import OpenWrtCompile.Server.Plugins

/-!
# The obfs plugins of a listener

`shadowsocksr-libev/src/server/obfs.c:43–93` (`new_obfs_class`) and `tls1.2_ticket.c:265–497` as an
obfs plugin of a TCP connection. A class serves all connections of its listener, so each call of a
hook finds another time, other draws and what the other connections have left in the global data.
-/

namespace OpenWrtCompile.Server
open OpenWrtCompile.Base

variable {ω ρ : Type}

/-- A hook that finds other circumstances at every call: those of the call to come, then the rest. -/
def percall (f : ω → Option (Hook ρ)) : Hook ((Nat → ω) × ρ) := fun s block len ↦
  (f (s.1 0)).bind fun hook ↦ (hook s.2 block len).map fun h ↦
    ⟨(fun n ↦ s.1 (n + 1), h.data), h.block, h.moved, h.ret, h.needsendback⟩

/-- What a call of `tls1.2_ticket_auth` finds outside its connection: the clock, the global data of the
listener, the draws of `xorshift128plus` and `rand_bytes`, and the bytes that `realloc` adds. -/
structure TlsOutside where
  now : Nat
  global : Obfs.GlobalData
  draw : Nat → UInt64
  rand : Nat → UInt8
  fresh : Nat → UInt8

/-- The data of the records at the front of `recv`, up to the first that is not whole or is none. -/
def recordsPut : Nat → Bytes → Bytes
  | 0, _ => []
  | fuel + 1, recv =>
    if 5 < recv.length && Obfs.serverHeader recv && Obfs.be16 recv 3 + 5 ≤ recv.length then
      window recv 5 (Obfs.be16 recv 3) ++ recordsPut fuel (recv.drop (5 + Obfs.be16 recv 3))
    else []

/-- What `server_decode` of `n` bytes in `block` has copied to the front of the block. An error in the
data phase leaves what the records in front of it held. -/
def decodedPut (l : Obfs.LocalData) (block : Bytes) (n : Nat) (d : Obfs.Decoded) : Bytes :=
  match d.output with
  | some out => out
  | none =>
    if d.localData.handshakeStatus = .done then
      let recv :=
        if l.handshakeStatus = .done then l.recvBuffer ++ block.take n else window block 43 (n - 43)
      recordsPut (recv.length + 1) recv
    else []

/-- `tls1.2_ticket_auth`. The ServerHello is copied into a block that has to hold it. -/
def tls12TicketAuth (hmac : Bytes → Bytes → Bytes) (info : Obfs.ServerInfo) (w : TlsOutside) :
    ObfsClass Obfs.LocalData where
  serverPreEncrypt := none
  serverEncode := some fun l block len ↦
    (Obfs.serverEncode hmac info w.global l ⟨block.take len, w.draw, w.rand, w.now⟩).bind
      fun (l', out) ↦
        if l.handshakeStatus ≠ .done ∧ block.length < out.length then none
        else some ⟨l', store block 0 out, decide (block.length < out.length), out.length, false⟩
  serverDecode := some fun l block len ↦
    (Obfs.serverDecode hmac info w.now l w.global block len).map fun d ↦
      let grown := block ++ (List.range (d.capacity - block.length)).map w.fresh
      ⟨d.localData, store grown 0 (decodedPut l block len d), decide (block.length < d.capacity),
        match d.output with
        | none => -1
        | some out => out.length,
        d.needsendback⟩
  serverPostDecrypt := none
  setHeadLen l _ := l

/-- The names of `new_obfs_class` that an obfs layer may have; `origin` stands for none as well. -/
inductive ObfsPlugin where
  | plain
  | httpSimple
  | httpPost
  | tls12TicketAuth
  deriving DecidableEq, Repr

/-- The configuration of a listener, as far as its obfs plugin reads it: the HMAC is a parameter. -/
structure ObfsConfig where
  hmac : Bytes → Bytes → Bytes
  tls : Obfs.ServerInfo
  http : Http.ServerInfo

/-- What the calls of a plugin find outside its connection. -/
abbrev ObfsPlugin.Outside : ObfsPlugin → Type
  | .plain => Unit
  | .httpSimple | .httpPost => Nat → Http.Memory × Http.Tm
  | .tls12TicketAuth => Nat → TlsOutside

/-- The data of a plugin. -/
abbrev ObfsPlugin.Data : ObfsPlugin → Type
  | .plain => Unit
  | .httpSimple | .httpPost => (Nat → Http.Memory × Http.Tm) × Http.HttpObfs
  | .tls12TicketAuth => (Nat → TlsOutside) × Obfs.LocalData

/-- The hooks that `http_simple` and `http_post` share on a server. -/
def httpServer : ObfsClass ((Nat → Http.Memory × Http.Tm) × Http.HttpObfs) where
  serverPreEncrypt := none
  serverEncode := some (percall fun w ↦ (httpSimple w.1 w.2).serverEncode)
  serverDecode := some (percall fun w ↦ (httpSimple w.1 w.2).serverDecode)
  serverPostDecrypt := none
  setHeadLen s n := (s.1, (httpSimple (s.1 0).1 (s.1 0).2).setHeadLen s.2 n)

/-- `tls1.2_ticket_auth` on a server. -/
def tlsServer (config : ObfsConfig) : ObfsClass ((Nat → TlsOutside) × Obfs.LocalData) where
  serverPreEncrypt := none
  serverEncode := some (percall fun w ↦ (tls12TicketAuth config.hmac config.tls w).serverEncode)
  serverDecode := some (percall fun w ↦ (tls12TicketAuth config.hmac config.tls w).serverDecode)
  serverPostDecrypt := none
  setHeadLen s _ := s

/-- `new_obfs_class`; `plain` has no class. -/
def newObfsClass (config : ObfsConfig) : (p : ObfsPlugin) → Option (ObfsClass p.Data)
  | .plain => none
  | .httpSimple | .httpPost => some httpServer
  | .tls12TicketAuth => some (tlsServer config)

/-- `new_obfs` of a plugin, with `set_server_info`. -/
def newObfs (config : ObfsConfig) : (p : ObfsPlugin) → p.Outside → p.Data
  | .plain, _ => ()
  | .httpSimple, outside | .httpPost, outside => (outside, Http.httpSimpleNewObfs config.http)
  | .tls12TicketAuth, outside => (outside, Obfs.localDataInit)

end OpenWrtCompile.Server
