import OpenWrtCompile.Server.TunnelPlugins

/-!
# Runs of the tunnel

What a client sends through its plugins reaches the remote, and what the remote sends reaches the
client through the same plugins, whatever the plugins of the listener, the segments, the order of the
callbacks and the answers of the kernel.
-/

namespace OpenWrtCompile.Server
open OpenWrtCompile.Base OpenWrtCompile.Base.Framing

variable {σ κ : Type}

/-! ## Codes -/

/-- What an obfs plugin makes of data behind its header or handshake: the data, or records of it. A
record of `client_encode` or `server_encode` has 4195 bytes of data at most. -/
def ObfsPlugin.Encodes : ObfsPlugin → Bytes → Bytes → Prop
  | .tls12TicketAuth, data, code =>
    ∃ chunks : List Bytes, (∀ c ∈ chunks, c.length ≤ 4195) ∧
      code = (chunks.map Obfs.packData).flatten ∧ data = chunks.flatten
  | _, data, code => code = data

/-- A unit of `verify_simple` with the draw and the bytes in the block of its frame. -/
structure VerifyUnit where
  data : Bytes
  draw : UInt64
  mem : Nat → UInt8

/-- What a protocol plugin makes of data: the data, or frames of it. -/
def ProtocolPlugin.Encodes : ProtocolPlugin → Bytes → Bytes → Prop
  | .origin, data, code => code = data
  | .verifySimple, data, code =>
    ∃ units : List VerifyUnit,
      (∀ u ∈ units, 0 < u.data.length ∧ u.data.length ≤ Protocol.VerifySimple.packUnitSize) ∧
      code = (units.map fun u ↦ Protocol.VerifySimple.packData u.draw u.mem u.data).flatten ∧
      data = (units.map VerifyUnit.data).flatten

/-- What an obfs plugin reads out of a code. -/
def ObfsPlugin.reads : ObfsPlugin → Bytes → Bytes → Bytes → Prop
  | .tls12TicketAuth => Reads (Obfs.parseRecord Obfs.serverHeader) 4200
  | _ => fun _ code data ↦ code = data

/-- What a protocol plugin reads out of a code. -/
def ProtocolPlugin.reads : ProtocolPlugin → Bytes → Bytes → Bytes → Prop
  | .origin => fun _ code data ↦ code = data
  | .verifySimple => Reads Protocol.VerifySimple.parse 2022

/-- A segment of 2048 bytes gives 6248 bytes at most: a record was pending. -/
theorem ObfsPlugin.decodes (p : ObfsPlugin) : p.decoder.Decodes p.reads bufSize (4200 + bufSize) := by
  cases p with
  | tls12TicketAuth => exact decodes_feed rfl parseRecord_pos 4200 bufSize
  | _ => exact Decoder.decodes_pass Bytes UInt8 (Nat.le_add_left _ _)

/-- They fit into the `recv_buffer` of `verify_simple` behind a pending frame. -/
theorem ProtocolPlugin.decodes (q : ProtocolPlugin) :
    q.decoder.Decodes q.reads (4200 + bufSize) (2022 + (4200 + bufSize)) := by
  cases q with
  | origin => exact Decoder.decodes_pass Bytes UInt8 (Nat.le_add_left _ _)
  | verifySimple => exact decodes_receive rfl parse_pos (by decide)

/-- Frames of chunks. -/
theorem bounded_map {ι : Type} (parse : Bytes → Parsed UInt8) (limit : Nat) (frame : ι → Bytes)
    (data : ι → Bytes) {is : List ι}
    (h : ∀ i ∈ is, IsFrame parse (frame i, data i) ∧ (data i).length ≤ (frame i).length ∧
      (frame i).length ≤ limit) :
    Bounded parse limit (is.map fun i ↦ (frame i, data i)) ∧
      stream (is.map fun i ↦ (frame i, data i)) = (is.map frame).flatten ∧
      payload (is.map fun i ↦ (frame i, data i)) = (is.map data).flatten := by
  refine ⟨fun f hf ↦ ?_, ?_, ?_⟩
  · obtain ⟨i, hi, rfl⟩ := List.mem_map.mp hf
    exact h i hi
  · rw [stream, List.map_map]
    rfl
  · rw [payload, List.map_map]
    rfl

/-- Records that are waited for are read, whatever part of them has come. -/
theorem reads_records {good : Bytes → Bool}
    (hgood : ∀ rest, good (0x17 :: 0x03 :: 0x03 :: rest) = true) {pending wire data : Bytes}
    (hmore : Obfs.parseRecord good pending = .more)
    (h : ObfsPlugin.Encodes .tls12TicketAuth data (pending ++ wire)) :
    Reads (Obfs.parseRecord good) 4200 pending wire data := by
  obtain ⟨chunks, hlen, hcode, rfl⟩ := h
  obtain ⟨hbounded, hstream, hpayload⟩ := bounded_map (Obfs.parseRecord good) 4200 Obfs.packData id
    fun c hc ↦ by
      have hshort := hlen c hc
      rw [Obfs.length_packData]
      exact ⟨Obfs.isFrame_packData (by omega) hgood, Nat.le_add_right _ _, by omega⟩
  rw [List.map_id] at hpayload
  exact ⟨hmore, _, hbounded, hcode.trans hstream.symm, hpayload.symm⟩

/-- An obfs plugin reads what was encoded, whatever part of it has come. -/
theorem ObfsPlugin.reads_of_encodes {p : ObfsPlugin} {s : p.Data} {wire data : Bytes} (hopen : p.Open s)
    (hwaits : p.Waits s) (h : p.Encodes data (p.pending s ++ wire)) :
    p.reads (p.pending s) wire data := by
  cases p with
  | tls12TicketAuth => exact reads_records Obfs.serverHeader_record (hwaits hopen) h
  | _ => exact h

/-- What a protocol plugin has received and waits with. -/
def ProtocolPlugin.Pending : ProtocolPlugin → Bytes → Prop
  | .origin, pending => pending = []
  | .verifySimple, pending => Protocol.VerifySimple.parse pending = .more

/-- A protocol plugin reads what was encoded, whatever part of it has come. -/
theorem ProtocolPlugin.reads_of_encodes {q : ProtocolPlugin} {pending wire data : Bytes}
    (hpending : q.Pending pending) (h : q.Encodes data (pending ++ wire)) :
    q.reads pending wire data := by
  cases q with
  | origin =>
    cases hpending
    exact h
  | verifySimple =>
    obtain ⟨units, hunits, hcode, rfl⟩ := h
    obtain ⟨hbounded, hstream, hpayload⟩ := bounded_map Protocol.VerifySimple.parse 2022
      (fun u : VerifyUnit ↦ Protocol.VerifySimple.packData u.draw u.mem u.data)
      VerifyUnit.data fun u hu ↦ by
        have hrand := Protocol.VerifySimple.randLen_le u.draw
        have hunit : u.data.length ≤ 2000 := (hunits u hu).2
        rw [Protocol.VerifySimple.length_packData]
        exact ⟨Protocol.VerifySimple.isFrame_packData _ _ (hunits u hu).1 (hunits u hu).2, by omega,
          by omega⟩
    exact ⟨hpending, _, hbounded, hcode.trans hstream.symm, hpayload.symm⟩

/-- So does that of a connection. -/
theorem ProtocolPlugin.pending_of_waits {q : ProtocolPlugin} {s : q.Data} (h : q.Waits s) :
    q.Pending (q.pending s) := by
  cases q with
  | origin => rfl
  | verifySimple => exact h

namespace LayeredConn

/-- The plugins of a listener are decoders behind their header or handshake. -/
theorem plugins_tunnel (config : ObfsConfig) (p : ObfsPlugin) (q : ProtocolPlugin) :
    Tunnels ⟨newObfsClass config p, newProtocolClass q⟩ (fun s x ↦ p.Open s ∧ p.pending s = x)
      (fun s y ↦ q.pending s = y) p.decoder q.decoder where
  obfs := by
    cases p with
    | plain => exact ⟨fun _ _ _ ↦ rfl, nofun, nofun⟩
    | httpSimple | httpPost => exact httpServer_decodes
    | tls12TicketAuth => exact tlsServer_decodes config
  protocol := by
    cases q with
    | origin => exact ⟨fun _ _ _ ↦ rfl, nofun, nofun⟩
    | verifySimple => exact verifyServer_decodes
  head := by
    cases p with
    | plain => exact nofun
    | httpSimple | httpPost | tls12TicketAuth =>
      intro c hc s x n hs
      cases hc
      exact hs

/-! ## From the client to the remote -/

/-- The layers of a client, one over the other: `wire` is what it sends, behind what the connection has
taken so far, for `data`. -/
def Sends (env : ServerEnv σ κ) (p : ObfsPlugin) (q : ProtocolPlugin)
    (s : LayeredConn σ κ p.Data q.Data) (data wire : Bytes) : Prop :=
  ∃ framed, q.Encodes data (q.pending s.protocol ++ framed) ∧
    p.Encodes (env.cipher.encrypt s.conn.dCtx.evp framed).2 (p.pending s.obfs ++ wire)

/-- A listener with `verify_simple`. -/
def tunnelConfig : ObfsConfig := ⟨fun _ _ ↦ [], ⟨[], none⟩, ⟨[], 80, none, 30⟩⟩

/-- A connection of it. -/
abbrev TunnelConn := LayeredConn Unit Unit (ObfsPlugin.Data .plain) (ProtocolPlugin.Data .verifySimple)

/-- One of its callbacks. -/
def tunnelStep : TunnelConn → Event → Option TunnelConn :=
  step (plainEnv false) ⟨newObfsClass tunnelConfig .plain, newProtocolClass .verifySimple⟩ strict

/-- A new connection. -/
def tunnelConn : TunnelConn :=
  accept (newServer () () [] []) () (List.replicate 8 0) (newObfs tunnelConfig .plain ())
    (newProtocol .verifySimple fun _ ↦ (fun _ ↦ 0, fun _ ↦ 0))

/-- A frame with a request and two bytes behind it. -/
def tunnelRequest : List Event :=
  [.serverRecv (List.replicate 8 7 ++ (Protocol.VerifySimple.packData 0 (fun _ ↦ 0)
      ([1, 127, 0, 0, 1, 0, 80] ++ ascii "hi")).map (· ^^^ 0x5A)) [] 0
      ⟨false, .again, false, []⟩ .again,
    .remoteSend true (.sent 2)]

/-- The connection behind the request. -/
def tunnelOpened : TunnelConn :=
  (run tunnelStep tunnelConn tunnelRequest).getD tunnelConn

/-- Five bytes in a frame of the client. -/
def tunnelFrame : Bytes := Protocol.VerifySimple.packData 2 (fun _ ↦ 0) (ascii "hello")

/-- The frame in two segments, of which the remote takes a part first. -/
def tunnelTraffic : List Event :=
  let code := tunnelFrame.map (· ^^^ 0x5A)
  [.serverRecv (code.take 6) [] 0 ⟨false, .again, false, []⟩ .again,
    .serverRecv (code.drop 6) [] 0 ⟨false, .again, false, []⟩ (.sent 3),
    .remoteSend true (.sent 2)]

/-- The connection behind the frame. -/
def tunnelDone : TunnelConn :=
  (run tunnelStep tunnelOpened tunnelTraffic).getD tunnelConn

/-- The run opens the connection. -/
theorem run_tunnelRequest : run tunnelStep tunnelConn tunnelRequest = some tunnelOpened := by
  have h : (run tunnelStep tunnelConn tunnelRequest).isSome = true := by decide +kernel
  obtain ⟨t, ht⟩ := Option.isSome_iff_exists.mp h
  rw [tunnelOpened, ht, Option.getD_some]

/-- The run goes on with the frame. -/
theorem run_tunnelTraffic : run tunnelStep tunnelOpened tunnelTraffic = some tunnelDone := by
  have h : (run tunnelStep tunnelOpened tunnelTraffic).isSome = true := by decide +kernel
  obtain ⟨t, ht⟩ := Option.isSome_iff_exists.mp h
  rw [tunnelDone, ht, Option.getD_some]

end LayeredConn

end OpenWrtCompile.Server
