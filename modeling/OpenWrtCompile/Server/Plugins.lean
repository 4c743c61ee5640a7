import OpenWrtCompile.Http.Simple
import OpenWrtCompile.Protocol.VerifySimple
import OpenWrtCompile.Server.Layers

/-!
# Two plugin classes

`shadowsocksr-libev/src/server/obfs.c:50–63, 95–113`: `http_simple` as an obfs plugin and
`verify_simple` as a protocol plugin. A hook that a class does not set is not called for its layer
and stands here as NULL.
-/

namespace OpenWrtCompile.Server
open OpenWrtCompile.Base

/-- `http_simple`. Before the end of the header the block is overwritten with all that was received;
`mem` is read behind other blocks, `t` is the time of a response. -/
def httpSimple (mem : Http.Memory) (t : Http.Tm) : ObfsClass Http.HttpObfs where
  serverPreEncrypt := none
  serverEncode := some fun o block len ↦
    let (o, out) := Http.httpSimpleServerEncode t o (block.take len)
    some ⟨o, store block 0 out, decide (block.length < out.length), out.length, false⟩
  serverDecode := some fun o block len ↦
    let recv :=
      if o.localData.hasRecvHeader || len = 0 then block.take len
      else o.localData.recvBuffer ++ block.take len
    let grown := store block 0 recv
    (Http.httpSimpleServerDecode { mem with behind := grown.drop recv.length } o (block.take len)).map
      fun (o, out) ↦
        match out with
        | none => ⟨o, grown, decide (block.length < recv.length), -1, false⟩
        | some out => ⟨o, store grown 0 out, decide (block.length < recv.length), out.length, false⟩
  serverPostDecrypt := none
  setHeadLen o n := { o with server := { o.server with headLen := n } }

/-- `verify_simple`; every call gets the same draws and finds the same bytes in its new block. -/
def verifySimple (draw : Nat → UInt64) (mem : Nat → UInt8) : ObfsClass Bytes where
  serverPreEncrypt := some fun recvBuffer block len ↦
    (Protocol.VerifySimple.serverPreEncrypt ⟨block.take len, draw, mem⟩).map fun out ↦
      ⟨recvBuffer, store block 0 out, decide (block.length < out.length), out.length, false⟩
  serverEncode := none
  serverDecode := none
  serverPostDecrypt := some fun recvBuffer block len ↦
    (Protocol.VerifySimple.serverPostDecrypt recvBuffer (block.take len)).map fun (recvBuffer, out) ↦
      match out with
      | none => ⟨recvBuffer, block, false, -1, false⟩
      | some out =>
        ⟨recvBuffer, store block 0 out, decide (block.length < out.length), out.length, false⟩
  setHeadLen recvBuffer _ := recvBuffer

end OpenWrtCompile.Server
