import BuildServer.Frame.Decoder
import BuildServer.Message.Id

namespace BuildServer

structure Incoming where
  method : String
  id : Option RequestId
  body : Bytes
  deriving DecidableEq, Repr

namespace Incoming

structure Draft where
  method : Option String
  id : Option (Option RequestId)

def shape : Json.Shape Draft (String × Option RequestId) where
  name := "Envelope"
  start := ⟨none, none⟩
  fields := [
    Json.field "method" Json.string Draft.method (fun d s => { d with method := some s }) false,
    Json.field "id" (Json.optional (RequestId.readWithin (maxDepth - 1))) Draft.id
      (fun d i => { d with id := some i }) true]
  complete d := do pure (← Json.need "method" d.method, d.id.getD none)

def parse (body : Bytes) : Except InvalidMessage Incoming :=
  match decodeText shape.read body with
  | .ok (method, id) => .ok ⟨method, id, body⟩
  | .error e => .error ⟨.body e, body⟩

def isNotification (m : Incoming) : Bool :=
  m.id.isNone

def paramsShape : Json.Shape (Option Json) Json where
  name := "WithParams"
  start := none
  fields := [Json.field "params" (Json.any (maxDepth - 1)) (fun d => d) (fun _ j => some j) true]
  complete d := .ok (d.getD .null)

def params {α : Type} (m : Incoming) (r : Json.Reader α) : Except JsonError α := do
  decodeValue r (← decodeText paramsShape.read m.body)

end Incoming

end BuildServer
