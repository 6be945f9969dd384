import BuildServer.Json.Decode

namespace BuildServer

inductive RequestId where
  | str (s : String)
  | int (n : Int)
  deriving DecidableEq, Repr

namespace RequestId

def text : RequestId → String
  | .str s => s
  | .int n => toString n

def toJson : RequestId → Json
  | .str s => .str s
  | .int n => .int n

def ofJson? : Json → Option RequestId
  | .str s => some (.str s)
  | .num (.int n) => if -0x8000000000000000 ≤ n ∧ n ≤ 0x7FFFFFFFFFFFFFFF then some (.int n) else none
  | _ => none

def readWithin (depth : Nat) : Json.Reader RequestId := fun d => do
  match ofJson? (← Json.any depth d) with
  | some i => pure i
  | none => Json.raise (.noVariant "JsonRpcId")

def reader : Json.Reader RequestId := readWithin maxDepth

end RequestId

end BuildServer
