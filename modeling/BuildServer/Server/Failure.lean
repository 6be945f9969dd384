import BuildServer.Build.Call
import BuildServer.Protocol.Results

namespace BuildServer

inductive RequestError where
  | invalidParams (e : JsonError)
  | internal (causes : List String)
  deriving DecidableEq, Repr

namespace RequestError

def ofBuild (e : BuildError) : RequestError :=
  .internal e.causes

def code : RequestError → Int
  | .invalidParams _ => ResponseError.invalidParamsCode
  | .internal _ => ResponseError.internalCode

def invalidStart : String := "Invalid params: "

def summary : RequestError → String
  | .invalidParams e => invalidStart ++ e.message
  | .internal causes => causes.headD ""

def message : RequestError → String
  | .invalidParams e => invalidStart ++ e.message
  | .internal causes => String.intercalate ": " causes

def response (e : RequestError) : ResponseError :=
  ⟨e.code, e.message⟩

end RequestError

end BuildServer
