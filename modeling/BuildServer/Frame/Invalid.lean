import BuildServer.Json.Decode

namespace BuildServer

def maxFrameSize : Nat := 4 * 1024 * 1024

inductive InvalidReason where
  | header
  | contentLength
  | tooLarge (size : Nat)
  | body (e : JsonError)
  deriving DecidableEq, Repr

def InvalidReason.message : InvalidReason → String
  | .header => "failed to decode message headers"
  | .contentLength => "failed to read Content-Length header"
  | .tooLarge size =>
    "Content-Length " ++ toString size ++ " exceeds maximum " ++ toString maxFrameSize
  | .body e => "failed to decode message body: " ++ e.summary

structure InvalidMessage where
  reason : InvalidReason
  data : Bytes
  deriving DecidableEq, Repr

namespace InvalidMessage

def previewLimit : Nat := 2048

def preview (data : Bytes) : String :=
  let text := Utf8.decodeLossy data
  let total := text.length
  if total ≤ previewLimit then text
  else
    String.ofList (text.toList.take previewLimit) ++ "...(truncated " ++
      toString (total - previewLimit) ++ " chars)"

def message (e : InvalidMessage) : String :=
  "Invalid message (reason=" ++ e.reason.message ++ "): " ++ preview e.data

end InvalidMessage

end BuildServer
