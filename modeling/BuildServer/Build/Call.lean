import BuildServer.Build.Report
import BuildServer.Dialogue.Basic
import BuildServer.Files.View

namespace BuildServer

inductive LaunchError where
  | file (e : FileError)
  | nulInArgument
  deriving DecidableEq, Repr

def LaunchError.message : LaunchError → String
  | .file e => e.message
  | .nulInArgument => "nul byte found in provided data"

inductive BuildError where
  | launch (arguments : String) (e : LaunchError)
  | failed (arguments status complaint : String)
  | decode (what : String) (e : JsonError)
  deriving DecidableEq, Repr

namespace BuildError

def message : BuildError → String
  | .launch arguments e => "failed to run xcodebuild " ++ arguments ++ ": " ++ e.message
  | .failed arguments status complaint =>
    "xcodebuild " ++ arguments ++ " failed (" ++ status ++ "): " ++ complaint
  | .decode what e => "failed to decode xcodebuild " ++ what ++ " output: " ++ e.summary

def causes (e : BuildError) : List String :=
  e.message :: match e with
    | .launch _ e => [e.message]
    | .failed _ _ _ => []
    | .decode _ e => [e.summary]

def fullMessage (e : BuildError) : String :=
  String.intercalate ": " e.causes

end BuildError

/-- A call of the tool. With `cached`, an earlier answer may be given. -/
inductive Call where
  | list (cached : Bool)
  | index (scheme : String) (cached : Bool)
  | settings (scheme : String) (cached : Bool)
  | warmup (scheme : String)
  deriving DecidableEq, Repr

abbrev Call.Answer : Call → Type
  | .list _ => Except BuildError Listing
  | .index _ _ => Except BuildError IndexSettings
  | .settings _ _ => Except BuildError (List SchemeSettings)
  | .warmup _ => Except BuildError Unit

/-- A look at the world: a call of the tool, or a view of the files. -/
inductive Probe where
  | call (c : Call)
  | files
  deriving DecidableEq, Repr

abbrev Probe.Answer : Probe → Type
  | .call c => c.Answer
  | .files => FileView

abbrev Inquiry := Dialogue Probe.Answer

namespace Inquiry

def call (c : Call) : Inquiry c.Answer :=
  .question (Probe.call c)

def files : Inquiry FileView :=
  .question Probe.files

def list (cached : Bool) : Inquiry (Except BuildError Listing) :=
  call (.list cached)

def index (scheme : String) (cached : Bool) : Inquiry (Except BuildError IndexSettings) :=
  call (.index scheme cached)

def settings (scheme : String) (cached : Bool) : Inquiry (Except BuildError (List SchemeSettings)) :=
  call (.settings scheme cached)

end Inquiry

/-- Something that answers calls, with a state of its own that shows the files it works on. -/
structure Client (κ : Type) where
  answer : (c : Call) → κ → c.Answer × κ
  view : κ → FileView

namespace Client

variable {κ : Type}

def probe (client : Client κ) : (p : Probe) → κ → p.Answer × κ
  | .call c, k => client.answer c k
  | .files, k => (client.view k, k)

end Client

end BuildServer
