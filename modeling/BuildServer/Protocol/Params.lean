import BuildServer.Json.Decode

namespace BuildServer

def uriShape (name : String) : Json.Shape (Option String) String where
  name := name
  start := none
  fields := [Json.field "uri" Json.string (fun d => d) (fun _ s => some s) false]
  complete d := Json.need "uri" d

namespace Params

def target : Json.Reader String := (uriShape "TargetIdentifier").read

def document : Json.Reader String := (uriShape "TextDocumentIdentifier").read

def targetsShape : Json.Shape (Option (List String)) (List String) where
  name := "TargetsParams"
  start := none
  fields := [Json.field "targets" (Json.list target) (fun d => d) (fun _ ts => some ts) false]
  complete d := Json.need "targets" d

def targets : Json.Reader (List String) := targetsShape.read

def inverseSourcesShape : Json.Shape (Option String) String where
  name := "InverseSourcesParams"
  start := none
  fields := [Json.field "textDocument" document (fun d => d) (fun _ s => some s) false]
  complete d := Json.need "textDocument" d

def inverseSources : Json.Reader String := inverseSourcesShape.read

structure Registration where
  action : Option String
  uri : Option String
  deriving DecidableEq, Repr

structure RegistrationDraft where
  action : Option (Option String)
  uri : Option (Option String)

def registrationShape : Json.Shape RegistrationDraft Registration where
  name := "RegisterForChangesParams"
  start := ⟨none, none⟩
  fields := [
    Json.field "action" (Json.optional Json.string) RegistrationDraft.action
      (fun d s => { d with action := some s }) true,
    Json.field "uri" (Json.optional Json.string) RegistrationDraft.uri
      (fun d s => { d with uri := some s }) true]
  complete d := .ok ⟨d.action.getD none, d.uri.getD none⟩

def registration : Json.Reader Registration := registrationShape.read

structure OptionsQuery where
  language : Option String
  document : String
  target : String
  deriving DecidableEq, Repr

structure OptionsQueryDraft where
  language : Option (Option String)
  document : Option String
  target : Option String

def optionsQueryShape : Json.Shape OptionsQueryDraft OptionsQuery where
  name := "SourceKitOptionsParams"
  start := ⟨none, none, none⟩
  fields := [
    Json.field "language" (Json.optional Json.string) OptionsQueryDraft.language
      (fun d s => { d with language := some s }) true,
    Json.field "textDocument" document OptionsQueryDraft.document
      (fun d s => { d with document := some s }) false,
    Json.field "target" target OptionsQueryDraft.target
      (fun d s => { d with target := some s }) false]
  complete d := do
    pure ⟨d.language.getD none, ← Json.need "textDocument" d.document, ← Json.need "target" d.target⟩

def optionsQuery : Json.Reader OptionsQuery := optionsQueryShape.read

structure FileEvent where
  uri : String
  kind : Int
  deriving DecidableEq, Repr

structure FileEventDraft where
  uri : Option String
  kind : Option Int

def fileEventShape : Json.Shape FileEventDraft FileEvent where
  name := "FileEvent"
  start := ⟨none, none⟩
  fields := [
    Json.field "uri" Json.string FileEventDraft.uri (fun d s => { d with uri := some s }) false,
    Json.field "type" Json.int32 FileEventDraft.kind (fun d n => { d with kind := some n }) false]
  complete d := do pure ⟨← Json.need "uri" d.uri, ← Json.need "type" d.kind⟩

def fileEventsShape : Json.Shape (Option (List FileEvent)) (List FileEvent) where
  name := "DidChangeWatchedFilesParams"
  start := none
  fields := [Json.field "changes" (Json.list fileEventShape.read) (fun d => d)
    (fun _ es => some es) true]
  complete d := .ok (d.getD [])

def fileEvents : Json.Reader (List FileEvent) := fileEventsShape.read

end Params

end BuildServer
