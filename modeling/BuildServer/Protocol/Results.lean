import BuildServer.Message.Id
import BuildServer.Options.Basic

namespace BuildServer

def languageIds : List String :=
  ["swift", "objective-c", "objective-cpp", "c", "cpp"]

structure BuildTarget where
  uri : String
  displayName : String
  dependencies : List String
  deriving DecidableEq, Repr

namespace BuildTarget

def toJson (t : BuildTarget) : Json :=
  .obj [("uri", .str t.uri), ("displayName", .str t.displayName),
    ("dependencies", Json.strings t.dependencies)]

structure Draft where
  uri : Option String
  displayName : Option String
  dependencies : Option (List String)

def shape : Json.Shape Draft BuildTarget where
  name := "BuildTarget"
  start := ⟨none, none, none⟩
  fields := [
    Json.field "uri" Json.string Draft.uri (fun d s => { d with uri := some s }) false,
    Json.field "displayName" Json.string Draft.displayName
      (fun d s => { d with displayName := some s }) false,
    Json.field "dependencies" (Json.list Json.string) Draft.dependencies
      (fun d s => { d with dependencies := some s }) false]
  complete d := do
    pure ⟨← Json.need "uri" d.uri, ← Json.need "displayName" d.displayName,
      ← Json.need "dependencies" d.dependencies⟩

end BuildTarget

structure ResponseError where
  code : Int
  message : String
  deriving DecidableEq, Repr

namespace ResponseError

def methodNotFoundCode : Int := -32601
def invalidParamsCode : Int := -32602
def internalCode : Int := -32603

def methodNotFound (method : String) : ResponseError :=
  ⟨methodNotFoundCode, "Method not found: " ++ method⟩

def toJson (e : ResponseError) : Json :=
  .obj [("code", Json.int e.code), ("message", .str e.message)]

structure Draft where
  code : Option Int
  message : Option String

def shape : Json.Shape Draft ResponseError where
  name := "ResponseError"
  start := ⟨none, none⟩
  fields := [
    Json.field "code" Json.int64 Draft.code (fun d n => { d with code := some n }) false,
    Json.field "message" Json.string Draft.message (fun d s => { d with message := some s }) false]
  complete d := do pure ⟨← Json.need "code" d.code, ← Json.need "message" d.message⟩

end ResponseError

inductive Outgoing where
  | result (id : RequestId) (value : Json)
  | error (id : RequestId) (e : ResponseError)
  | notification (method : String) (params : Option Json)

namespace Outgoing

def version : String × Option Json := ("jsonrpc", some (.str "2.0"))

def toJson : Outgoing → Json
  | result id value => Json.objOf [version, ("id", some id.toJson), ("result", some value)]
  | error id e => Json.objOf [version, ("id", some id.toJson), ("error", some e.toJson)]
  | notification method params =>
    Json.objOf [version, ("method", some (.str method)), ("params", params)]

end Outgoing

namespace Results

def uri (u : String) : Json := .obj [("uri", .str u)]

structure Session where
  indexDatabase : Option String
  indexStore : Option String
  watches : List String
  prepare : Bool
  options : Bool
  wait : Bool

def Session.toJson (s : Session) : Json :=
  let capabilities := Json.obj [("languageIds", Json.strings languageIds),
    ("buildTargetChangedProvider", .bool true), ("inverseSourcesProvider", .bool true)]
  let data := Json.objOf [("indexDatabasePath", s.indexDatabase.map .str),
    ("indexStorePath", s.indexStore.map .str),
    ("watches", some (.arr (s.watches.map fun g => .obj [("globPattern", .str g)]))),
    ("prepareProvider", some (.bool s.prepare)),
    ("sourceKitOptionsProvider", some (.bool s.options)),
    ("waitForBuildSystemUpdatesProvider", some (.bool s.wait))]
  .obj [("displayName", .str "xcode-bsp"), ("version", .str "0.1.0"),
    ("bspVersion", .str "2.0.0"), ("capabilities", capabilities), ("dataKind", .str "sourceKit"),
    ("data", data)]

def targets (ts : List BuildTarget) : Json :=
  let capabilities := Json.obj [("canCompile", .bool true), ("canTest", .bool false),
    ("canRun", .bool false), ("canDebug", .bool false)]
  .obj [("targets", .arr (ts.map fun t =>
    .obj [("id", uri t.uri), ("displayName", .str t.displayName), ("tags", .arr []),
      ("languageIds", Json.strings languageIds), ("dependencies", .arr (t.dependencies.map uri)),
      ("capabilities", capabilities)]))]

inductive SourceKind where
  | file
  | directory
  deriving DecidableEq, Repr

def SourceKind.code : SourceKind → Int
  | .file => 1
  | .directory => 2

structure Source where
  uri : String
  kind : SourceKind
  generated : Bool
  deriving DecidableEq, Repr

def Source.toJson (s : Source) : Json :=
  .obj [("uri", .str s.uri), ("kind", Json.int s.kind.code), ("generated", .bool s.generated)]

structure Sources where
  target : String
  sources : List Source
  roots : List String
  deriving DecidableEq, Repr

def sources (items : List Sources) : Json :=
  .obj [("items", .arr (items.map fun i =>
    .obj [("target", uri i.target), ("sources", .arr (i.sources.map Source.toJson)),
      ("roots", Json.strings i.roots)]))]

def inverseSources (ts : List String) : Json :=
  .obj [("targets", .arr (ts.map uri))]

def options (o : CompilerOptions) : Json :=
  Json.objOf [("compilerArguments", some (Json.strings o.options)),
    ("workingDirectory", o.workingDirectory.map .str)]

inductive EventKind where
  | created
  | changed
  | deleted
  deriving DecidableEq, Repr

def EventKind.code : EventKind → Int
  | .created => 1
  | .changed => 2
  | .deleted => 3

def targetEvent (target : String) (kind : EventKind) : Json :=
  .obj [("target", uri target), ("kind", Json.int kind.code)]

def targetsChanged (ts : List String) : Json :=
  .obj [("changes", .arr (ts.map fun t => targetEvent t .changed))]

def optionsChanged (document : String) (o : CompilerOptions) : Json :=
  .obj [("uri", .str document), ("updatedOptions", o.toJson)]

end Results

end BuildServer
