import BuildServer.Files.Tree
import BuildServer.Json.Decode

namespace BuildServer

inductive ConfigError where
  | read (path : String) (e : FileError)
  | json (path : String) (e : JsonError)
  | toml (path : String)
  deriving DecidableEq, Repr

namespace ConfigError

def path : ConfigError → String
  | .read p _ => p
  | .json p _ => p
  | .toml p => p

def message : ConfigError → String
  | .read p e => "failed to read " ++ p ++ ": " ++ e.message
  | .json p e => "failed to parse " ++ p ++ ": " ++ e.summary
  | .toml p => "failed to parse " ++ p ++ ": <syntax>"

def cause : ConfigError → String
  | .read _ e => e.message
  | .json _ e => e.summary
  | .toml _ => "<syntax>"

end ConfigError

structure ProjectConfig where
  name : String
  argv : List String
  version : String
  bspVersion : String
  languages : List String
  activeSchemes : List String
  deriving DecidableEq, Repr

namespace ProjectConfig

def toJson (c : ProjectConfig) : Json :=
  .obj [("name", .str c.name), ("argv", Json.strings c.argv), ("version", .str c.version),
    ("bspVersion", .str c.bspVersion), ("languages", Json.strings c.languages),
    ("activeSchemes", Json.strings c.activeSchemes)]

structure Draft where
  name : Option String
  argv : Option (List String)
  version : Option String
  bspVersion : Option String
  languages : Option (List String)
  activeSchemes : Option (List String)

def shape : Json.Shape Draft ProjectConfig where
  name := "ProjectConfig"
  start := ⟨none, none, none, none, none, none⟩
  fields := [
    Json.field "name" Json.string Draft.name (fun d s => { d with name := some s }) false,
    Json.field "argv" (Json.list Json.string) Draft.argv
      (fun d s => { d with argv := some s }) false,
    Json.field "version" Json.string Draft.version (fun d s => { d with version := some s }) false,
    Json.field "bspVersion" Json.string Draft.bspVersion
      (fun d s => { d with bspVersion := some s }) false,
    Json.field "languages" (Json.list Json.string) Draft.languages
      (fun d s => { d with languages := some s }) false,
    Json.field "activeSchemes" (Json.list Json.string) Draft.activeSchemes
      (fun d s => { d with activeSchemes := some s }) true]
  complete d := do
    pure ⟨← Json.need "name" d.name, ← Json.need "argv" d.argv, ← Json.need "version" d.version,
      ← Json.need "bspVersion" d.bspVersion, ← Json.need "languages" d.languages,
      d.activeSchemes.getD []⟩

def parse (text : String) : Except JsonError ProjectConfig :=
  decodeText shape.read (Utf8.encode text)

def path (root : String) : String :=
  Path.join (Path.join root ".bsp") "xcode-bsp.json"

def load (fs : Files) (root : String) : Except ConfigError ProjectConfig :=
  let path := path root
  match fs.readText path with
  | .error e => .error (.read path e)
  | .ok text =>
    match parse text with
    | .error e => .error (.json path e)
    | .ok c => .ok c

end ProjectConfig

end BuildServer
