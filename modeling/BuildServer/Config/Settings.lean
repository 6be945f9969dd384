import BuildServer.Config.Project
import BuildServer.Toml.Parser

namespace BuildServer

structure Environment where
  home : Option String
  cacheHome : Option String
  cacheDir : Option String
  optionsChanged : Option String
  deriving DecidableEq, Repr

namespace Environment

def homeDirectory (env : Environment) : String :=
  match env.home with
  | some h => if h.isEmpty then "/root" else h
  | none => "/root"

def settingsPath (env : Environment) : String :=
  Path.join (Path.join env.homeDirectory ".xcode-bsp") "config.toml"

def defaultCacheDir (env : Environment) : String :=
  let caches := match env.cacheHome.filter Path.isAbsolute with
    | some d => d
    | none => Path.join env.homeDirectory ".cache"
  Path.join caches "xcode-bsp"

end Environment

structure Settings where
  logFilter : Option String
  cacheDir : Option String
  optionsChanged : Bool
  deriving DecidableEq, Repr

namespace Settings

def default : Settings := ⟨none, none, false⟩

def string? : Toml → Option String
  | .string s => some s
  | _ => none

def boolean? : Toml → Option Bool
  | .boolean b => some b
  | _ => none

def fieldOf {α : Type} (key : String) (read : Toml → Option α) (hasDefault : Bool) :
    Toml → Option (Option α)
  | .table es _ =>
    match es.lookup key with
    | none => some none
    | some v => (read v).map some
  | .array (v :: _) => (read v).map some
  | .array [] => if hasDefault then some none else none
  | .datetime => some none
  | _ => none

def sectionField {α : Type} (name key : String) (read : Toml → Option α) (hasDefault : Bool)
    (es : Toml.Entries) : Option (Option α) :=
  match es.lookup name with
  | none => some none
  | some v => fieldOf key read hasDefault v

def ofToml? (es : Toml.Entries) : Option Settings := do
  let filter ← sectionField "log" "filter" string? false es
  let dir ← sectionField "cache" "dir" string? false es
  let changed ← sectionField "notifications" "source_kit_options_changed" boolean? true es
  pure ⟨filter, dir, changed.getD false⟩

def loadFrom (fs : Files) (path : String) : Except ConfigError (Option Settings) :=
  if fs.present path then
    match fs.readText path with
    | .error e => .error (.read path e)
    | .ok text =>
      match (Toml.parse? text).bind ofToml? with
      | some s => .ok (some s)
      | none => .error (.toml path)
  else .ok none

def load (fs : Files) (env : Environment) : Except ConfigError (Option Settings) :=
  loadFrom fs env.settingsPath

def cacheDirIn (s : Settings) (env : Environment) : String :=
  match env.cacheDir.filter (!·.isEmpty) with
  | some d => d
  | none => s.cacheDir.getD env.defaultCacheDir

def optionsChangedIn (s : Settings) (env : Environment) : Bool :=
  match env.optionsChanged with
  | some v => ["1", "true", "yes"].contains (lowerAscii (trim v))
  | none => s.optionsChanged

end Settings

end BuildServer
