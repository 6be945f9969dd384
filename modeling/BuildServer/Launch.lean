import BuildServer.Build.Cache
import BuildServer.Config.Settings
import BuildServer.Server.Schedule
import BuildServer.Store.Disk

namespace BuildServer

structure Refusal where
  code : Nat
  complaints : List String
  deriving DecidableEq, Repr

structure Launched where
  service : Service
  builder : Builder
  server : Server Site

namespace Launch

abbrev M := ExceptT Refusal (StateM Disk)

def usage : String := "usage: xcode-bsp [server]"

def checkArguments : List String → Except Refusal Unit
  | [] => .ok ()
  | command :: _ =>
    if command = "server" then .ok () else .error ⟨2, ["unknown command: " ++ command, usage]⟩

def fail {α : Type} (message cause : String) : M α :=
  throw ⟨1, ["Error: " ++ message ++ ": " ++ cause]⟩

def withFiles {α : Type} (x : FileM α) : M (Except FileError α) := do
  let d ← get
  let (r, files) := (x.run.run d.files : Except FileError α × Files)
  set { d with files := files }
  pure r

def makeCacheDir (path : String) : M Unit := do
  match ← withFiles (FileM.makeDirectories path) with
  | .ok () => pure ()
  | .error e => fail ("Failed to create cache directory: " ++ path) e.message

def logFile (cacheDir : String) : String :=
  Path.join (Path.join cacheDir "logs") "xcode-bsp.log"

def openLog (cacheDir : String) : M Unit := do
  let path := logFile cacheDir
  discard (withFiles do
    FileM.makeDirectories (FileM.directoryOf path)
    Disk.touch path)

def openStore (cacheDir : String) : M Database := do
  let d ← get
  let (r, d) := ((Disk.openDatabase (Path.join cacheDir Disk.fileName)).run.run d :
    Except OpenError Database × Disk)
  set d
  match r with
  | .ok db => pure db
  | .error e => fail e.message e.cause

def start (tool : Tool) (env : Environment) (root : String) : M Launched := do
  let settings := ((Settings.load (← get).files env).toOption.bind id).getD .default
  let cacheDir := settings.cacheDirIn env
  makeCacheDir cacheDir
  openLog cacheDir
  match ProjectConfig.load (← get).files root with
  | .error e => fail e.message e.cause
  | .ok config =>
    let db ← openStore cacheDir
    pure
      { service :=
          { project := projectName root
            active := config.activeSchemes
            cacheDir := cacheDir
            optionsChanged := settings.optionsChangedIn env
            trigger := fun reason => .act (.requestRefresh reason) }
        builder := ⟨tool, root, cacheDir⟩
        server := .initial ⟨(← get).files, .empty, []⟩ (.database db) }

end Launch

def launch (tool : Tool) (env : Environment) (root : String) (arguments : List String) (d : Disk) :
    Except Refusal Launched × Disk :=
  match Launch.checkArguments arguments with
  | .error r => (.error r, d)
  | .ok () => (Launch.start tool env root).run.run d

namespace Launched

def move (l : Launched) (fuel : Nat) (m : Move) : Launched :=
  { l with server := l.server.attendTo l.builder.client l.service fuel m }

def rest (l : Launched) (fuel : Nat) : Launched :=
  { l with server := l.server.settle l.builder.client l.service fuel }

end Launched

end BuildServer
