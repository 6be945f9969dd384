import BuildServer.Files.AtomicWrite
import BuildServer.Store.Basic

/-!
Databases in files. Opening one makes it and its directory if missing, readable by their owner
alone, and drops what earlier versions left.
-/

namespace BuildServer

structure DatabaseFile where
  database : Option Database
  legacy : Bool
  deriving DecidableEq, Repr

structure Disk where
  files : Files
  databases : List (Location × DatabaseFile)
  deriving DecidableEq, Repr

inductive OpenError where
  | createDirectory (path : String) (e : FileError)
  | directoryMode (path : String) (e : FileError)
  | createFile (path : String) (e : FileError)
  | fileMode (path : String) (e : FileError)
  | unusable (reason : String)
  deriving DecidableEq, Repr

namespace OpenError

def message : OpenError → String
  | .createDirectory path _ => "Failed to create directory: " ++ path
  | .directoryMode path _ => "Failed to set directory permissions: " ++ path
  | .createFile path _ => "Failed to create database file: " ++ path
  | .fileMode path _ => "Failed to set database permissions: " ++ path
  | .unusable _ => "Failed to set argument store pragmas"

def cause : OpenError → String
  | .createDirectory _ e => e.message
  | .directoryMode _ e => e.message
  | .createFile _ e => e.message
  | .fileMode _ e => e.message
  | .unusable reason => reason

end OpenError

namespace Disk

abbrev M := ExceptT OpenError (StateM Disk)

def fileName : String := "options.sqlite3"

def onFiles {α : Type} (wrap : FileError → OpenError) (x : FileM α) : M α :=
  ExceptT.mk do
    let d ← get
    let (r, files) := (x.run.run d.files : Except FileError α × Files)
    set { d with files := files }
    pure (r.mapError wrap)

def secureDirectory (path : String) : M Unit := do
  onFiles (.createDirectory path) (FileM.makeDirectories path)
  let fs := (← get).files
  match (fs.locate path).toOption.bind fs.node? with
  | some (.directory mode) =>
    if mode % 64 = 0 then pure () else onFiles (.directoryMode path) (FileM.setMode path 0o700)
  | _ => pure ()

def touch (path : String) : FileM Unit := do
  let fs ← get
  match fs.locate path with
  | .ok l =>
    match fs.node? l with
    | some (.file _ mode) =>
      if Mode.readable mode && Mode.writable mode then pure () else throw .accessDenied
    | _ => throw .isADirectory
  | .error .notFound => FileM.writeFile path []
  | .error e => throw e

def isBlank : Node → Bool
  | .file content _ => content.length ≤ 1
  | _ => false

def secureParent (path : String) : M Unit :=
  match Path.parent? path with
  | some d => if d.isEmpty then pure () else secureDirectory d
  | none => pure ()

def prepare (path : String) : M Unit := do
  secureParent path
  onFiles (.createFile path) (touch path)
  onFiles (.fileMode path) (FileM.setMode path 0o600)

def hold (d : Disk) (l : Location) (f : DatabaseFile) : Disk :=
  { d with databases := (l, f) :: d.databases.filter (·.1 != l) }

/-- The database in a file, which lacks no table from then on and has none of earlier versions. A file
with other content is no database, and neither is one in a directory where nothing can be written. -/
def attach (d : Disk) (path : String) : Except OpenError (Database × Disk) :=
  match d.files.locate path with
  | .error e => .error (.createFile path e)
  | .ok l =>
    let found := d.databases.lookup l
    if found.isNone && !((d.files.node? l).any isBlank) then
      .error (.unusable "file is not a database")
    else if (d.files.checkEntry l).toOption.isNone then
      .error (.unusable "unable to open database file")
    else
      let db := (found.bind DatabaseFile.database).getD .empty
      .ok (db, d.hold l ⟨some db, false⟩)

def openDatabase (path : String) : M Database := do
  prepare path
  match (← get).attach path with
  | .ok (db, d) => do
    set d
    pure db
  | .error e => throw e

def database? (d : Disk) (path : String) : Option DatabaseFile :=
  (d.files.locate path).toOption.bind fun l => d.databases.lookup l

def putDatabase (d : Disk) (path : String) (f : DatabaseFile) : Disk :=
  let files := ((touch path).run.run d.files).2
  match files.locate path with
  | .ok l => { d with files := files }.hold l f
  | .error _ => { d with files := files }

end Disk

end BuildServer
