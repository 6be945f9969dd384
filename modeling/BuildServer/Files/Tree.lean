import BuildServer.Path.Basic

/-!
A tree of files as a value: what every place holds, and the operations on it. A path is followed
part by part, through at most `maxLinks` links.
-/

namespace BuildServer

inductive FileError where
  | notFound
  | alreadyExists
  | accessDenied
  | notADirectory
  | isADirectory
  | tooManyLinks
  | nameTooLong
  | busy
  | noSpace
  | nulInPath
  | notText
  deriving DecidableEq, Repr

namespace FileError

def kind : FileError → String
  | .notFound => "NotFound"
  | .alreadyExists => "AlreadyExists"
  | .accessDenied => "PermissionDenied"
  | .notADirectory => "NotADirectory"
  | .isADirectory => "IsADirectory"
  | .tooManyLinks => "FilesystemLoop"
  | .nameTooLong => "InvalidFilename"
  | .busy => "ResourceBusy"
  | .noSpace => "StorageFull"
  | .nulInPath => "InvalidInput"
  | .notText => "InvalidData"

def message : FileError → String
  | .notFound => "No such file or directory (os error 2)"
  | .alreadyExists => "File exists (os error 17)"
  | .accessDenied => "Permission denied (os error 13)"
  | .notADirectory => "Not a directory (os error 20)"
  | .isADirectory => "Is a directory (os error 21)"
  | .tooManyLinks => "Too many levels of symbolic links (os error 40)"
  | .nameTooLong => "File name too long (os error 36)"
  | .busy => "Device or resource busy (os error 16)"
  | .noSpace => "No space left on device (os error 28)"
  | .nulInPath => "file name contained an unexpected NUL byte"
  | .notText => "stream did not contain valid UTF-8"

end FileError

abbrev Location := List String

inductive Node where
  | file (content : Bytes) (mode : Nat)
  | directory (mode : Nat)
  | link (target : String)
  deriving DecidableEq, Repr

namespace Mode

def readable (mode : Nat) : Bool := mode / 256 % 2 == 1
def writable (mode : Nat) : Bool := mode / 128 % 2 == 1
def enterable (mode : Nat) : Bool := mode / 64 % 2 == 1

end Mode

def Node.isDirectory : Node → Bool
  | .directory _ => true
  | _ => false

/-- The places other than the root, and the directory that relative paths start from. -/
structure Files where
  nodes : List (Location × Node)
  current : Location
  deriving DecidableEq, Repr

/-- An operation on files. What it did before it failed stays done. -/
abbrev FileM := ExceptT FileError (StateM Files)

namespace Files

def empty : Files := ⟨[], []⟩

def node? (fs : Files) (l : Location) : Option Node :=
  if l = [] then some (.directory 0o755) else fs.nodes.lookup l

def remove (fs : Files) (l : Location) : Files :=
  { fs with nodes := fs.nodes.filter fun e => e.1 != l }

def put (fs : Files) (l : Location) (n : Node) : Files :=
  { fs with nodes := (l, n) :: (fs.remove l).nodes }

def maxLinks : Nat := 40

def maxName : Nat := 255

def steps (path : String) : List String :=
  let names := (pieces '/' path.toList).filter (!·.isEmpty)
  let names := names.map String.ofList
  if path.toList.getLast? == some '/' then names ++ ["."] else names

def base (fs : Files) (path : String) : Location :=
  if Path.isAbsolute path then [] else fs.current

def follow (fs : Files) (again : Location → List String → Except FileError Location) :
    Location → List String → Except FileError Location
  | l, [] => .ok l
  | l, s :: rest =>
    match fs.node? l with
    | some (.directory mode) =>
      if !Mode.enterable mode then .error .accessDenied
      else if s = "." then follow fs again l rest
      else if s = ".." then follow fs again l.dropLast rest
      else if maxName < (Utf8.encode s).length then .error .nameTooLong
      else
        match fs.node? (l ++ [s]) with
        | none => .error .notFound
        | some (.link target) =>
          again (if Path.isAbsolute target then [] else l) (steps target ++ rest)
        | some _ => follow fs again (l ++ [s]) rest
    | some _ => .error .notADirectory
    | none => .error .notFound

def walk (fs : Files) : Nat → Location → List String → Except FileError Location
  | 0 => fs.follow fun _ _ => .error .tooManyLinks
  | links + 1 => fs.follow (fs.walk links)

def check (path : String) : Except FileError Unit :=
  if path.isEmpty then .error .notFound
  else if path.toList.contains '\x00' then .error .nulInPath
  else .ok ()

def locate (fs : Files) (path : String) : Except FileError Location := do
  check path
  fs.walk maxLinks (fs.base path) (steps path)

structure Slot where
  location : Location
  asDirectory : Bool
  deriving DecidableEq, Repr

/-- The slot that a path names, its last name not followed. A path that ends in dots has none. -/
def slot (fs : Files) (path : String) : Except FileError (Option Slot) := do
  check path
  let asDirectory := path.toList.getLast? == some '/'
  let names := ((pieces '/' path.toList).filter (!·.isEmpty)).map String.ofList
  match names.getLast? with
  | none => pure none
  | some name =>
    let l ← fs.walk maxLinks (fs.base path) names.dropLast
    match fs.node? l with
    | some (.directory mode) =>
      if !Mode.enterable mode then .error .accessDenied
      else if name = "." ∨ name = ".." then pure none
      else if maxName < (Utf8.encode name).length then .error .nameTooLong
      else pure (some ⟨l ++ [name], asDirectory⟩)
    | _ => .error .notADirectory

def present (fs : Files) (path : String) : Bool :=
  match fs.locate path with
  | .ok l => (fs.node? l).isSome
  | .error _ => false

def isDirectory (fs : Files) (path : String) : Bool :=
  match fs.locate path with
  | .ok l => ((fs.node? l).map Node.isDirectory).getD false
  | .error _ => false

def read (fs : Files) (path : String) : Except FileError Bytes := do
  let l ← fs.locate path
  match fs.node? l with
  | some (.file content mode) => if Mode.readable mode then .ok content else .error .accessDenied
  | some _ => .error .isADirectory
  | none => .error .notFound

def readText (fs : Files) (path : String) : Except FileError String := do
  match Utf8.decode? (← fs.read path) with
  | some s => .ok s
  | none => .error .notText

def checkEntry (fs : Files) (l : Location) : Except FileError Unit :=
  match fs.node? l.dropLast with
  | some (.directory mode) => if Mode.writable mode then .ok () else .error .accessDenied
  | _ => .error .notADirectory

def pathOf (l : Location) : String :=
  "/" ++ String.intercalate "/" l

def resolve (fs : Files) (path : String) : String :=
  match fs.locate path with
  | .ok l => if (fs.node? l).isSome then pathOf l else path
  | .error _ => path

/-- The slot that a path leads to, behind links to missing places. -/
def landing (fs : Files) : Nat → String → Except FileError (Option Slot)
  | 0, _ => .error .tooManyLinks
  | links + 1, path => do
    match ← fs.slot path with
    | none => pure none
    | some s =>
      match fs.node? s.location with
      | some (.link target) =>
        landing fs links <|
          if Path.isAbsolute target then target else pathOf s.location.dropLast ++ "/" ++ target
      | _ => pure (some s)

def names (fs : Files) (l : Location) : List String :=
  (fs.nodes.map (·.1)).filterMap fun k => if k ≠ [] ∧ k.dropLast = l then k.getLast? else none

end Files

namespace FileM

def fromFiles {α : Type} (f : Files → Except FileError α) : FileM α := do
  ExceptT.mk (pure (f (← get)))

def orElse {α : Type} (x : FileM α) (y : FileError → FileM α) : FileM α :=
  ExceptT.mk do
    match ← x.run with
    | .ok a => pure (.ok a)
    | .error e => (y e).run

def failIf (e : Option FileError) : FileM Unit :=
  match e with
  | some e => throw e
  | none => pure ()

def makeDirectory (trouble : Option FileError) (path : String) : FileM Unit := do
  match ← fromFiles (·.slot path) with
  | none => throw .alreadyExists
  | some s =>
    let fs ← get
    if (fs.node? s.location).isSome then throw .alreadyExists
    fromFiles (·.checkEntry s.location)
    failIf trouble
    set (fs.put s.location (.directory 0o755))

def makeDirectoriesWithin (trouble : String → Option FileError) : Nat → String → FileM Unit
  | 0, _ => throw .notFound
  | fuel + 1, path =>
    let settle := fun (e : FileError) => do
      if (← get).isDirectory path then pure () else throw e
    if path.isEmpty then pure ()
    else
      orElse (makeDirectory (trouble path) path) fun e =>
        if e = .notFound then
          match Path.parent? path with
          | none => throw e
          | some outer => do
            makeDirectoriesWithin trouble fuel outer
            orElse (makeDirectory (trouble path) path) settle
        else settle e

def makeDirectoriesWith (trouble : String → Option FileError) (path : String) : FileM Unit :=
  makeDirectoriesWithin trouble ((Path.parts path).length + 1) path

def makeDirectories (path : String) : FileM Unit :=
  makeDirectoriesWith (fun _ => none) path

def setMode (path : String) (mode : Nat) : FileM Unit := do
  let l ← fromFiles (·.locate path)
  let fs ← get
  match fs.node? l with
  | some (.file content _) => set (fs.put l (.file content mode))
  | some (.directory _) => set (fs.put l (.directory mode))
  | _ => throw .notFound

def writeFile (path : String) (content : Bytes) : FileM Unit := do
  let fs ← get
  match fs.locate path with
  | .ok l =>
    match fs.node? l with
    | some (.file _ mode) =>
      if Mode.writable mode then set (fs.put l (.file content mode)) else throw .accessDenied
    | _ => throw .isADirectory
  | .error .notFound =>
    match ← fromFiles (·.landing Files.maxLinks path) with
    | some s => do
      if s.asDirectory then throw .isADirectory
      if (fs.node? s.location).isSome then throw .notFound
      fromFiles (·.checkEntry s.location)
      set (fs.put s.location (.file content 0o644))
    | none => throw .isADirectory
  | .error e => throw e

def makeLink (path target : String) : FileM Unit := do
  match ← fromFiles (·.slot path) with
  | some s =>
    let fs ← get
    if (fs.node? s.location).isSome then throw .alreadyExists
    fromFiles (·.checkEntry s.location)
    set (fs.put s.location (.link target))
  | none => throw .alreadyExists

def removeFile (path : String) : FileM Unit := do
  match ← fromFiles (·.slot path) with
  | some s =>
    let fs ← get
    match fs.node? s.location with
    | some (.directory _) => throw .isADirectory
    | some _ => do
      fromFiles (·.checkEntry s.location)
      set (fs.remove s.location)
    | none => throw .notFound
  | none => throw .isADirectory

end FileM

end BuildServer
