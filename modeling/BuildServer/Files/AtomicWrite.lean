import BuildServer.Files.Tree

/-!
Replacing a file as a whole: the bytes are staged in a file beside it, which then takes its place,
so a reader finds the old content or the new.
-/

namespace BuildServer.FileM

/-- The failures of the device: at making a directory, at creating, writing or syncing the staged file, at
moving it. A write may fail with some bytes written. -/
structure Trouble where
  make : String → Option FileError
  create : Option FileError
  write : Option (Nat × FileError)
  sync : Option FileError
  move : Option FileError

def Trouble.none : Trouble := ⟨fun _ => .none, .none, .none, .none, .none⟩

def directoryOf (path : String) : String :=
  match Path.parent? path with
  | some d => if d.isEmpty then "." else d
  | none => "."

/-- A name that is longer than every name in the tree, and so is not in use. -/
def stagingName (fs : Files) : String :=
  let longest := (fs.nodes.flatMap (·.1)).foldl (fun n s => max n s.length) 0
  String.ofList (".tmp".toList ++ List.replicate longest 'x')

def stage (trouble : Trouble) (directory : String) : FileM Location := do
  let l ← fromFiles (·.locate directory)
  let fs ← get
  match fs.node? l with
  | some (.directory _) =>
    failIf trouble.create
    let staged := l ++ [stagingName fs]
    fromFiles (·.checkEntry staged)
    set (fs.put staged (.file [] 0o600))
    pure staged
  | _ => throw .notADirectory

def moveInto (staged : Location) (path : String) : FileM Unit := do
  match ← fromFiles (·.slot path) with
  | none => throw .busy
  | some s =>
    if s.asDirectory then throw .notADirectory
    let fs ← get
    match fs.node? s.location, fs.node? staged with
    | some (.directory _), _ => throw .isADirectory
    | _, some n => do
      fromFiles (·.checkEntry s.location)
      set ((fs.remove staged).put s.location n)
    | _, none => throw .notFound

def fill (trouble : Trouble) (staged : Location) (content : Bytes) : FileM Unit := do
  match trouble.write with
  | some (written, e) =>
    modify (·.put staged (.file (content.take written) 0o600))
    throw e
  | none => modify (·.put staged (.file content 0o600))
  failIf trouble.sync

def atomicWriteWith (trouble : Trouble) (path : String) (content : Bytes) : FileM Unit := do
  makeDirectoriesWith trouble.make (directoryOf path)
  let staged ← stage trouble (directoryOf path)
  orElse (do fill trouble staged content; failIf trouble.move; moveInto staged path) fun e => do
    modify (·.remove staged)
    throw e

def atomicWrite (path : String) (content : Bytes) : FileM Unit :=
  atomicWriteWith .none path content

end BuildServer.FileM
