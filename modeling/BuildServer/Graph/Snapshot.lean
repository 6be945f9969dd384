import BuildServer.Dialogue.Basic
import BuildServer.Path.Basic
import BuildServer.Protocol.Results

namespace BuildServer

structure Snapshot where
  targets : List BuildTarget
  files : Table (List String)
  options : Table (Table CompilerOptions)
  targetsByFile : Table (List String)
  optionsByFile : Table CompilerOptions
  indexStore : Option String
  deriving DecidableEq

abbrev Resolving := Dialogue fun _ : String => String

def Resolving.eval {α : Type} (resolve : String → String) (d : Resolving α) : α :=
  (d.run (fun path s => (resolve path, s)) ()).1

namespace Snapshot

def empty : Snapshot := ⟨[], .empty, .empty, .empty, .empty, none⟩

/-- Options of a file. Those in a target come first, and those of the path itself before those of
the resolved one, which is only asked for when the first place has none. -/
def findOptions (s : Snapshot) (path : String) (target : Option String) :
    Resolving (Option CompilerOptions) :=
  let path := Path.normalize path
  let own := target.bind s.options.get?
  match (own.getD s.optionsByFile).get? path with
  | some o => pure (some o)
  | none => do
    let resolved ← .question path
    pure ((own.bind (·.get? resolved)).or
      ((s.optionsByFile.get? path).or (s.optionsByFile.get? resolved)))

def findTargets (s : Snapshot) (path : String) : Resolving (List String) :=
  let path := Path.normalize path
  match s.targetsByFile.get? path with
  | some ts => pure ts
  | none => do
    let resolved ← .question path
    pure ((s.targetsByFile.get? resolved).getD [])

def optionsFor (s : Snapshot) (resolve : String → String) (path : String)
    (target : Option String) : Option CompilerOptions :=
  (s.findOptions path target).eval resolve

def targetsFor (s : Snapshot) (resolve : String → String) (path : String) : List String :=
  (s.findTargets path).eval resolve

def target? (s : Snapshot) (uri : String) : Option BuildTarget :=
  s.targets.find? (·.uri == uri)

def filesOf (s : Snapshot) (target : String) : List String :=
  (s.files.get? target).getD []

end Snapshot

end BuildServer
