import BuildServer.Graph.Snapshot

namespace BuildServer

structure Changes where
  targets : List String
  options : Table CompilerOptions
  deriving DecidableEq

namespace Snapshot

/-- The targets whose record or files differ, or all if there was no snapshot. -/
def changedTargets (previous : Option Snapshot) (s : Snapshot) : List String :=
  match previous with
  | none => s.targets.map BuildTarget.uri
  | some p =>
    (Names.sorted ((p.targets ++ s.targets).map BuildTarget.uri)).filter fun uri =>
      p.target? uri != s.target? uri || p.files.get? uri != s.files.get? uri

def changedOptions (previous : Option Snapshot) (s : Snapshot) : Table CompilerOptions :=
  match previous with
  | none => s.optionsByFile
  | some p => s.optionsByFile.filter fun path o => p.optionsByFile.get? path != some o

def changesFrom (previous : Option Snapshot) (s : Snapshot) : Changes :=
  ⟨s.changedTargets previous, s.changedOptions previous⟩

end Snapshot

end BuildServer
