import BuildServer.Graph.Build
import BuildServer.Path.FileUri
import BuildServer.Server.Action

namespace BuildServer

structure Service where
  project : String
  active : List String
  cacheDir : String
  optionsChanged : Bool
  trigger : String → Program Unit

structure Refresh where
  snapshot : Snapshot
  changes : Changes
  deriving DecidableEq

namespace Service

open Program

/-- Builds a snapshot and puts it in the place of the cached one. One refresh goes on at a time, and
a failed one changes nothing. -/
def refresh (s : Service) (cached : Bool) : Program (Except BuildError Refresh) := do
  act .beginRefresh
  match ← inquire (Attempt.snapshot s.project s.active cached).run with
  | .error e =>
    act .finishRefresh
    pure (.error e)
  | .ok new =>
    let previous ← act (.replaceSnapshot new)
    act .finishRefresh
    pure (.ok ⟨new, new.changesFrom previous⟩)

def snapshot (s : Service) : Program (Except BuildError Snapshot) := do
  match ← act .cachedSnapshot with
  | some found => pure (.ok found)
  | none => pure ((← s.refresh true).map Refresh.snapshot)

def recordedRefresh (s : Service) (cached : Bool) : Program (Except BuildError Snapshot) := do
  match ← s.refresh cached with
  | .error e => pure (.error e)
  | .ok r =>
    act (.record r.changes)
    pure (.ok r.snapshot)

def changedOptionsOf (changed : Table CompilerOptions) (path : String) :
    Program (Option CompilerOptions) := do
  match changed.get? path with
  | some o => pure (some o)
  | none => pure (changed.get? ((← files).resolve path))

def announceOptions (changed : Table CompilerOptions) :
    List String → Program (Except WriteError Unit)
  | [] => pure (.ok ())
  | uri :: rest => do
    match FileUri.path? uri with
    | none => announceOptions changed rest
    | some path =>
      match ← changedOptionsOf changed (Path.normalize path) with
      | none => announceOptions changed rest
      | some o =>
        let params := Results.optionsChanged uri o
        match ← send (.notification "build/sourceKitOptionsChanged" (some params)) with
        | .error e => pure (.error e)
        | .ok () => announceOptions changed rest

def announceTargets (targets : List String) : Program (Except WriteError Unit) :=
  if targets.isEmpty then pure (.ok ())
  else send (.notification "buildTarget/didChange" (some (Results.targetsChanged targets)))

def announce (s : Service) : Program (Except WriteError Unit) := do
  let changes ← act .drain
  match ← announceTargets changes.targets with
  | .error e => pure (.error e)
  | .ok () =>
    if !s.optionsChanged then pure (.ok ())
    else if !(← act .hasDocuments) then pure (.ok ())
    else announceOptions changes.options (← act .documents)

/-- A refresh without cached answers, and its announcement. It counts as an update to the end, and is in
flight until shortly before. -/
def backgroundRefresh (s : Service) : Program Unit := do
  discard (s.recordedRefresh false)
  discard s.announce
  act .landRefresh
  act .leaveUpdate

end Service

end BuildServer
