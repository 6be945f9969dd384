import BuildServer.Server.Action
import BuildServer.Server.BuildState
import BuildServer.Store.Basic

namespace BuildServer

structure Shared (κ : Type) where
  site : κ
  snapshot : Option Snapshot
  refreshing : Bool
  state : BuildState
  store : Store
  accepted : List String
  noted : List String
  writer : Writer Outgoing
  exit : Option Nat

namespace Shared

variable {κ : Type}

def initial (site : κ) (store : Store) : Shared κ :=
  { site := site, snapshot := none, refreshing := false, state := .initial, store := store
    accepted := [], noted := [], writer := .empty, exit := none }

def onState (s : Shared κ) (f : BuildState → BuildState) : Unit × Shared κ :=
  ((), { s with state := f s.state })

/-- The answer to an action and what is shared afterwards, unless the action has to wait. -/
def perform (client : Client κ) : (a : Action) → Shared κ → Option (a.Answer × Shared κ)
  | .probe p, s =>
    let (a, site) := client.probe p s.site
    some (a, { s with site := site })
  | .beginRefresh, s => if s.refreshing then none else some ((), { s with refreshing := true })
  | .finishRefresh, s => some ((), { s with refreshing := false })
  | .cachedSnapshot, s => some (s.snapshot, s)
  | .replaceSnapshot new, s => some (s.snapshot, { s with snapshot := some new })
  | .invalidate, s => some ((), { s with snapshot := none })
  | .enterUpdate, s => some (s.onState .enterUpdate)
  | .leaveUpdate, s => some (s.onState .leaveUpdate)
  | .awaitIdle, s => if s.state.isIdle then some ((), s) else none
  | .register r, s => some (s.onState (·.register r))
  | .hasDocuments, s => some (s.state.hasDocuments, s)
  | .documents, s => some (s.state.documents, s)
  | .record c, s => some (s.onState (·.record c))
  | .drain, s => some (s.state.pending, { s with state := s.state.drained })
  | .requestRefresh reason, s =>
    match s.state.acceptRefresh? with
    | some state => some ((), { s with state := state, accepted := s.accepted ++ [reason] })
    | none => some ((), s)
  | .landRefresh, s => some (s.onState .land)
  | .note reason, s => some ((), { s with noted := s.noted ++ [reason] })
  | .markShutdown, s => some (s.onState .markShutdown)
  | .exit, s => some ((), { s with exit := s.exit.or (some s.state.exitCode) })
  | .fetch path scope, s => some (s.store.fetch path scope, s)
  | .store arguments scope, s =>
    match s.store.update arguments scope with
    | .ok store => some (.ok (), { s with store := store })
    | .error e => some (.error e, s)
  | .send m, s =>
    let (r, writer) := s.writer.send m
    some (r, { s with writer := writer })

def run {α : Type} (client : Client κ) (p : Program α) (s : Shared κ) : Option (α × Shared κ) :=
  p.runIfAnswered (perform client) s

end Shared

end BuildServer
