import BuildServer.Graph.Changes
import BuildServer.Protocol.Params
import BuildServer.Text.Blank

namespace BuildServer

structure BuildState where
  registered : Names
  anonymous : Nat
  depth : Nat
  inFlight : Bool
  targets : Names
  options : Table CompilerOptions
  shutdown : Bool
  deriving DecidableEq

namespace BuildState

def initial : BuildState := ⟨.empty, 0, 0, false, .empty, .empty, false⟩

def enterUpdate (s : BuildState) : BuildState :=
  { s with depth := s.depth + 1 }

def leaveUpdate (s : BuildState) : BuildState :=
  { s with depth := s.depth - 1 }

def isIdle (s : BuildState) : Bool :=
  s.depth == 0

/-- Counts a background refresh as an update from now on, unless one is in flight already. -/
def acceptRefresh? (s : BuildState) : Option BuildState :=
  if s.inFlight then none else some { s.enterUpdate with inFlight := true }

/-- From now on another background refresh may be accepted. The update of this one goes on. -/
def land (s : BuildState) : BuildState :=
  { s with inFlight := false }

def isUnregister (action : Option String) : Bool :=
  match action with
  | some a => sameAscii a "unregister"
  | none => false

def register (s : BuildState) (r : Params.Registration) : BuildState :=
  match isUnregister r.action, r.uri with
  | true, some uri => { s with registered := s.registered.erase uri }
  | true, none => { s with anonymous := s.anonymous - 1 }
  | false, some uri => { s with registered := s.registered.add uri }
  | false, none => { s with anonymous := s.anonymous + 1 }

def documents (s : BuildState) : List String :=
  s.registered.keys

def hasDocuments (s : BuildState) : Bool :=
  !s.registered.isEmpty || 0 < s.anonymous

def record (s : BuildState) (c : Changes) : BuildState :=
  { s with
    targets := c.targets.foldl .add s.targets
    options := s.options.union c.options }

def pending (s : BuildState) : Changes :=
  ⟨s.targets.keys, s.options⟩

def drained (s : BuildState) : BuildState :=
  { s with targets := .empty, options := .empty }

def markShutdown (s : BuildState) : BuildState :=
  { s with shutdown := true }

def exitCode (s : BuildState) : Nat :=
  if s.shutdown then 0 else 1

end BuildState

end BuildServer
