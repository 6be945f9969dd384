import BuildServer.Server.Refresh

namespace BuildServer

structure NamedTarget where
  uri : String
  target : TargetUri
  deriving DecidableEq

namespace NamedTarget

def parse? (uri : String) : Option NamedTarget :=
  (TargetUri.parse? uri).map fun target => ⟨uri, target⟩

def optionsIn (t : NamedTarget) (project : String) (s : Snapshot) :
    Option (Table CompilerOptions) :=
  (s.options.get? t.uri).or (s.options.get? (t.target.withProject project).render)

end NamedTarget

namespace Service

open Program

def lacksModuleMap (present : String → Bool) (options : Table CompilerOptions) : Bool :=
  options.values.any fun o => Arguments.hasMissingModuleMap present o.options

def schemesToBuild (project : String) (s : Snapshot) (present : String → Bool)
    (targets : List NamedTarget) : List String :=
  Names.sorted ((targets.filter fun t =>
    ((t.optionsIn project s).map (lacksModuleMap present)).getD false).map fun t => t.target.scheme)

def buildSchemes : List String → Program Unit
  | [] => pure ()
  | scheme :: rest => do
    discard (call (.warmup scheme))
    buildSchemes rest

def storeArguments (project : String) (s : Snapshot) : List NamedTarget → Program Unit
  | [] => pure ()
  | t :: rest => do
    match (t.optionsIn project s).filter (!·.isEmpty) with
    | some options =>
      discard (act (.store (options.map fun _ o => o.options) t.target.cacheScope))
    | none => pure ()
    storeArguments project s rest

def builtSnapshot (s : Service) (targets : List NamedTarget) :
    Program (Except BuildError Snapshot) := do
  match ← s.recordedRefresh true with
  | .error e => pure (.error e)
  | .ok first =>
    let schemes := schemesToBuild s.project first (← files).present targets
    if schemes.isEmpty then pure (.ok first)
    else
      buildSchemes schemes
      s.recordedRefresh false

def prepareTargets (s : Service) (uris : List String) : Program (Except BuildError Unit) := do
  let targets := uris.filterMap NamedTarget.parse?
  match ← s.builtSnapshot targets with
  | .error e => pure (.error e)
  | .ok last =>
    storeArguments s.project last targets
    pure (.ok ())

def prepare (s : Service) (uris : List String) : Program (Except BuildError Unit) := do
  act .enterUpdate
  let result ← s.prepareTargets uris
  act .leaveUpdate
  discard s.announce
  pure result

end Service

end BuildServer
