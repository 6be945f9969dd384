import BuildServer.Build.Call
import BuildServer.Graph.Assembly

/-!
Building a snapshot by asking the build tool. Cached answers are used where they are of use, and
where they are not the tool is asked anew.
-/

namespace BuildServer

abbrev Attempt := ExceptT BuildError Inquiry

namespace Attempt

/-- Asks for a cached answer first if that is allowed, and uses it if it is of use. -/
def preferCached {α : Type} (useful : α → Bool) (ask : Bool → Inquiry (Except BuildError α))
    (cached : Bool) : Attempt α :=
  if cached then do
    match ← ExceptT.lift (ask true) with
    | .ok a => if useful a then pure a else ExceptT.mk (ask false)
    | .error _ => ExceptT.mk (ask false)
  else ExceptT.mk (ask false)

def schemes (active : List String) (cached : Bool) : Attempt (List String) :=
  if active.isEmpty then do
    pure (← preferCached (!·.schemes.isEmpty) Inquiry.list cached).schemes
  else pure active

def members (project : String) (cached : Bool) (scheme : String) : Attempt (List Member) := do
  let settings ← preferCached (!·.isEmpty) (Inquiry.index scheme) cached
  let files ← ExceptT.lift Inquiry.files
  pure (Member.ofScheme project scheme settings files.present)

def storeBeside (settings : List SchemeSettings) : Option String := do
  let build ← settings.find? (·.action == "build")
  let outer ← (Path.parent? build.buildRoot).bind Path.parent?
  pure (Path.normalize (Path.join (Path.join outer "Index.noindex") "DataStore"))

def fallbackStore (cached : Bool) : List String → Inquiry (Option String)
  | [] => pure none
  | scheme :: rest => do
    match ← Inquiry.settings scheme cached with
    | .ok settings =>
      match storeBeside settings with
      | some store => pure (some store)
      | none => fallbackStore cached rest
    | .error _ => fallbackStore cached rest

def snapshot (project : String) (active : List String) (cached : Bool) : Attempt Snapshot := do
  let schemes ← schemes active cached
  let members := (← schemes.mapM (members project cached)).flatten
  let store ← match Vote.mostFrequent (members.flatMap Member.indexStores) with
    | some store => pure (some store)
    | none => ExceptT.lift (fallbackStore cached schemes)
  pure (.ofMembers members store)

end Attempt

end BuildServer
