import BuildServer.Message.Incoming
import BuildServer.Server.Failure
import BuildServer.Server.Method
import BuildServer.Server.Prepare
import BuildServer.Text.Digest
import BuildServer.Watch.Filter

namespace BuildServer

def documentPath? (uri : String) : Option String :=
  (FileUri.path? uri).map Path.normalize

def sourceRoots (files : List String) : List String :=
  (Names.sorted (files.filterMap Path.parent?)).filterMap FileUri.ofDirectory?

def sourcesOf (s : Snapshot) (target : String) : Results.Sources :=
  let files := s.filesOf target
  ⟨target, (files.filterMap FileUri.ofPath?).map fun uri => ⟨uri, .file, false⟩, sourceRoots files⟩

def indexDatabasePath (cacheDir store : String) : String :=
  Path.join cacheDir ("indexDatabase-" ++ sha256Hex (Utf8.encode store))

namespace Service

open Program

abbrev Reply := Except RequestError Json

def start (s : Service) : Program Reply := do
  match ← s.snapshot with
  | .error e => pure (.error (.ofBuild e))
  | .ok snapshot =>
    let session : Results.Session :=
      { indexDatabase := snapshot.indexStore.map (indexDatabasePath s.cacheDir)
        indexStore := snapshot.indexStore
        watches := Watch.globs
        prepare := true
        options := true
        wait := true }
    pure (.ok session.toJson)

def replyFrom (s : Service) (f : Snapshot → Program Json) : Program Reply := do
  match ← s.snapshot with
  | .error e => pure (.error (.ofBuild e))
  | .ok snapshot => pure (.ok (← f snapshot))

def buildTargets (s : Service) : Program Reply :=
  s.replyFrom fun snapshot => pure (Results.targets snapshot.targets)

def sources (s : Service) (targets : List String) : Program Reply :=
  s.replyFrom fun snapshot => pure (Results.sources (targets.map (sourcesOf snapshot)))

def inverseSources (s : Service) (document : String) : Program Reply :=
  match documentPath? document with
  | none => pure (.ok (Results.inverseSources []))
  | some path =>
    s.replyFrom fun snapshot => do
      pure (Results.inverseSources (snapshot.targetsFor (← files).resolve path))

def storedArguments (target path : String) : Program (Option (List String)) :=
  match TargetUri.parse? target with
  | none => pure none
  | some t => do pure (← act (.fetch path t.cacheScope)).toOption

def noOptions : CompilerOptions := ⟨[], none⟩

/-- The options of a document. Those that lack a module map are not given out, and those that the
snapshot lacks come from the store; in both cases a refresh is asked for. -/
def options (s : Service) (q : Params.OptionsQuery) : Program CompilerOptions :=
  match documentPath? q.document with
  | none => pure noOptions
  | some path => do
    let snapshot := (← s.snapshot).toOption.getD .empty
    let files ← files
    match snapshot.optionsFor files.resolve path (some q.target) with
    | some found =>
      if Arguments.hasMissingModuleMap files.present found.options then
        s.trigger ("sourceKitOptions-stale-paths:" ++ q.target)
        pure noOptions
      else pure found
    | none =>
      let stored ← storedArguments q.target path
      s.trigger ("sourceKitOptions-miss:" ++ q.target)
      pure ((stored.map CompilerOptions.ofArguments).getD noOptions)

def withParams {α : Type} (m : Incoming) (r : Json.Reader α) (f : α → Program Reply) :
    Program Reply :=
  match m.params r with
  | .error e => pure (.error (.invalidParams e))
  | .ok a => f a

def done (p : Program Unit) : Program Reply := do
  p
  pure (.ok .null)

def handle (s : Service) (m : Incoming) : Request → Program Reply
  | .start => s.start
  | .shutdown => done (act .markShutdown)
  | .buildTargets => s.buildTargets
  | .sources => withParams m Params.targets s.sources
  | .inverseSources => withParams m Params.inverseSources s.inverseSources
  | .prepare => withParams m Params.targets fun targets => do
    match ← s.prepare targets with
    | .error e => pure (.error (.ofBuild e))
    | .ok () => pure (.ok .null)
  | .registerForChanges => withParams m (Json.optional Params.registration) fun r =>
    done (act (.register (r.getD ⟨none, none⟩)))
  | .options => withParams m Params.optionsQuery fun q => do
    pure (.ok (Results.options (← s.options q)))
  | .wait => done (act .awaitIdle)

def respond (s : Service) (method : Option Request) (m : Incoming) : Program Unit :=
  match m.id, method with
  | some id, some r => do
    match ← s.handle m r with
    | .ok value => discard (send (.result id value))
    | .error e => discard (send (.error id e.response))
  | some id, none => discard (send (.error id (.methodNotFound m.method)))
  | none, _ => pure ()

def filesChanged (s : Service) (uris : List String) : Program Unit :=
  if Watch.hasRelevant uris then do
    act .invalidate
    s.trigger "didChangeWatchedFiles"
  else pure ()

def notice (s : Service) (m : Incoming) : Notice → Program Unit
  | .initialized => pure ()
  | .exit => act .exit
  | .filesChanged =>
    match m.params (Json.optional Params.fileEvents) with
    | .error _ => pure ()
    | .ok events => s.filesChanged ((events.getD []).map Params.FileEvent.uri)

end Service

end BuildServer
