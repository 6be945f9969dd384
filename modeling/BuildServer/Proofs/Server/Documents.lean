import BuildServer.Proofs.Graph.Lookup
import BuildServer.Proofs.Path.FileUri
import BuildServer.Proofs.Protocol.Results
import BuildServer.Proofs.Server.Alone
import BuildServer.Server.Handlers

namespace BuildServer

namespace Service

variable {κ : Type} {client : Client κ} {service : Service} {s s' : Shared κ} {snapshot : Snapshot}
  {document path : String}

theorem run_files : s.run client Program.files = some (client.view s.site, s) :=
  rfl

theorem run_replyFrom {f : Snapshot → Program Json} {json : Json} (cached : s.snapshot = some snapshot)
    (h : s.run client (f snapshot) = some (json, s')) :
    s.run client (service.replyFrom f) = some (.ok json, s') := by
  apply Shared.run_bind.mpr
  refine ⟨.ok snapshot, s, run_snapshot_of_cached cached, ?_⟩
  exact Shared.run_bind.mpr ⟨json, s', h, Shared.run_pure.mpr ⟨rfl, rfl⟩⟩

theorem run_sources (cached : s.snapshot = some snapshot) (targets : List String) :
    s.run client (service.sources targets) =
      some (.ok (Results.sources (targets.map (sourcesOf snapshot))), s) :=
  run_replyFrom cached (Shared.run_pure.mpr ⟨rfl, rfl⟩)

theorem run_inverseSources (cached : s.snapshot = some snapshot)
    (h : documentPath? document = some path) : s.run client (service.inverseSources document) =
      some (.ok (Results.inverseSources (snapshot.targetsFor (client.view s.site).resolve path)), s) := by
  rw [inverseSources, h]
  apply run_replyFrom cached
  exact Shared.run_bind.mpr ⟨client.view s.site, s, run_files, Shared.run_pure.mpr ⟨rfl, rfl⟩⟩

theorem run_options {q : Params.OptionsQuery} {o : CompilerOptions} (cached : s.snapshot = some snapshot)
    (h : documentPath? q.document = some path)
    (found : snapshot.optionsFor (client.view s.site).resolve path (some q.target) = some o)
    (complete : Arguments.hasMissingModuleMap (client.view s.site).present o.options = false) :
    s.run client (service.options q) = some (o, s) := by
  rw [options, h]
  apply Shared.run_bind.mpr
  refine ⟨.ok snapshot, s, run_snapshot_of_cached cached, ?_⟩
  apply Shared.run_bind.mpr
  refine ⟨client.view s.site, s, run_files, ?_⟩
  dsimp only [Except.toOption, Option.getD_some]
  rw [found]
  dsimp only
  rw [complete]
  exact Shared.run_pure.mpr ⟨rfl, rfl⟩

theorem run_handle_options {m : Incoming} {q : Params.OptionsQuery} {o : CompilerOptions}
    (asked : m.params Params.optionsQuery = .ok q) (h : s.run client (service.options q) = some (o, s')) :
    s.run client (service.handle m .options) = some (.ok (Results.options o), s') := by
  rw [handle, withParams, asked]
  exact Shared.run_bind.mpr ⟨o, s', h, Shared.run_pure.mpr ⟨rfl, rfl⟩⟩

/-- The document is among the sources of the target, the target among those of the document, and with its
module maps in place the document is compiled with the options. -/
structure Serves (service : Service) (client : Client κ) (s : Shared κ) (t document : String)
    (o : CompilerOptions) : Prop where
  sources : ∀ targets, t ∈ targets → ∃ reply items,
    s.run client (service.sources targets) = some (.ok reply, s) ∧
      Results.Says Results.sources reply items ∧
      ∃ item ∈ items, item.target = t ∧ ⟨document, .file, false⟩ ∈ item.sources
  inverse : ∃ reply targets,
    s.run client (service.inverseSources document) = some (.ok reply, s) ∧
      Results.Says Results.inverseSources reply targets ∧ t ∈ targets
  options : ∀ language, Arguments.hasMissingModuleMap (client.view s.site).present o.options = false →
    s.run client (service.options ⟨language, document, t⟩) = some (o, s)
  answer : ∀ m language, m.params Params.optionsQuery = .ok ⟨language, document, t⟩ →
    Arguments.hasMissingModuleMap (client.view s.site).present o.options = false →
    ∃ reply, s.run client (service.handle m .options) = some (.ok reply, s) ∧
      Results.Says Results.options reply o

end Service

theorem mem_sourcesOf {s : Snapshot} {t file uri : String} (hfile : file ∈ s.filesOf t)
    (huri : FileUri.ofPath? file = some uri) : ⟨uri, .file, false⟩ ∈ (sourcesOf s t).sources :=
  List.mem_map.mpr ⟨uri, List.mem_filterMap.mpr ⟨file, hfile, huri⟩, rfl⟩

/-- The first name in a path is a letter with a bar, which some readers of URIs take for a drive. -/
def Path.isBarred (path : String) : Bool :=
  match parts path with
  | .root :: .name s :: _ =>
    match s.toList with
    | [a, '|'] => a.isAlpha
    | _ => false
  | _ => false

/-- The document of a file in a target of a refreshed snapshot leads back to the file, and wherever the
snapshot is cached the server answers with the target and with the options of the file in it. -/
theorem listed_document_served {κ : Type} {client : Client κ} {service : Service} {cached : Bool}
    {s s' : Shared κ} {r : Refresh} {t file uri : String}
    (refreshed : s.run client (service.refresh cached) = some (.ok r, s'))
    (listed : file ∈ r.snapshot.filesOf t) (_unbarred : Path.isBarred file = false)
    (document : FileUri.ofPath? file = some uri) :
    documentPath? uri = some file ∧ (∀ resolve, t ∈ r.snapshot.targetsFor resolve file) ∧
      ∃ o, r.snapshot.optionsIn t file = some o ∧
        (∀ resolve, r.snapshot.optionsFor resolve file (some t) = some o) ∧
        ∀ (κ' : Type) (client' : Client κ') (now : Shared κ'), now.snapshot = some r.snapshot →
          service.Serves client' now t uri o := by
  have hs : r.snapshot.Consistent := Service.consistent_of_refresh refreshed
  have hcontains : r.snapshot.Contains t file := Snapshot.contains_of_filesOf listed
  have hpath : documentPath? uri = some file :=
    FileUri.normalize_path?_ofPath? (hs.normal_of_contains hcontains) document
  obtain ⟨o, ho⟩ := hs.contains_iff.mp hcontains
  refine ⟨hpath, hs.mem_targetsFor hcontains, o, ho, hs.optionsFor_of_optionsIn ho, ?_⟩
  intro κ' client' now hcached
  have options (language : Option String)
      (complete : Arguments.hasMissingModuleMap (client'.view now.site).present o.options = false) :
      now.run client' (service.options ⟨language, uri, t⟩) = some (o, now) :=
    Service.run_options hcached hpath (hs.optionsFor_of_optionsIn ho _) complete
  constructor
  case sources =>
    intro targets ht
    refine ⟨_, _, Service.run_sources hcached targets, Results.says_encoded Results.sources_injective _,
      sourcesOf r.snapshot t, ?_, rfl, ?_⟩
    · exact List.mem_map_of_mem ht
    · exact mem_sourcesOf listed document
  case inverse =>
    exact ⟨_, _, Service.run_inverseSources hcached hpath,
      Results.says_encoded Results.inverseSources_injective _, hs.mem_targetsFor hcontains _⟩
  case options => exact options
  case answer =>
    intro m language asked complete
    exact ⟨_, Service.run_handle_options asked (options language complete),
      Results.says_encoded Results.options_injective o⟩

def escapesClient : Client Unit where
  answer c k :=
    match c with
    | .list _ => (.ok ⟨some ⟨"App", ["App"], []⟩, none⟩, k)
    | .index _ _ =>
      let files : Table FileSettings := .ofList [("/p/ä 50%.swift", ⟨some ["-c"], none, none⟩)]
      (.ok (.ofList [("App", files)]), k)
    | .settings _ _ => (.ok [], k)
    | .warmup _ => (.ok (), k)
  view _ := ⟨fun _ => false, id⟩

theorem escaped_document_served : ∃ r s' t uri o,
    Shared.run escapesClient (appService.refresh true) (.initial () (.memory .empty)) =
      some (.ok r, s') ∧
    FileUri.ofPath? "/p/ä 50%.swift" = some uri ∧ documentPath? uri = some "/p/ä 50%.swift" ∧
    appService.Serves escapesClient s' t uri o := by
  have hrun : ∃ x ∈ appService.refreshed? escapesClient true (.initial () (.memory .empty)),
      "/p/ä 50%.swift" ∈ x.1.snapshot.filesOf (TargetUri.forScheme "App" "App").render := by
    decide +kernel
  have huri : FileUri.ofPath? "/p/ä 50%.swift" = some "file:///p/%C3%A4%2050%25.swift" := by
    decide +kernel
  obtain ⟨⟨r, s'⟩, hrun, hfile⟩ := hrun
  have refreshed := Service.run_of_refreshed? hrun
  obtain ⟨hpath, -, o, -, -, hserves⟩ := listed_document_served refreshed hfile (by decide +kernel) huri
  exact ⟨r, s', _, _, o, refreshed, huri, hpath,
    hserves Unit escapesClient s' (Service.snapshot_of_refresh refreshed)⟩

end BuildServer
