import BuildServer.Proofs.Server.Documents
import BuildServer.Proofs.Server.Preparation
import BuildServer.Proofs.Server.StoreRuns

namespace BuildServer

def Action.isFetch : Action → Bool
  | .fetch _ _ => true
  | _ => false

namespace Service

open Dialogue (Asks Leads)

variable {service : Service} {m : Incoming} {actions : List Action} {path scope : String}

def Fetchless {α : Type} (p : Program α) : Prop := p.Asks (·.isFetch = false)

theorem fetchless_snapshot (s : Service) : Fetchless s.snapshot :=
  have refresh := asks_refresh (P := (·.isFetch = false)) (fun _ => rfl) rfl rfl (fun _ => rfl) s true
  asks_snapshot rfl refresh

theorem Fetchless.elim {α : Type} {p : Program α} {go : (Action.fetch path scope).Answer → Program α}
    (h : Fetchless p) (leads : p.Leads actions (.ask (.fetch path scope) go)) : False := by
  cases (h.leads leads).2.1

def missed (stored : Except StoreError (List String)) : CompilerOptions :=
  (stored.toOption.map CompilerOptions.ofArguments).getD noOptions

section

variable (asks : service.AsksForRefresh)

include asks

theorem options_leads_fetch {q : Params.OptionsQuery}
    {go : (Action.fetch path scope).Answer → Program CompilerOptions}
    (h : (service.options q).Leads actions (.ask (.fetch path scope) go)) :
    ∃ reason, go = fun stored => .ask (.requestRefresh reason) fun _ => .done (missed stored) := by
  unfold options at h
  split at h
  · cases h
  · rename_i file _
    rcases h.of_bind_ask with ⟨_, h, -⟩ | ⟨_, looking, built, -, -, h⟩
    · exact ((fetchless_snapshot service).elim h).elim
    · cases h with
      | ask files h =>
        dsimp only [Dialogue.done_bind] at h
        split at h
        · rename_i found _
          split at h
          · rw [asks] at h
            cases h with
            | ask _ h => cases h
          · cases h
        · rw [asks] at h
          unfold storedArguments at h
          split at h
          · cases h with
            | ask _ h => cases h
          · cases h with
            | stay => exact ⟨_, rfl⟩
            | ask _ h =>
              cases h with
              | ask _ h => cases h

theorem respond_leads_fetch {q : Params.OptionsQuery} {go : (Action.fetch path scope).Answer → Program Unit}
    (params : m.params Params.optionsQuery = .ok q)
    (h : (service.respond (some .options) m).Leads actions (.ask (.fetch path scope) go)) :
    ∃ id reason, m.id = some id ∧ (∀ out, .send out ∉ actions) ∧
      go = fun stored => .ask (.requestRefresh reason) fun _ =>
        .ask (.send (.result id (Results.options (missed stored)))) fun _ => .done () := by
  cases hid : m.id with
  | none =>
    rw [respond_anonymous hid] at h
    cases h
  | some id =>
    rw [respond_request hid] at h
    rcases h.of_bind_ask with ⟨next, handling, rfl⟩ | ⟨_, _, reply, -, -, h⟩
    · have silent (out : Outgoing) : .send out ∉ actions := by
        intro hmem
        cases ((plain_handle asks m (by rintro ⟨⟩)).leads handling).1 _ hmem
      rw [handle, withParams, params] at handling
      rcases handling.of_bind_ask with ⟨next', looking, rfl⟩ | ⟨_, _, o, -, -, h⟩
      · obtain ⟨reason, rfl⟩ := options_leads_fetch asks looking
        exact ⟨id, reason, rfl, silent, rfl⟩
      · cases h
    · cases h with
      | ask _ h => cases h

end

section

variable {κ : Type} {client : Client κ} {s s' : Shared κ} {q : Params.OptionsQuery}

theorem store_of_snapshot {built : Except BuildError Snapshot}
    (h : s.run client service.snapshot = some (built, s')) : s'.store = s.store := by
  rcases snapshot_cases h with ⟨_, -, -, rfl⟩ | ⟨-, r, hrefresh, -⟩
  · rfl
  · rcases refresh_cases hrefresh with ⟨e, k, -, -, rfl⟩ | ⟨new, k, -, -, rfl⟩ <;> rfl

def Misses (service : Service) (client : Client κ) (s : Shared κ) (t file : String) : Prop :=
  ∃ built s', s.run client service.snapshot = some (built, s') ∧
    (built.toOption.getD .empty).optionsFor (client.view s'.site).resolve file (some t) = none

theorem run_options_of_misses (asks : service.AsksForRefresh) {target : TargetUri} {as : List String}
    (document : documentPath? q.document = some path) (misses : service.Misses client s q.target path)
    (known : TargetUri.parse? q.target = some target)
    (stored : s.store.fetch path target.cacheScope = .ok as) :
    ∃ s', s.run client (service.options q) = some (.ofArguments as, s') := by
  obtain ⟨built, s₁, looked, missing⟩ := misses
  have fetched : s₁.run client (storedArguments q.target path) = some (some as, s₁) := by
    rw [storedArguments, known]
    refine Shared.run_bind.mpr ⟨.ok as, s₁, ?_, Shared.run_pure.mpr ⟨rfl, rfl⟩⟩
    rw [Shared.run_act, Shared.perform, store_of_snapshot looked, stored]
  obtain ⟨s₂, triggered⟩ : ∃ s₂, s₁.run client
      (service.trigger ("sourceKitOptions-miss:" ++ q.target)) = some ((), s₂) := by
    rw [asks, Shared.run_act, Shared.perform]
    split
    · exact ⟨_, rfl⟩
    · exact ⟨_, rfl⟩
  refine ⟨s₂, ?_⟩
  rw [options, document]
  refine Shared.run_bind.mpr ⟨built, s₁, looked, ?_⟩
  refine Shared.run_bind.mpr ⟨client.view s₁.site, s₁, run_files, ?_⟩
  rw [missing]
  refine Shared.run_bind.mpr ⟨some as, s₁, fetched, ?_⟩
  exact Shared.run_bind.mpr ⟨(), s₂, triggered, Shared.run_pure.mpr ⟨rfl, rfl⟩⟩

end

end Service

namespace Server

open Service (lastPut)

variable {κ : Type} {client : Client κ} {service : Service} {site : κ} {store : Store}
  {es after : List Event} {s : Server κ} {t file scope : String} {o : CompilerOptions}

structure AsksFor (m : Incoming) (t file : String) : Prop where
  method : m.request? = some .options
  params : ∃ q, m.params Params.optionsQuery = .ok q ∧ q.target = t ∧ documentPath? q.document = some file

/-- Whoever asks for the options of a file in a target gets these: alone with the snapshot in the cache, alone
with a snapshot that lacks them, and among others in a task that looks into the store behind some point. -/
structure AnsweredWith (client : Client κ) (service : Service) (snapshot : Snapshot) (es after : List Event)
    (s : Server κ) (t file scope : String) (o : CompilerOptions) : Prop where
  hit : ∀ (now : Shared κ) m, AsksFor m t file → now.snapshot = some snapshot →
    Arguments.hasMissingModuleMap (client.view now.site).present o.options = false →
    now.run client (service.handle m .options) = some (.ok (Results.options o), now)
  miss : ∀ (now : Shared κ) m, AsksFor m t file → now.store = s.shared.store →
    service.Misses client now t file →
    ∃ later, now.run client (service.handle m .options) = some (.ok (Results.options o), later)
  missing : ∀ j m, AsksFor m t file → WorksOn es j m → .did (.task j) (.fetch file scope) ∈ after →
    ∃ id, m.id = some id ∧
      (∀ out, .did (.task j) (.send out) ∈ es → out = .result id (Results.options o)) ∧
      (s.thread? (.task j) = some (.task .request, .done ()) →
        .did (.task j) (.send (.result id (Results.options o))) ∈ es)

theorem answers_fetched (asks : service.AsksForRefresh) {x y : List Event} {j : Nat} {m : Incoming}
    (asksFor : AsksFor m t file)
    (run : Run client service (.initial site store) (x ++ .did (.task j) (.fetch file scope) :: y) s)
    (works : WorksOn (x ++ .did (.task j) (.fetch file scope) :: y) j m)
    (derived : o = .ofArguments o.options)
    (held : ∀ u, Run client service (.initial site store) x u →
      u.shared.store.fetch file scope = .ok o.options) :
    ∃ id, m.id = some id ∧
      (∀ out, .did (.task j) (.send out) ∈ x ++ .did (.task j) (.fetch file scope) :: y →
        out = .result id (Results.options o)) ∧
      (s.thread? (.task j) = some (.task .request, .done ()) →
        .did (.task j) (.send (.result id (Results.options o))) ∈
          x ++ .did (.task j) (.fetch file scope) :: y) := by
  obtain ⟨u, v, hu, step, -, hv⟩ := run.at
  cases step with
  | act _ role _ go answer here answered threads =>
    obtain ⟨p, hp, rfl, leads⟩ := (origins hu).purpose here
    obtain rfl : p = some m := by
      have kept : (purposes (x ++ .did (.task j) (.fetch file scope) :: y))[j]? = some p := by
        rw [purposes_append, List.getElem?_append_left (List.getElem?_eq_some_iff.1 hp).1, hp]
      rw [WorksOn, kept] at works
      exact Option.some.inj works
    obtain ⟨q, params, -, -⟩ := asksFor.params
    rw [Purpose.program, asksFor.method] at leads
    obtain ⟨id, reason, named, silent, rfl⟩ := Service.respond_leads_fetch asks params leads
    rw [Shared.perform_fetch answered, held u hu] at threads
    -- What is left of the task asks for a refresh and answers with the arguments that it got.
    have there : v.thread? (.task j) = some (.task .request, .ask (.requestRefresh reason) fun _ =>
        .ask (.send (.result id (Results.options o))) fun _ => .done ()) := by
      rw [threads, Function.update_self]
      conv_rhs => rw [derived]
      rfl
    obtain ⟨d, hd, rest⟩ := hv.leads there
    obtain ⟨sends, ends⟩ := rest.of_two
    refine ⟨id, named, fun out hout => ?_, fun done => ?_⟩
    · rw [← mem_actionsOf, actionsOf_append, List.mem_append] at hout
      rcases hout with before | behind
      · exact absurd before (silent out)
      · have hmem : Action.send out ∈ actionsOf (.task j) y := by
          rw [mem_actionsOf] at behind ⊢
          simpa using behind
        rcases sends _ hmem with h | h
        · cases h
        · exact Action.send.inj h
    · rw [hd] at done
      obtain ⟨-, hdone⟩ := Prod.mk.inj (Option.some.inj done)
      rw [List.mem_append, List.mem_cons]
      refine .inr (.inr (mem_actionsOf.1 ?_))
      rw [ends () hdone]
      simp

/-- The options of a file in a prepared target are answered from the store as from the last snapshot of the
preparation, as long as nothing else is stored in the scope of the target. -/
theorem stored_options_agree (asks : service.AsksForRefresh)
    (run : Run client service (.initial site store) es s) {Known : List String → Prop} {held : MemoryStore}
    (mirrors : store.Mirrors Known held) (known : StoresKnown Known es) {i : Nat} {m : Incoming}
    {uris : List String} {id : RequestId} {value : Json} (works : WorksOn es i m)
    (prepares : m.request? = some .prepare) (params : m.params Params.targets = .ok uris)
    (succeeds : .did (.task i) (.send (.result id value)) ∈ es) :
    ∃ snapshot, lastPut (actionsOf (.task i) es) = some snapshot ∧
      ∀ t ∈ uris, ∀ target options, TargetUri.parse? t = some target →
        snapshot.options.get? t = some options → options.isEmpty = false →
        let arguments := options.map fun _ o => o.options
        .did (.task i) (.store arguments target.cacheScope) ∈ es ∧
        ∀ before after, es = before ++ .did (.task i) (.store arguments target.cacheScope) :: after →
          (∀ who other, .did who (.store other target.cacheScope) ∈ after → other = arguments) →
          ∀ file o, options.get? file = some o →
            AnsweredWith client service snapshot es after s t file target.cacheScope o := by
  obtain ⟨d, -, leads⟩ := (origins run).course i _ works
  rw [Purpose.program, prepares] at leads
  obtain ⟨snapshot, prepared⟩ :=
    Service.prepared_of_answered asks params leads (mem_actionsOf.2 succeeds)
  refine ⟨snapshot, prepared.last, fun t ht target options parsed found some_file => ?_⟩
  have named : NamedTarget.parse? t = some ⟨t, target⟩ := by rw [NamedTarget.parse?, parsed]; rfl
  have storing : Service.storing? service.project snapshot ⟨t, target⟩ =
      some (.store (options.map fun _ o => o.options) target.cacheScope) := by
    rw [Service.storing?, NamedTarget.optionsIn, found, Option.some_or, Option.filter_some, some_file]
    rfl
  refine ⟨mem_actionsOf.1 (prepared.stored ?_), ?_⟩
  · exact List.mem_filterMap.2 ⟨_, List.mem_filterMap.2 ⟨t, ht, named⟩, storing⟩
  · rintro before after rfl last file o ho
    have hs := prepared.consistent
    have derived : o = .ofArguments o.options :=
      hs.derived o (.inl ⟨t, options, found, Table.mem_values.2 ⟨file, ho⟩⟩)
    have ofFile : snapshot.optionsIn t file = some o := by rw [Snapshot.optionsIn, found]; exact ho
    have stored : (options.map fun _ o => o.options).get? file = some o.options := by
      rw [Table.get?_map, ho]
      rfl
    refine ⟨?hit, ?miss, ?missing⟩
    case hit =>
      rintro now w ⟨-, q, hq, rfl, document⟩ cached complete
      exact Service.run_handle_options hq
        (Service.run_options cached document (hs.optionsFor_of_optionsIn ofFile _) complete)
    case miss =>
      rintro now w ⟨-, q, hq, rfl, document⟩ same misses
      have fetched : now.store.fetch file target.cacheScope = .ok o.options := by
        rw [same]
        exact fetch_stored mirrors run known last stored
      obtain ⟨later, hrun⟩ := Service.run_options_of_misses asks document misses parsed fetched
      rw [← derived] at hrun
      exact ⟨later, Service.run_handle_options hq hrun⟩
    case missing =>
      intro j w asksFor worksOn fetches
      obtain ⟨y, z, rfl⟩ := List.append_of_mem fetches
      rw [← List.cons_append, ← List.append_assoc] at run known worksOn ⊢
      apply answers_fetched asks asksFor run worksOn derived
      intro u hu
      apply fetch_stored mirrors hu (known.mono (List.subset_append_left _ _)) _ stored
      exact fun who other hmem => last who other (List.mem_append_left _ hmem)

section

def fadingProject : Client Bool where
  answer c works :=
    match c with
    | .list _ =>
      if works then (.ok ⟨some ⟨"App", ["App"], []⟩, none⟩, false)
      else (.error (.failed "-list" "exit status: 1" ""), false)
    | .index _ _ =>
      let app : Table FileSettings := .ofList [("/p/A.swift", ⟨some ["-c"], none, none⟩)]
      (.ok (.ofList [("App", app)]), works)
    | .settings _ _ => (.ok [], works)
    | .warmup _ => (.ok (), works)
  view _ := ⟨fun _ => false, id⟩

def appUri : String := "xcode://App?scheme=App"

def prepareApp : Incoming :=
  { method := "buildTarget/prepare", id := some (.int 1)
    body := ["\x7b\"id\":1,\"method\":", "\"buildTarget/prepare\",", "\"params\":\x7b\"targets\":",
      "[\x7b\"uri\":", "\"xcode://App?scheme=App\"", "\x7d]\x7d\x7d"].flatMap Utf8.encode }

def optionsOfA : Incoming :=
  { method := "textDocument/sourceKitOptions", id := some (.int 2)
    body := ["\x7b\"id\":2,\"method\":", "\"textDocument/sourceKitOptions\",",
      "\"params\":\x7b\"textDocument\":", "\x7b\"uri\":\"file:///p/A.swift\"\x7d,", "\"target\":\x7b\"uri\":",
      "\"xcode://App?scheme=App\"", "\x7d\x7d\x7d"].flatMap Utf8.encode }

def appChange : Incoming :=
  { method := "workspace/didChangeWatchedFiles", id := none
    body := ["\x7b\"method\":", "\"workspace/didChangeWatchedFiles\",", "\"params\":\x7b\"changes\":",
      "[\x7b\"uri\":\"untitled:1\",", "\"type\":2\x7d]\x7d\x7d"].flatMap Utf8.encode }

def preparing : List Move :=
  [.receive (Frame.wrap prepareApp.body ++ Frame.wrap appChange.body ++ Frame.wrap optionsOfA.body),
    .handle] ++ List.replicate 15 (.step 0)

def appPrepared : List Event × Server Bool :=
  play fadingProject emptyService preparing (.initial true (.database .empty))

def appAsked : List Event × Server Bool :=
  play fadingProject emptyService ([.handle, .goOn, .goOn, .handle] ++ List.replicate 9 (.step 1))
    appPrepared.2

def fetched? : Event → Option (Actor × String × String)
  | .did who (.fetch path scope) => some (who, path, scope)
  | _ => none

def isResult : Action → Bool
  | .send (.result _ _) => true
  | _ => false

theorem run_appAsked : Run fadingProject emptyService (.initial true (.database .empty))
    (appPrepared.1 ++ appAsked.1) appAsked.2 := by
  have first : Run fadingProject emptyService _ appPrepared.1 appPrepared.2 := run_play _ _
  exact first.trans (run_play _ _)

theorem app_effects :
    appPrepared.1.filterMap stored? = [(.ofList [("/p/A.swift", ["-c"])], "App")] ∧
    appAsked.1.filterMap stored? = [] ∧
    appAsked.1.filterMap fetched? = [(.task 1, "/p/A.swift", "App")] ∧
    purposes (appPrepared.1 ++ appAsked.1) = [some prepareApp, some optionsOfA] ∧
    (actionsOf (.task 0) appPrepared.1).any isResult = true ∧
    (actionsOf (.task 1) appAsked.1).any isResult = true ∧
    ∃ snapshot ∈ lastPut (actionsOf (.task 0) (appPrepared.1 ++ appAsked.1)),
      ∃ options ∈ snapshot.options.get? appUri,
        options.isEmpty = false ∧ options.get? "/p/A.swift" = some ⟨["-c"], none⟩ := by
  decide +kernel

theorem asksFor_optionsOfA : AsksFor optionsOfA appUri "/p/A.swift" where
  method := by decide +kernel
  params := ⟨⟨none, "file:///p/A.swift", appUri⟩, by decide +kernel, rfl, by decide +kernel⟩

theorem mem_of_stored? {es : List Event} {arguments : ArgumentsByPath} {scope : String} {who : Actor}
    (h : .did who (.store arguments scope) ∈ es) : (arguments, scope) ∈ es.filterMap stored? :=
  List.mem_filterMap.2 ⟨_, h, rfl⟩

theorem exists_result {es : List Event} {who : Actor} (h : (actionsOf who es).any isResult = true) :
    ∃ id value, .did who (.send (.result id value)) ∈ es := by
  obtain ⟨a, ha, hresult⟩ := List.any_eq_true.1 h
  cases a with
  | send out =>
    cases out with
    | result id value => exact ⟨id, value, mem_actionsOf.1 ha⟩
    | _ => cases hresult
  | _ => cases hresult

theorem params_prepareApp : prepareApp.params Params.targets = .ok [appUri] := by decide +kernel

theorem parse_appUri : TargetUri.parse? appUri = some (.forScheme "App" "App") := by decide +kernel

theorem only_stored {who : Actor} {arguments : ArgumentsByPath} {scope : String}
    (h : .did who (.store arguments scope) ∈ appPrepared.1 ++ appAsked.1) :
    arguments = .ofList [("/p/A.swift", ["-c"])] ∧ .did who (.store arguments scope) ∈ appPrepared.1 := by
  obtain ⟨stored, unchanged, -⟩ := app_effects
  rcases List.mem_append.1 h with h | h
  · have hmem := mem_of_stored? h
    rw [stored, List.mem_singleton] at hmem
    exact ⟨congrArg Prod.fst hmem, h⟩
  · have hmem := mem_of_stored? h
    rw [unchanged] at hmem
    cases hmem

theorem fetched_by_second : .did (.task 1) (.fetch "/p/A.swift" "App") ∈ appAsked.1 := by
  obtain ⟨-, -, fetched, -⟩ := app_effects
  have found : (.task 1, "/p/A.swift", "App") ∈ appAsked.1.filterMap fetched? := by
    rw [fetched]
    exact List.mem_singleton_self _
  obtain ⟨e, he, hfetched⟩ := List.mem_filterMap.1 found
  cases e with
  | did who a =>
    cases a with
    | fetch path scope =>
      cases hfetched
      exact he
    | _ => cases hfetched
  | _ => cases hfetched

theorem forgotten_options_answered :
    .did (.task 1) (.send (.result (.int 2) (Results.options ⟨["-c"], none⟩))) ∈ appAsked.1 := by
  obtain ⟨-, -, -, started, prepared, answered, snapshot, put, options, found, filled, option⟩ :=
    app_effects
  obtain ⟨id, value, succeeds⟩ := exists_result prepared
  obtain ⟨id', value', answer⟩ := exists_result answered
  have known : StoresKnown (· = ["-c"]) (appPrepared.1 ++ appAsked.1) := by
    intro who arguments scope h as has
    rw [(only_stored h).1] at has
    exact List.mem_singleton.1 has
  have mirrors : (Store.database .empty).Mirrors (· = ["-c"]) .empty :=
    ⟨Database.refines_empty, fun as bs has hbs _ => by rw [has, hbs]⟩
  obtain ⟨last, hlast, agree⟩ := stored_options_agree (m := prepareApp) (i := 0) (fun _ => rfl) run_appAsked
    mirrors known (by rw [WorksOn, started]; rfl) (by decide +kernel) params_prepareApp
    (List.mem_append_left _ succeeds)
  obtain rfl : last = snapshot := Option.some.inj (hlast.symm.trans put)
  obtain ⟨hstore, agree⟩ := agree appUri List.mem_cons_self _ options parse_appUri found filled
  obtain ⟨before, after, hsplit⟩ := List.append_of_mem (only_stored hstore).2
  have whole : appPrepared.1 ++ appAsked.1 =
      before ++ .did (.task 0) (.store (options.map fun _ o => o.options) "App") :: (after ++ appAsked.1) := by
    rw [← List.cons_append, ← List.append_assoc]
    exact congrArg (· ++ appAsked.1) hsplit
  have others (who : Actor) (other : ArgumentsByPath)
      (h : .did who (.store other "App") ∈ after ++ appAsked.1) :
      other = options.map fun _ o => o.options := by
    have again : .did who (.store other "App") ∈ appPrepared.1 ++ appAsked.1 := by
      rw [whole]
      exact List.mem_append_right _ (List.mem_cons_of_mem _ h)
    rw [(only_stored hstore).1, (only_stored again).1]
  obtain ⟨id'', named, sent, -⟩ := (agree before _ whole others "/p/A.swift" _ option).missing 1 optionsOfA
    asksFor_optionsOfA (by rw [WorksOn, started]; rfl) (List.mem_append_right _ fetched_by_second)
  obtain rfl : .int 2 = id'' := Option.some.inj named
  rw [← sent _ (List.mem_append_right _ answer)]
  exact answer

end

end Server

end BuildServer
