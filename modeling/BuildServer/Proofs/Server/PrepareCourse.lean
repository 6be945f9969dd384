import BuildServer.Proofs.Graph.Questions
import BuildServer.Proofs.Server.Alone
import BuildServer.Proofs.Server.Preparation
import BuildServer.Proofs.Server.StoreRuns
import BuildServer.Proofs.Server.Uninterrupted

namespace BuildServer

def Action.isWork : Action → Bool
  | .probe (.call (.warmup _)) => true
  | .enterUpdate => true
  | .leaveUpdate => true
  | .record _ => true
  | .drain => true
  | .store _ _ => true
  | _ => false

def Action.stored? : Action → Option (ArgumentsByPath × String)
  | .store arguments scope => some (arguments, scope)
  | _ => none

namespace Shared

variable {κ α : Type} {client : Client κ} {p : Program α} {a : α} {s s' : Shared κ} {actions : List Action}

theorem Runs.mirrors {Known : List String → Prop} {m : MemoryStore} (h : Runs client p s actions a s')
    (mirrors : s.store.Mirrors Known m)
    (known : ∀ arguments scope, .store arguments scope ∈ actions → ∀ as ∈ arguments.values, Known as) :
    s'.store.Mirrors Known ((actions.filterMap Action.stored?).foldl (fun m u => m.update u.1 u.2) m) := by
  induction h generalizing m with
  | done => exact mirrors
  | @ask q f x s u s' actions a answered _ ih =>
    have hrest := fun arguments scope hmem => known arguments scope (List.mem_cons_of_mem q hmem)
    have after := perform_store answered
    cases q with
    | store arguments scope =>
      obtain ⟨store', updated, mirrors'⟩ := mirrors.update (known arguments scope List.mem_cons_self) scope
      dsimp only at after
      rw [updated] at after
      exact ih (after ▸ mirrors') hrest
    | _ => exact ih (after ▸ mirrors) hrest

end Shared

namespace Service

open Dialogue (Asks)
open Shared (Runs)

variable {κ : Type} {client : Client κ} {service : Service} {cached : Bool} {s s' : Shared κ}
  {actions : List Action} {project : String} {last : Snapshot} {targets : List NamedTarget}

def Idle {α : Type} (p : Program α) : Prop := p.Asks (·.isWork = false)

theorem Idle.filter {α : Type} {p : Program α} {a : α} (idle : Idle p) (h : Runs client p s actions a s') :
    actions.filter Action.isWork = [] := by
  rw [List.filter_eq_nil_iff]
  intro q hq
  simp [(Asks.leads idle h.leads).1 q hq]

theorem idle_refresh (service : Service) (cached : Bool) : Idle (service.refresh cached) := by
  refine Asks.bind (asks_act rfl) fun _ => ?_
  refine Asks.bind ?_ fun built => ?_
  · exact Asks.via (Attempt.asks_snapshot (P := fun p => (Action.probe p).isWork = false) (fun _ _ => rfl)
      (fun _ _ _ => rfl) (fun _ => rfl) rfl _ _) fun _ h => asks_act h
  · cases built with
    | error e => exact ⟨rfl, fun _ => trivial⟩
    | ok new => exact ⟨rfl, fun _ => ⟨rfl, fun _ => trivial⟩⟩

theorem Telling.idle {α : Type} {p : Program α} (h : Telling p) : Idle p := by
  apply h.mono
  rintro a (looks | notifies)
  · cases a with
    | probe p => cases p <;> first | rfl | cases looks
    | _ => first | rfl | cases looks
  · cases a <;> first | rfl | cases notifies

theorem runs_recordedRefresh {result : Except BuildError Snapshot}
    (h : Runs client (service.recordedRefresh cached) s actions result s') :
    (∃ e k, service.built client cached s.site = (.error e, k) ∧ result = .error e ∧
      s' = { s with site := k, refreshing := false }) ∨
    ∃ new k, service.built client cached s.site = (.ok new, k) ∧ result = .ok new ∧
      s' = { s with site := k, refreshing := false, snapshot := some new
                    state := s.state.record (new.changesFrom s.snapshot) } ∧
      actions.filter Action.isWork = [.record (new.changesFrom s.snapshot)] := by
  obtain ⟨us, vs, refreshed, u, rfl, hrefresh, hrest⟩ := h.of_bind
  rcases refresh_cases hrefresh.run with ⟨e, k, hbuilt, rfl, rfl⟩ | ⟨new, k, hbuilt, rfl, rfl⟩
  · cases hrest
    exact .inl ⟨e, k, hbuilt, rfl, rfl⟩
  · cases hrest with
    | ask answered hrest =>
      cases hrest
      obtain ⟨-, rfl⟩ := Prod.mk.inj (Option.some.inj answered)
      refine .inr ⟨new, k, hbuilt, rfl, rfl, ?_⟩
      rw [List.filter_append, (idle_refresh service cached).filter hrefresh]
      rfl

theorem runs_buildSchemes {schemes : List String} (h : Runs client (buildSchemes schemes) s actions () s') :
    s' = { s with site := schemes.foldl (fun k scheme => (client.answer (.warmup scheme) k).2) s.site } ∧
      actions = schemes.map fun scheme => .probe (.call (.warmup scheme)) := by
  induction schemes generalizing s actions with
  | nil =>
    cases h
    exact ⟨rfl, rfl⟩
  | cons scheme schemes ih =>
    cases h with
    | ask answered h =>
      obtain ⟨-, rfl⟩ := Prod.mk.inj (Option.some.inj answered)
      obtain ⟨hend, hactions⟩ := ih h
      exact ⟨hend, congrArg _ hactions⟩

theorem runs_storeArguments (h : Runs client (storeArguments project last targets) s actions () s') :
    s' = { s with store := s'.store } ∧ actions = targets.filterMap (storing? project last) := by
  refine ⟨?_, storeArguments_leads h.leads⟩
  induction targets generalizing s actions with
  | nil =>
    cases h
    rfl
  | cons t rest ih =>
    unfold storeArguments at h
    cases hoptions : (t.optionsIn project last).filter (!·.isEmpty) with
    | none =>
      rw [hoptions] at h
      exact ih h
    | some options =>
      rw [hoptions] at h
      cases h with
      | ask answered h =>
        have hrest := ih h
        rw [hrest]
        simp only [Shared.perform] at answered
        split at answered <;> cases answered <;> rfl

theorem mem_schemesToBuild {present : String → Bool} {first : Snapshot} {scheme : String} :
    scheme ∈ schemesToBuild project first present targets ↔ ∃ t ∈ targets, t.target.scheme = scheme ∧
      ∃ options, t.optionsIn project first = some options ∧ lacksModuleMap present options := by
  rw [schemesToBuild, Names.mem_sorted, List.mem_map]
  simp only [List.mem_filter]
  constructor
  · rintro ⟨t, ⟨ht, hlacks⟩, rfl⟩
    cases hoptions : t.optionsIn project first with
    | none =>
      rw [hoptions] at hlacks
      cases hlacks
    | some options =>
      rw [hoptions] at hlacks
      exact ⟨t, ht, rfl, options, hoptions, hlacks⟩
  · rintro ⟨t, ht, rfl, options, hoptions, hlacks⟩
    refine ⟨t, ⟨ht, ?_⟩, rfl⟩
    rw [hoptions]
    exact hlacks

/-- How snapshots are built for targets: from a first refresh, and if schemes have to be built for the targets,
again behind that. -/
structure Builds (client : Client κ) (service : Service) (targets : List NamedTarget) (start finish : κ)
    (first last : Snapshot) (schemes : List String) : Prop where
  scheme_order : schemes.Pairwise (· < ·)
  course : ∃ k, service.built client true start = (.ok first, k) ∧
    (∀ scheme, scheme ∈ schemes ↔ ∃ t ∈ targets, t.target.scheme = scheme ∧
      ∃ options, t.optionsIn service.project first = some options ∧
        lacksModuleMap (client.view k).present options) ∧
    (schemes = [] → last = first ∧ finish = k) ∧
    (schemes ≠ [] → service.built client false
      (schemes.foldl (fun k scheme => (client.answer (.warmup scheme) k).2) k) = (.ok last, finish))

def buildWork (slot : Option Snapshot) (first last : Snapshot) (schemes : List String) : List Action :=
  .record (first.changesFrom slot) :: (schemes.map fun scheme => .probe (.call (.warmup scheme))) ++
    if schemes = [] then [] else [.record (last.changesFrom (some first))]

theorem runs_builtSnapshot {result : Except BuildError Snapshot}
    (h : Runs client (service.builtSnapshot targets) s actions result s') :
    s'.state.depth = s.state.depth ∧ s'.store = s.store ∧ ∀ last, result = .ok last →
      s'.snapshot = some last ∧ ∃ first schemes,
        Builds client service targets s.site s'.site first last schemes ∧
        actions.filter Action.isWork = buildWork s.snapshot first last schemes := by
  obtain ⟨us, vs, recorded, u, rfl, hfirst, hrest⟩ := h.of_bind
  rcases runs_recordedRefresh hfirst with ⟨e, k, hbuilt, rfl, rfl⟩ | ⟨first, k, hbuilt, rfl, rfl, hus⟩
  · cases hrest
    exact ⟨rfl, rfl, nofun⟩
  · cases hrest with
    | ask answered hrest =>
      obtain ⟨rfl, rfl⟩ := Prod.mk.inj (Option.some.inj answered)
      dsimp only [Dialogue.done_bind] at hrest
      have order : (schemesToBuild service.project first (client.view k).present targets).Pairwise (· < ·) :=
        Table.keys_increasing _
      split at hrest
      · next none =>
        have hnone := List.isEmpty_iff.mp none
        cases hrest
        refine ⟨rfl, rfl, ?_⟩
        rintro last ⟨⟩
        refine ⟨rfl, first, _, ⟨order, k, hbuilt, fun _ => mem_schemesToBuild, fun _ => ⟨rfl, rfl⟩, fun some =>
          absurd hnone some⟩, ?_⟩
        rw [List.filter_append, hus, buildWork, hnone]
        rfl
      · next some =>
        have hsome := mt List.isEmpty_iff.mpr some
        obtain ⟨building, second, _, v, rfl, hbuilding, hsecond⟩ := hrest.of_bind
        obtain ⟨rfl, rfl⟩ := runs_buildSchemes hbuilding
        rcases runs_recordedRefresh hsecond with ⟨e, k', -, rfl, rfl⟩ | ⟨last, k', hrebuilt, rfl, rfl, hvs⟩
        · exact ⟨rfl, rfl, nofun⟩
        · refine ⟨rfl, rfl, ?_⟩
          rintro _ ⟨⟩
          refine ⟨rfl, first, _, ⟨order, k, hbuilt, fun _ => mem_schemesToBuild, fun none => absurd none hsome,
            fun _ => hrebuilt⟩, ?_⟩
          rw [List.filter_append, List.filter_cons_of_neg Bool.false_ne_true, List.filter_append, hus, hvs,
            List.filter_eq_self.mpr fun a ha => ?_, buildWork, if_neg hsome]
          · rfl
          · obtain ⟨scheme, -, rfl⟩ := List.mem_map.mp ha
            rfl

def storeOf (project : String) (last : Snapshot) (m : MemoryStore) (t : NamedTarget) : MemoryStore :=
  match (t.optionsIn project last).filter (!·.isEmpty) with
  | some options => m.update (options.map fun _ o => o.options) t.target.cacheScope
  | none => m

theorem foldl_storing (m : MemoryStore) (targets : List NamedTarget) :
    ((targets.filterMap (storing? project last)).filterMap Action.stored?).foldl
        (fun m u => m.update u.1 u.2) m =
      targets.foldl (storeOf project last) m := by
  induction targets generalizing m with
  | nil => rfl
  | cons t rest ih =>
    rw [List.filterMap_cons, List.foldl_cons, storeOf, storing?]
    cases (t.optionsIn project last).filter (!·.isEmpty) with
    | none => exact ih m
    | some options => exact ih _

def Unused (project : String) (last : Snapshot) (targets : List NamedTarget) (scope : String) : Prop :=
  ∀ t ∈ targets, t.target.cacheScope = scope → (t.optionsIn project last).filter (!·.isEmpty) = none

theorem scope_of_unused {scope : String} (unused : Unused project last targets scope) (m : MemoryStore) :
    (targets.foldl (storeOf project last) m).scope scope = m.scope scope := by
  induction targets generalizing m with
  | nil => rfl
  | cons t rest ih =>
    rw [List.foldl_cons, ih fun u hu => unused u (List.mem_cons_of_mem t hu), storeOf]
    cases hoptions : (t.optionsIn project last).filter (!·.isEmpty) with
    | none => rfl
    | some options =>
      have hscope : scope ≠ t.target.cacheScope := by
        rintro rfl
        rw [unused t List.mem_cons_self rfl] at hoptions
        cases hoptions
      change (m.update (options.map fun _ o => o.options) t.target.cacheScope).scope scope = m.scope scope
      rw [Database.scope_update, if_neg hscope]

theorem scope_of_last {before after : List NamedTarget} {t : NamedTarget} {options : Table CompilerOptions}
    (hoptions : (t.optionsIn project last).filter (!·.isEmpty) = some options)
    (unused : Unused project last after t.target.cacheScope) (m : MemoryStore) :
    ((before ++ t :: after).foldl (storeOf project last) m).scope t.target.cacheScope =
      options.map fun _ o => o.options := by
  rw [List.foldl_append, List.foldl_cons, scope_of_unused unused, storeOf, hoptions]
  dsimp only
  rw [Database.scope_update, if_pos rfl]

theorem exists_prepare (client : Client κ) (service : Service) (uris : List String)
    (free : s.refreshing = false) : ∃ actions result s', Runs client (service.prepare uris) s actions result s' := by
  obtain ⟨actions, result, s', -, runs, -⟩ := Shared.exists_runs_of_keeps
    (RefreshStage.returns_prepare service uris false) (patient_prepare service uris) free
  exact ⟨actions, result, s', runs⟩

end Service

structure PrepareStored {κ : Type} (service : Service) (targets : List NamedTarget) (last : Snapshot)
    (s s' : Shared κ) : Prop where
  kept : ∀ before t after options, targets = before ++ t :: after →
    t.optionsIn service.project last = some options → options.isEmpty = false →
    Service.Unused service.project last after t.target.cacheScope → ∀ path,
    s'.store.fetch path t.target.cacheScope = match options.get? path with
      | some o => .ok o.options
      | none => .error (.notFound path t.target.cacheScope)
  others : ∀ scope, Service.Unused service.project last targets scope → ∀ path,
    s'.store.fetch path scope = s.store.fetch path scope

namespace Service

open Shared (Runs)

variable {κ : Type} {client : Client κ} {service : Service} {s s' : Shared κ} {actions : List Action}
  {uris : List String} {result : Except BuildError Unit}

theorem stored_of_mirrors {Known : List String → Prop} {m : MemoryStore} {targets : List NamedTarget}
    {last : Snapshot} (before : s.store.Mirrors Known m)
    (after : s'.store.Mirrors Known (targets.foldl (storeOf service.project last) m)) :
    PrepareStored service targets last s s' where
  kept := by
    rintro x t y options rfl hoptions nonempty unused path
    have kept : (t.optionsIn service.project last).filter (!·.isEmpty) = some options := by
      rw [hoptions, Option.filter_some, nonempty]
      rfl
    rw [after.fetch, MemoryStore.fetch, scope_of_last kept unused, Table.get?_map]
    cases options.get? path <;> rfl
  others scope unused path := by
    rw [after.fetch, before.fetch, MemoryStore.fetch, MemoryStore.fetch, scope_of_unused unused]

theorem runs_prepareTargets (h : Runs client (service.prepareTargets uris) s actions result s') :
    s'.state.depth = s.state.depth ∧ (result = .ok () → ∃ first last schemes,
      Builds client service (uris.filterMap NamedTarget.parse?) s.site s'.site first last schemes ∧
      s'.snapshot = some last ∧
      actions.filter Action.isWork = buildWork s.snapshot first last schemes ++
        (uris.filterMap NamedTarget.parse?).filterMap (storing? service.project last) ∧
      ∀ Known m, s.store.Mirrors Known m →
        (∀ arguments scope, .store arguments scope ∈ actions → ∀ as ∈ arguments.values, Known as) →
        PrepareStored service (uris.filterMap NamedTarget.parse?) last s s') := by
  obtain ⟨us, vs, built, u, rfl, hbuilt, hrest⟩ := h.of_bind
  obtain ⟨depth, store, course⟩ := runs_builtSnapshot hbuilt
  cases built with
  | error e =>
    cases hrest
    exact ⟨depth, nofun⟩
  | ok last =>
    obtain ⟨storing, nothing, _, v, rfl, hstoring, hnothing⟩ := hrest.of_bind
    cases hnothing
    obtain ⟨hend, hstores⟩ := runs_storeArguments hstoring
    obtain ⟨slot, first, schemes, builds, work⟩ := course last rfl
    refine ⟨by rw [hend]; exact depth, fun _ => ?_⟩
    refine ⟨first, last, schemes, ?_, ?_, ?_, fun Known m mirrors known => ?_⟩
    · rw [hend]
      exact builds
    · rw [hend]
      exact slot
    · have stores : storing.filter Action.isWork = storing := by
        rw [List.filter_eq_self, hstores]
        intro a ha
        obtain ⟨t, -, ht⟩ := List.mem_filterMap.mp ha
        obtain ⟨options, -, rfl⟩ := Option.map_eq_some_iff.mp ht
        rfl
      rw [List.append_nil, List.filter_append, stores, work, hstores]
    · have after := hstoring.mirrors (store ▸ mirrors) fun arguments scope hmem =>
        known arguments scope (by simp [hmem])
      rw [hstores, foldl_storing] at after
      exact stored_of_mirrors mirrors after

theorem runs_telling {α : Type} {p : Program α} {a : α} (telling : Telling p)
    (h : Runs client p s actions a s') : s' = { s with writer := s'.writer } := by
  induction h with
  | done => rfl
  | @ask q f x s u s' actions a answered _ ih =>
    obtain ⟨asked, rest⟩ := telling
    have hrest := ih (rest x)
    have here : u = { s with writer := u.writer } := by
      rcases asked with looks | notifies
      · cases q with
        | hasDocuments | documents => cases answered; rfl
        | probe p =>
          cases p with
          | files => cases answered; rfl
          | call c => cases looks
        | _ => cases looks
      · cases q with
        | send m => exact Shared.perform_send answered
        | _ => cases notifies
    rw [hrest, here]

end Service

open Shared (Runs) in
/-- A preparation leaves the depth of updates as it was. One that succeeds has built the schemes that lack a
module map in the first snapshot, and keeps what the last snapshot has for each target. -/
theorem prepare_end_to_end {κ : Type} (client : Client κ) (service : Service) (uris : List String)
    (s : Shared κ) :
    (s.refreshing = false → ∃ actions result s', Runs client (service.prepare uris) s actions result s') ∧
    ∀ actions result s', Runs client (service.prepare uris) s actions result s' →
      s'.state.depth = s.state.depth ∧ (result = .ok () → ∃ first last schemes,
        Service.Builds client service (uris.filterMap NamedTarget.parse?) s.site s'.site first last schemes ∧
        s'.snapshot = some last ∧
        actions.filter Action.isWork = .enterUpdate :: Service.buildWork s.snapshot first last schemes ++
          (uris.filterMap NamedTarget.parse?).filterMap (Service.storing? service.project last) ++
            [.leaveUpdate, .drain] ∧
        ∀ Known m, s.store.Mirrors Known m →
          (∀ arguments scope, .store arguments scope ∈ actions → ∀ as ∈ arguments.values, Known as) →
          PrepareStored service (uris.filterMap NamedTarget.parse?) last s s') := by
  refine ⟨Service.exists_prepare client service uris, fun actions result s' h => ?_⟩
  rw [Service.prepare_eq] at h
  cases h with
  | ask entered h =>
    obtain ⟨-, rfl⟩ := Prod.mk.inj (Option.some.inj entered)
    obtain ⟨us, vs, _, u, rfl, htargets, h⟩ := h.of_bind
    cases h with
    | ask left h =>
      obtain ⟨-, rfl⟩ := Prod.mk.inj (Option.some.inj left)
      cases h with
      | ask drained h =>
        obtain ⟨-, rfl⟩ := Prod.mk.inj (Option.some.inj drained)
        obtain ⟨told, nothing, _, v, rfl, htold, hnothing⟩ := h.of_bind
        cases hnothing
        obtain ⟨depth, course⟩ := Service.runs_prepareTargets htargets
        rw [Service.runs_telling (Service.telling_tell service _) htold]
        refine ⟨?_, fun succeeds => ?_⟩
        · change u.state.depth - 1 = s.state.depth
          rw [depth]
          rfl
        · obtain ⟨first, last, schemes, builds, slot, work, stored⟩ := course succeeds
          refine ⟨first, last, schemes, builds, slot, ?_, fun Known m mirrors known => ?_⟩
          · rw [List.append_nil, List.filter_cons_of_pos rfl, List.filter_append, work,
              List.filter_cons_of_pos rfl, List.filter_cons_of_pos rfl,
              (Service.telling_tell service _).idle.filter htold]
            rfl
          · have kept := stored Known m mirrors fun arguments scope hmem =>
              known arguments scope (by simp [hmem])
            exact ⟨kept.kept, kept.others⟩

section

open Shared (Runs)

def mapClient : Client Bool where
  answer c built :=
    match c with
    | .list _ => (.ok ⟨some ⟨"App", ["App"], []⟩, none⟩, built)
    | .index _ _ =>
      let arguments := if built then ["-g"] else ["-fmodule-map-file=/p/m"]
      (.ok (.ofList [("App", .ofList [("/p/A.swift", ⟨some arguments, none, none⟩)])]), built)
    | .settings _ _ => (.ok [], built)
    | .warmup scheme => (.error (.failed scheme "1" ""), true)
  view _ := ⟨fun _ => false, id⟩

def mappedUri : String := "xcode://App?scheme=App"

def unbuilt : Shared Bool := .initial false (.memory .empty)

theorem app_prepared_and_built : ∃ actions s' first last schemes,
    Runs mapClient (appService.prepare [mappedUri]) unbuilt actions (.ok ()) s' ∧
    s'.state.depth = 0 ∧ "App" ∈ schemes ∧
    Service.Builds mapClient appService ([mappedUri].filterMap NamedTarget.parse?) false s'.site
      first last schemes ∧
    PrepareStored appService ([mappedUri].filterMap NamedTarget.parse?) last unbuilt s' := by
  obtain ⟨exists_run, course⟩ := prepare_end_to_end mapClient appService [mappedUri] unbuilt
  obtain ⟨actions, result, s', runs⟩ := exists_run rfl
  have ends : (unbuilt.run mapClient (appService.prepare [mappedUri])).map (·.1.isOk) = some true := by
    decide +kernel
  rw [runs.run] at ends
  cases result with
  | error e => cases ends
  | ok done =>
    obtain ⟨depth, succeeds⟩ := course actions (.ok done) s' runs
    obtain ⟨first, last, schemes, builds, -, -, stored⟩ := succeeds rfl
    have lacking : ∃ first ∈ (appService.built mapClient true false).1.toOption,
        ∃ t ∈ [mappedUri].filterMap NamedTarget.parse?, t.target.scheme = "App" ∧
          ∃ options ∈ t.optionsIn appService.project first,
            Service.lacksModuleMap (fun _ => false) options = true := by
      decide +kernel
    refine ⟨actions, s', first, last, schemes, runs, depth, ?_, builds,
      stored (fun _ => True) .empty rfl fun _ _ _ _ _ => trivial⟩
    obtain ⟨k, hbuilt, hschemes, -⟩ := builds.course
    obtain ⟨first', hfirst, t, ht, hscheme, options, hoptions, lacks⟩ := lacking
    change first' ∈ (appService.built mapClient true unbuilt.site).1.toOption at hfirst
    rw [hbuilt] at hfirst
    obtain rfl := Option.some.inj hfirst
    exact (hschemes "App").mpr ⟨t, ht, hscheme, options, hoptions, lacks⟩

end

end BuildServer
