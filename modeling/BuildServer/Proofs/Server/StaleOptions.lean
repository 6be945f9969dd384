import BuildServer.Proofs.Dialogue.Hearing
import BuildServer.Proofs.Server.StoredOptions

namespace BuildServer

namespace Service

open Dialogue (Hears)

variable {service : Service} {q : Params.OptionsQuery} {o : CompilerOptions}

def Fetched (q : Params.OptionsQuery) (arguments : List String) (xs : List ((a : Action) × a.Answer)) : Prop :=
  ∃ path target, documentPath? q.document = some path ∧ TargetUri.parse? q.target = some target ∧
    ⟨.fetch path target.cacheScope, .ok arguments⟩ ∈ xs

theorem storedArguments_hears {t path : String} {stored : Option (List String)}
    {xs : List ((a : Action) × a.Answer)} (h : (storedArguments t path).Hears xs (.done stored)) :
    (xs = [] ∧ stored = none) ∨ ∃ target answer, TargetUri.parse? t = some target ∧
      xs = [⟨.fetch path target.cacheScope, answer⟩] ∧ stored = answer.toOption := by
  unfold storedArguments at h
  split at h
  · cases h
    exact .inl ⟨rfl, rfl⟩
  · next target hparse =>
    cases h with
    | ask answer h =>
      cases h
      exact .inr ⟨target, answer, hparse, rfl, rfl⟩

theorem options_hears {xs : List ((a : Action) × a.Answer)} (h : (service.options q).Hears xs (.done o))
    (some_options : o.options ≠ []) :
    (∃ before files, xs = before ++ [⟨.probe .files, files⟩] ∧
      Arguments.hasMissingModuleMap files.present o.options = false) ∨ Fetched q o.options xs := by
  unfold options at h
  split at h
  · cases h
    exact absurd rfl some_options
  · next path hpath =>
    obtain ⟨looking, _, built, rfl, -, h⟩ := h.of_bind
    cases h with
    | ask files h =>
      dsimp only [Dialogue.done_bind] at h
      split at h
      · next found _ =>
        split at h
        · obtain ⟨_, _, _, -, -, h⟩ := h.of_bind
          cases h
          exact absurd rfl some_options
        · next complete =>
          cases h
          exact .inl ⟨looking, files, rfl, by simpa using complete⟩
      · obtain ⟨fetching, _, stored, rfl, hstored, h⟩ := h.of_bind
        obtain ⟨_, _, _, -, -, h⟩ := h.of_bind
        cases h
        rcases storedArguments_hears hstored with ⟨-, rfl⟩ | ⟨target, answer, hparse, rfl, rfl⟩
        · exact absurd rfl some_options
        · cases answer with
          | error e => exact absurd rfl some_options
          | ok as =>
            refine .inr ⟨path, target, hpath, hparse, ?_⟩
            exact List.mem_append_right _ (List.mem_cons_of_mem _ List.mem_cons_self)

section

variable {κ : Type} {client : Client κ} {s s' : Shared κ}

theorem run_storedArguments (s : Shared κ) (t path : String) : s.run client (storedArguments t path) =
    some ((TargetUri.parse? t).bind fun target => (s.store.fetch path target.cacheScope).toOption, s) := by
  unfold storedArguments
  split
  · next hparse =>
    rw [hparse]
    rfl
  · next target hparse =>
    rw [hparse]
    rfl

theorem run_options_cases (h : s.run client (service.options q) = some (o, s')) (some_options : o.options ≠ []) :
    ∃ path built s₁, documentPath? q.document = some path ∧
      s.run client service.snapshot = some (built, s₁) ∧
      let found := (built.toOption.getD .empty).optionsFor (client.view s₁.site).resolve path (some q.target)
      (found = some o ∧ Arguments.hasMissingModuleMap (client.view s₁.site).present o.options = false) ∨
        found = none ∧ ∃ target, TargetUri.parse? q.target = some target ∧
          s.store.fetch path target.cacheScope = .ok o.options := by
  unfold options at h
  split at h
  · obtain ⟨rfl, -⟩ := Shared.run_pure.mp h
    exact absurd rfl some_options
  · next path hpath =>
    obtain ⟨built, s₁, looked, h⟩ := Shared.run_bind.mp h
    obtain ⟨files, s₂, hfiles, h⟩ := Shared.run_bind.mp h
    obtain ⟨rfl, rfl⟩ := Prod.mk.inj (Option.some.inj (run_files.symm.trans hfiles))
    refine ⟨path, built, s₁, hpath, looked, ?_⟩
    split at h
    · next found hfound =>
      split at h
      · obtain ⟨_, _, -, h⟩ := Shared.run_bind.mp h
        obtain ⟨rfl, -⟩ := Shared.run_pure.mp h
        exact absurd rfl some_options
      · next complete =>
        obtain ⟨rfl, -⟩ := Shared.run_pure.mp h
        exact .inl ⟨hfound, by simpa using complete⟩
    · next missing =>
      obtain ⟨stored, s₃, hstored, h⟩ := Shared.run_bind.mp h
      obtain ⟨_, _, -, h⟩ := Shared.run_bind.mp h
      obtain ⟨rfl, -⟩ := Shared.run_pure.mp h
      rw [run_storedArguments, store_of_snapshot looked] at hstored
      obtain ⟨rfl, -⟩ := Prod.mk.inj (Option.some.inj hstored)
      cases hparse : TargetUri.parse? q.target with
      | none =>
        rw [hparse] at some_options
        exact absurd rfl some_options
      | some target =>
        rw [hparse] at some_options
        refine .inr ⟨missing, target, rfl, ?_⟩
        cases hfetch : s.store.fetch path target.cacheScope with
        | error e =>
          rw [Option.bind_some, hfetch] at some_options
          exact absurd rfl some_options
        | ok as =>
          rw [Option.bind_some, hfetch]
          rfl

end

end Service

/-- Options that are given out were complete with what was last seen of the files, or were fetched from the store
when an earlier preparation had put them there. With the request running alone they lack a module map exactly if
the snapshot has no options of the document in the target and those of the store lack one. -/
theorem incomplete_options_stored {κ : Type} (client : Client κ) (service : Service) (q : Params.OptionsQuery)
    (o : CompilerOptions) (some_options : o.options ≠ []) :
    (∀ xs, (service.options q).Hears xs (.done o) →
      (∃ before files, xs = before ++ [⟨.probe .files, files⟩] ∧
        Arguments.hasMissingModuleMap files.present o.options = false) ∨ Service.Fetched q o.options xs) ∧
    ∀ s s' : Shared κ, s.run client (service.options q) = some (o, s') →
      ∃ path built s₁, documentPath? q.document = some path ∧
        s.run client service.snapshot = some (built, s₁) ∧
        (Arguments.hasMissingModuleMap (client.view s₁.site).present o.options = true ↔
          (built.toOption.getD .empty).optionsFor (client.view s₁.site).resolve path (some q.target) = none ∧
          ∃ target arguments, TargetUri.parse? q.target = some target ∧
            s.store.fetch path target.cacheScope = .ok arguments ∧
            Arguments.hasMissingModuleMap (client.view s₁.site).present arguments = true) := by
  refine ⟨fun xs h => Service.options_hears h some_options, fun s s' h => ?_⟩
  obtain ⟨path, built, s₁, hpath, looked, cases⟩ := Service.run_options_cases h some_options
  refine ⟨path, built, s₁, hpath, looked, ?_⟩
  rcases cases with ⟨found, complete⟩ | ⟨missing, target, hparse, stored⟩
  · rw [complete, found]
    simp
  · constructor
    · intro incomplete
      exact ⟨missing, target, o.options, hparse, stored, incomplete⟩
    · rintro ⟨-, target', arguments, hparse', stored', incomplete⟩
      obtain rfl := Option.some.inj (hparse.symm.trans hparse')
      obtain rfl := Except.ok.inj (stored.symm.trans stored')
      exact incomplete

section

def mapsClient (present : Bool) : Client Unit where
  answer c k :=
    match c with
    | .list _ => (.ok ⟨some ⟨"App", ["App"], []⟩, none⟩, k)
    | .index scheme _ =>
      let files : Table FileSettings := .ofList [("/p/A.swift", ⟨some ["-c"], none, none⟩)]
      (.ok (.ofList [(scheme, files)]), k)
    | .settings _ _ => (.ok [], k)
    | .warmup _ => (.ok (), k)
  view _ := ⟨fun _ => present, id⟩

def removedStored : Shared Unit :=
  .initial () (.memory (MemoryStore.empty.update
    (.ofList [("/p/Gone.swift", ["-c", "-fmodule-map-file=/p/Gone.modulemap"])]) "App"))

def removedQuery : Params.OptionsQuery := ⟨none, "file:///p/Gone.swift", "xcode://App?scheme=App"⟩

theorem stored_options_complete : ∃ o s',
    removedStored.run (mapsClient true) (appService.options removedQuery) = some (o, s') ∧ o.options ≠ [] ∧
    Arguments.hasMissingModuleMap (fun _ => true) o.options = false := by
  have ran : ∃ x ∈ removedStored.run (mapsClient true) (appService.options removedQuery), x.1.options ≠ [] := by
    decide +kernel
  obtain ⟨⟨o, s'⟩, hrun, some_options⟩ := ran
  refine ⟨o, s', hrun, some_options, ?_⟩
  obtain ⟨path, built, s₁, hpath, -, incomplete⟩ :=
    (incomplete_options_stored (mapsClient true) appService removedQuery o some_options).2 _ _ hrun
  have hgone : documentPath? removedQuery.document = some "/p/Gone.swift" := by decide +kernel
  have hstore : ∀ target ∈ TargetUri.parse? removedQuery.target,
      removedStored.store.fetch "/p/Gone.swift" target.cacheScope =
        .ok ["-c", "-fmodule-map-file=/p/Gone.modulemap"] := by
    decide +kernel
  obtain rfl := Option.some.inj (hgone.symm.trans hpath)
  refine Bool.eq_false_iff.mpr fun h => ?_
  obtain ⟨-, target, arguments, hparse, stored, hmissing⟩ := incomplete.mp h
  obtain rfl := Except.ok.inj ((hstore target hparse).symm.trans stored)
  have hmaps : Arguments.hasMissingModuleMap (fun _ => true)
      ["-c", "-fmodule-map-file=/p/Gone.modulemap"] = false := by
    decide +kernel
  exact Bool.false_ne_true (hmaps.symm.trans hmissing)

def OptionsComplete : Prop :=
  ∀ (client : Client Unit) (service : Service) (q : Params.OptionsQuery) (s s' : Shared Unit) (o : CompilerOptions),
    s.run client (service.options q) = some (o, s') → o.options ≠ [] →
    Arguments.hasMissingModuleMap (client.view s'.site).present o.options = false

theorem stored_options_unchecked : ¬OptionsComplete := by
  intro h
  have ran : ∃ x ∈ removedStored.run (mapsClient false) (appService.options removedQuery),
      x.1.options = ["-c", "-fmodule-map-file=/p/Gone.modulemap"] := by
    decide +kernel
  obtain ⟨⟨o, s'⟩, hrun, hoptions⟩ := ran
  have some_options : o.options ≠ [] := fun hempty => List.cons_ne_nil _ _ (hoptions.symm.trans hempty)
  have complete := h (mapsClient false) appService removedQuery removedStored s' o hrun some_options
  rw [hoptions] at complete
  have hmaps : Arguments.hasMissingModuleMap (fun _ => false)
      ["-c", "-fmodule-map-file=/p/Gone.modulemap"] = true := by
    decide +kernel
  exact Bool.false_ne_true (complete.symm.trans hmaps)

end

end BuildServer
