import BuildServer.Proofs.Graph.Coverage
import BuildServer.Proofs.Server.Documents

namespace BuildServer

namespace Snapshot

variable {s : Snapshot} {uri : String} {table : Table CompilerOptions}

structure Resolves (s : Snapshot) (uri : String) (table : Table CompilerOptions) : Prop where
  files : s.filesOf uri = table.keys
  options : ∀ file o, table.get? file = some o →
    ∀ resolve, s.optionsFor resolve file (some uri) = some o

theorem filesOf_of_not_mem (hs : s.Consistent) (h : uri ∉ s.uris) : s.filesOf uri = [] := by
  cases hfiles : s.files.get? uri with
  | none => rw [filesOf, hfiles, Option.getD_none]
  | some files => exact absurd ((hs.files_keys uri).mp (Table.mem_keys.mpr ⟨files, hfiles⟩)) h

namespace Consistent

variable (hs : s.Consistent)
include hs

theorem filesOf_of_options (h : s.options.get? uri = some table) : s.filesOf uri = table.keys := by
  have huri : uri ∈ s.uris := (hs.options_keys uri).mp (Table.mem_keys.mpr ⟨table, h⟩)
  obtain ⟨files, hfiles⟩ := Table.mem_keys.mp ((hs.files_keys uri).mpr huri)
  obtain ⟨-, own, hown, rfl⟩ := hs.files uri files hfiles
  obtain rfl := Option.some.inj (hown.symm.trans h)
  rw [filesOf, hfiles, Option.getD_some]

theorem resolves_of_options (h : s.options.get? uri = some table) : s.Resolves uri table where
  files := hs.filesOf_of_options h
  options _ _ ho := hs.optionsFor_of_optionsIn (Option.bind_eq_some_iff.mpr ⟨table, h, ho⟩)

theorem exists_first_of_not_mem (h : uri ∉ s.uris) {file : String} (hfile : ∃ t, s.Contains t file) :
    ∃ first, s.Contains first file ∧ (∀ t, s.Contains t file → first ≤ t) ∧
      ∀ resolve, s.optionsFor resolve file (some uri) = s.optionsIn first file := by
  have hown (file : String) : s.optionsIn uri file = none := by
    rw [hs.optionsIn_eq_none]
    rintro ⟨files, hfiles, -⟩
    exact h ((hs.files_keys uri).mp (Table.mem_keys.mpr ⟨files, hfiles⟩))
  obtain ⟨o, ho⟩ := Table.mem_keys.mp ((hs.optionsByFile_keys file).mpr hfile)
  obtain ⟨first, hfirst, hleast⟩ := hs.exists_first ho
  refine ⟨first, hs.contains_iff.mpr ⟨o, hfirst⟩, hleast, fun resolve => ?_⟩
  obtain ⟨t, ht⟩ := hfile
  rw [optionsFor_some, hs.normal_of_contains ht, hown, hown, Option.none_or, Option.none_or, ho,
    Option.some_or, hfirst]

end Consistent

end Snapshot

namespace NamedTarget

variable {s : Snapshot} {t : NamedTarget} {project : String} {table : Table CompilerOptions}

theorem uri_of_parse? {uri : String} (h : parse? uri = some t) : t.uri = uri := by
  obtain ⟨target, -, rfl⟩ := Option.map_eq_some_iff.mp h
  rfl

theorem options_of_mem (hs : s.Consistent) (h : t.optionsIn project s = some table)
    (huri : t.uri ∈ s.uris) : s.options.get? t.uri = some table := by
  obtain ⟨own, hown⟩ := Table.mem_keys.mp ((hs.options_keys t.uri).mpr huri)
  rwa [optionsIn, hown, Option.some_or, ← hown] at h

theorem options_of_not_mem (hs : s.Consistent) (h : t.optionsIn project s = some table)
    (huri : t.uri ∉ s.uris) :
    s.options.get? (t.target.withProject project).render = some table := by
  cases hown : s.options.get? t.uri with
  | some own => exact absurd ((hs.options_keys t.uri).mp (Table.mem_keys.mpr ⟨own, hown⟩)) huri
  | none => rwa [optionsIn, hown, Option.none_or] at h

end NamedTarget

namespace Service

structure Follows {κ : Type} (service : Service) (client : Client κ) (s : Shared κ) (uri : String)
    (table : Table CompilerOptions) : Prop where
  sources : s.run client (service.sources [uri]) = some (.ok (Results.sources
    [⟨uri, (table.keys.filterMap FileUri.ofPath?).map fun document => ⟨document, .file, false⟩,
      sourceRoots table.keys⟩]), s)
  options : ∀ (q : Params.OptionsQuery) path o, q.target = uri → documentPath? q.document = some path →
    table.get? path = some o →
    Arguments.hasMissingModuleMap (client.view s.site).present o.options = false →
    s.run client (service.options q) = some (o, s)

theorem follows_of_resolves {κ : Type} {client : Client κ} {service : Service} {s : Shared κ}
    {snapshot : Snapshot} {uri : String} {table : Table CompilerOptions}
    (cached : s.snapshot = some snapshot) (h : snapshot.Resolves uri table) :
    service.Follows client s uri table where
  sources := by
    rw [run_sources cached, List.map_singleton, sourcesOf, h.files]
  options q path o htarget hpath ho complete := by
    have found := h.options path o ho (client.view s.site).resolve
    exact run_options cached hpath (htarget ▸ found) complete

end Service

/-- A target that a preparation finds is the same one for its sources and options if the snapshot has it under
the URI as sent. Under another spelling it has no sources, and its files are compiled as in the first
target that has them. -/
theorem spelling_resolves_iff {κ : Type} {client : Client κ} {service : Service} {cached : Bool}
    {s s' : Shared κ} {r : Refresh} {uri : String} {t : NamedTarget} {table : Table CompilerOptions}
    (refreshed : s.run client (service.refresh cached) = some (.ok r, s'))
    (parsed : NamedTarget.parse? uri = some t)
    (found : t.optionsIn service.project r.snapshot = some table) :
    (r.snapshot.Resolves uri table ↔ uri ∈ r.snapshot.uris ∨ table.keys = []) ∧
      (r.snapshot.Resolves uri table →
        ∀ (κ' : Type) (client' : Client κ') (now : Shared κ'), now.snapshot = some r.snapshot →
          service.Follows client' now uri table) ∧
      (uri ∉ r.snapshot.uris →
        (t.target.withProject service.project).render ∈ r.snapshot.uris ∧
          r.snapshot.filesOf uri = [] ∧
          ∀ file ∈ table.keys, ∃ first, r.snapshot.Contains first file ∧
            first ≤ (t.target.withProject service.project).render ∧
            (∀ t', r.snapshot.Contains t' file → first ≤ t') ∧
            ∀ resolve, r.snapshot.optionsFor resolve file (some uri) =
              r.snapshot.optionsIn first file) := by
  have hs : r.snapshot.Consistent := Service.consistent_of_refresh refreshed
  obtain rfl := NamedTarget.uri_of_parse? parsed
  refine ⟨⟨fun h => ?_, fun h => ?_⟩, fun h κ' client' now hnow => ?_, fun huri => ?_⟩
  · by_cases huri : t.uri ∈ r.snapshot.uris
    · exact .inl huri
    · exact .inr (h.files ▸ Snapshot.filesOf_of_not_mem hs huri)
  · by_cases huri : t.uri ∈ r.snapshot.uris
    · exact hs.resolves_of_options (NamedTarget.options_of_mem hs found huri)
    · have hempty : table.keys = [] := h.resolve_left huri
      refine ⟨hempty ▸ Snapshot.filesOf_of_not_mem hs huri, fun file o ho => ?_⟩
      have hfile : file ∈ table.keys := Table.mem_keys.mpr ⟨o, ho⟩
      rw [hempty] at hfile
      cases hfile
  · exact Service.follows_of_resolves hnow h
  · have hoptions := NamedTarget.options_of_not_mem hs found huri
    refine ⟨(hs.options_keys _).mp (Table.mem_keys.mpr ⟨table, hoptions⟩),
      Snapshot.filesOf_of_not_mem hs huri, fun file hfile => ?_⟩
    obtain ⟨o, ho⟩ := Table.mem_keys.mp hfile
    have hcontains : r.snapshot.Contains (t.target.withProject service.project).render file :=
      hs.contains_iff.mpr ⟨o, Option.bind_eq_some_iff.mpr ⟨table, hoptions, ho⟩⟩
    obtain ⟨first, hfirst, hleast, hanswer⟩ := hs.exists_first_of_not_mem huri ⟨_, hcontains⟩
    exact ⟨first, hfirst, hleast _ hcontains, hleast, hanswer⟩

def listedTests : String := "xcode://App?scheme=App&target=AppTests"

def testSpellings : List String :=
  ["xcode://App?target=AppTests&scheme=App", "xcode://Other?scheme=App&target=AppTests"]

theorem exists_spelled_tests : ∃ r s',
    Shared.run sharedClient (appService.refresh true) (.initial false (.memory .empty)) =
      some (.ok r, s') ∧
    listedTests ∈ r.snapshot.options.keys ∧
    ∀ uri ∈ listedTests :: testSpellings, ∃ t table o, NamedTarget.parse? uri = some t ∧
      t.optionsIn appService.project r.snapshot = some table ∧ table.get? "/p/S.swift" = some o ∧
      (uri ∈ testSpellings → r.snapshot.filesOf uri = [] ∧
        r.snapshot.optionsFor id "/p/S.swift" (some uri) ≠ some o) := by
  have hrun : ∃ x ∈ appService.refreshed? sharedClient true (.initial false (.memory .empty)),
      listedTests ∈ x.1.snapshot.options.keys ∧
      ∀ uri ∈ listedTests :: testSpellings, ∃ t ∈ NamedTarget.parse? uri,
        ∃ table ∈ t.optionsIn appService.project x.1.snapshot, ∃ o ∈ table.get? "/p/S.swift",
          uri ∈ testSpellings → x.1.snapshot.filesOf uri = [] ∧
            x.1.snapshot.optionsFor id "/p/S.swift" (some uri) ≠ some o := by
    decide +kernel
  obtain ⟨⟨r, s'⟩, hrefreshed, hlisted, hspelled⟩ := hrun
  refine ⟨r, s', Service.run_of_refreshed? hrefreshed, hlisted, fun uri huri => ?_⟩
  obtain ⟨t, ht, table, htable, o, ho, h⟩ := hspelled uri huri
  exact ⟨t, table, o, ht, htable, ho, h⟩

theorem tests_resolved_as_listed : ∃ r s' table,
    Shared.run sharedClient (appService.refresh true) (.initial false (.memory .empty)) =
      some (.ok r, s') ∧
    "/p/S.swift" ∈ table.keys ∧ r.snapshot.Resolves listedTests table ∧
    appService.Follows sharedClient s' listedTests table := by
  obtain ⟨r, s', refreshed, hlisted, htests⟩ := exists_spelled_tests
  obtain ⟨t, table, o, parsed, found, ho, -⟩ := htests listedTests List.mem_cons_self
  obtain ⟨hresolves, hfollows, -⟩ := spelling_resolves_iff refreshed parsed found
  have huri : listedTests ∈ r.snapshot.uris :=
    ((Service.consistent_of_refresh refreshed).options_keys listedTests).mp hlisted
  have h : r.snapshot.Resolves listedTests table := hresolves.mpr (.inl huri)
  exact ⟨r, s', table, refreshed, Table.mem_keys.mpr ⟨o, ho⟩, h,
    hfollows h Bool sharedClient s' (Service.snapshot_of_refresh refreshed)⟩

theorem spelled_tests_not_resolved : ∃ r s',
    Shared.run sharedClient (appService.refresh true) (.initial false (.memory .empty)) =
      some (.ok r, s') ∧
    ∀ uri ∈ testSpellings, ∃ t table o, NamedTarget.parse? uri = some t ∧
      t.optionsIn appService.project r.snapshot = some table ∧ table.get? "/p/S.swift" = some o ∧
      r.snapshot.filesOf uri = [] ∧
      r.snapshot.optionsFor id "/p/S.swift" (some uri) ≠ some o := by
  obtain ⟨r, s', refreshed, -, htests⟩ := exists_spelled_tests
  refine ⟨r, s', refreshed, fun uri huri => ?_⟩
  obtain ⟨t, table, o, parsed, found, ho, h⟩ := htests uri (List.mem_cons_of_mem _ huri)
  exact ⟨t, table, o, parsed, found, ho, h huri⟩

end BuildServer
