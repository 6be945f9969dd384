import Mathlib.Data.List.Nodup
import BuildServer.Proofs.Graph.Reports
import BuildServer.Proofs.Target.Uri

namespace BuildServer

structure Spelling (files : Table FileSettings) (file path : String) (settings : FileSettings) : Prop where
  found : files.get? path = some settings
  normal : Path.normalize path = file
  greatest : ∀ path' ∈ files.keys, Path.normalize path' = file → path' ≤ path

namespace Member

theorem filesUnder_cons {settings : IndexSettings} {name : String} {names : List String}
    {files : Table FileSettings} (hfiles : settings.get? name = some files)
    (hsome : files.isEmpty = false) : filesUnder (name :: names) settings = files := by
  have hfilter : (settings.get? name).filter (!·.isEmpty) = some files := by
    rw [hfiles, Option.filter_some, hsome]
    rfl
  rw [filesUnder, List.findSome?_cons, hfilter]

theorem exists_spelling (present : String → Bool) {files : Table FileSettings} {path : String}
    (h : path ∈ files.keys) : ∃ q settings, Spelling files (Path.normalize path) q settings ∧
      (optionsOf present files).get? (Path.normalize path) =
        some (.ofArguments (Arguments.sanitize present settings.arguments)) := by
  have hoptions : (optionsOf present files).get? (Path.normalize path) =
      (files.entries.reverse.find? fun e => Path.normalize e.1 == Path.normalize path).map fun e =>
        .ofArguments (Arguments.sanitize present e.2.arguments) :=
    Table.get?_ofList_map _ _ _ _
  obtain ⟨settings, hsettings⟩ := Table.mem_keys.mp h
  have hsome : (files.entries.reverse.find? fun e => Path.normalize e.1 == Path.normalize path).isSome := by
    rw [List.find?_isSome]
    exact ⟨(path, settings), List.mem_reverse.mpr (Table.mem_entries.mpr hsettings), beq_self_eq_true _⟩
  obtain ⟨e, he⟩ := Option.isSome_iff_exists.mp hsome
  obtain ⟨hfound, hnormal, hgreatest⟩ :=
    Table.find?_reverse_entries (p := fun q => Path.normalize q == Path.normalize path) he
  refine ⟨e.1, e.2, ⟨hfound, by simpa using hnormal, fun q hq hsame => ?_⟩, by rw [hoptions, he]; rfl⟩
  exact hgreatest q hq (by simpa using hsame)

end Member

namespace SchemeReport

variable {project : String} {x x' : SchemeReport} {m m' : Member} {name : String}

def member (project : String) (x : SchemeReport) : Option String → Member
  | none =>
    let dependencies := (Member.nestedNames x.scheme x.settings).map fun name =>
      (TargetUri.nested project x.scheme name).render
    ⟨⟨(TargetUri.forScheme project x.scheme).render, x.scheme, dependencies⟩,
      Member.optionsOf x.files.present (Member.filesUnder [x.scheme] x.settings)⟩
  | some name =>
    ⟨⟨(TargetUri.nested project x.scheme name).render, x.scheme ++ " (" ++ name ++ ")", []⟩,
      Member.optionsOf x.files.present (Member.filesUnder [name, x.scheme] x.settings)⟩

theorem members_eq : x.members project = x.member project none ::
    (Member.nestedNames x.scheme x.settings).map fun name => x.member project (some name) :=
  rfl

def uri (project : String) (x : SchemeReport) (name : String) : String :=
  if name = x.scheme then (TargetUri.forScheme project x.scheme).render
  else (TargetUri.nested project x.scheme name).render

theorem mem_nestedNames : name ∈ Member.nestedNames x.scheme x.settings ↔
    name ≠ x.scheme ∧ ∃ files, x.settings.get? name = some files ∧ files.isEmpty = false := by
  rw [Member.nestedNames, Table.mem_keys]
  simp only [Table.get?_filter, Option.filter_eq_some_iff, Bool.and_eq_true, bne_iff_ne,
    Bool.not_eq_true']
  constructor
  · rintro ⟨files, hfiles, hne, hsome⟩
    exact ⟨hne, files, hfiles, hsome⟩
  · rintro ⟨hne, files, hfiles, hsome⟩
    exact ⟨files, hfiles, hne, hsome⟩

theorem exists_identity (named : "" ∉ x.settings.keys) (hm : m ∈ x.members project) :
    ∃ t : TargetUri, t.project = project ∧ t.scheme = x.scheme ∧ m.uri = t.render ∧
      m = x.member project t.target := by
  rw [members_eq] at hm
  rcases List.mem_cons.mp hm with rfl | hm
  · exact ⟨.forScheme project x.scheme, rfl, rfl, rfl, rfl⟩
  · obtain ⟨name, hname, rfl⟩ := List.mem_map.mp hm
    obtain ⟨-, files, hfiles, -⟩ := mem_nestedNames.mp hname
    have hne : name ≠ "" := by
      intro h
      exact named (h ▸ Table.mem_keys.mpr ⟨files, hfiles⟩)
    have htarget : TargetUri.nonempty? name = some name := by
      simp [TargetUri.nonempty?, hne]
    refine ⟨.nested project x.scheme name, rfl, rfl, rfl, ?_⟩
    rw [TargetUri.nested, htarget]

theorem members_distinct {xs : List SchemeReport} (distinct : (xs.map scheme).Nodup)
    (named : ∀ x ∈ xs, "" ∉ x.settings.keys) (hm : m ∈ xs.flatMap (members project))
    (hm' : m' ∈ xs.flatMap (members project)) (h : m.uri = m'.uri) : m = m' := by
  obtain ⟨x, hx, hm⟩ := List.mem_flatMap.mp hm
  obtain ⟨x', hx', hm'⟩ := List.mem_flatMap.mp hm'
  obtain ⟨t, hproject, hscheme, huri, rfl⟩ := exists_identity (named x hx) hm
  obtain ⟨t', hproject', hscheme', huri', rfl⟩ := exists_identity (named x' hx') hm'
  have ht : t = t' := by
    apply TargetUri.eq_of_render (hproject.trans hproject'.symm)
    rw [← huri, ← huri', h]
  have hsame : x = x' := by
    apply List.inj_on_of_nodup_map distinct hx hx'
    rw [← hscheme, ← hscheme', ht]
  rw [ht, hsame]

theorem exists_member (project : String) {files : Table FileSettings} (hfiles : x.settings.get? name = some files)
    (hsome : files.isEmpty = false) : ∃ m ∈ x.members project, m.uri = x.uri project name ∧
      m.options = Member.optionsOf x.files.present files := by
  rw [members_eq, uri]
  by_cases hname : name = x.scheme
  · subst hname
    refine ⟨_, List.mem_cons_self, by rw [if_pos rfl]; rfl, ?_⟩
    rw [member, Member.filesUnder_cons hfiles hsome]
  · have hnested : name ∈ Member.nestedNames x.scheme x.settings :=
      mem_nestedNames.mpr ⟨hname, files, hfiles, hsome⟩
    refine ⟨_, List.mem_cons_of_mem _ (List.mem_map.mpr ⟨name, hnested, rfl⟩), by rw [if_neg hname]; rfl, ?_⟩
    rw [member, Member.filesUnder_cons hfiles hsome]

end SchemeReport

namespace Snapshot

/-- The indices by file are those by target turned round, and hold all that was reported. -/
structure Exact (s : Snapshot) (project : String) (reports : List SchemeReport) : Prop where
  indexed : ∀ uri file,
    (∃ targets, s.targetsByFile.get? file = some targets ∧ uri ∈ targets) ↔ s.Contains uri file
  keys : ∀ file, file ∈ s.targetsByFile.keys ↔ file ∈ s.optionsByFile.keys
  kept : ∀ x ∈ reports, ∀ name files, x.settings.get? name = some files → ∀ path ∈ files.keys,
    s.Contains (x.uri project name) (Path.normalize path) ∧
      ∃ q settings table, Spelling files (Path.normalize path) q settings ∧
        s.options.get? (x.uri project name) = some table ∧
        table.get? (Path.normalize path) =
          some (.ofArguments (Arguments.sanitize x.files.present settings.arguments))

variable {ms : List Member} {store : Option String} {uri file : String}

theorem mem_targetsByFile : (∃ targets, (ofMembers ms store).targetsByFile.get? file = some targets ∧
    uri ∈ targets) ↔ ∃ m ∈ ms, file ∈ m.files ∧ m.uri = uri := by
  constructor
  · rintro ⟨targets, htargets, huri⟩
    exact (get?_targetsByFileOf htargets).2.2 uri huri
  · rintro ⟨m, hm, hfile, rfl⟩
    exact mem_targetsByFileOf hm hfile

theorem mem_keys_targetsByFile :
    file ∈ (ofMembers ms store).targetsByFile.keys ↔ ∃ m ∈ ms, file ∈ m.files := by
  rw [Table.mem_keys]
  constructor
  · rintro ⟨targets, htargets⟩
    obtain ⟨hne, -, hmem⟩ := get?_targetsByFileOf htargets
    obtain ⟨uri, huri⟩ := List.exists_mem_of_ne_nil targets hne
    obtain ⟨m, hm, hfile, -⟩ := hmem uri huri
    exact ⟨m, hm, hfile⟩
  · rintro ⟨m, hm, hfile⟩
    obtain ⟨targets, htargets, -⟩ := mem_targetsByFileOf hm hfile
    exact ⟨targets, htargets⟩

section

variable (distinct : ∀ m ∈ ms, ∀ m' ∈ ms, m.uri = m'.uri → m = m')
include distinct

theorem named_eq_some {m : Member} (hm : m ∈ ms) : named ms m.uri = some m := by
  obtain ⟨m', hnamed⟩ := named_iff.mpr ⟨m, hm, rfl⟩
  obtain ⟨hm', huri⟩ := mem_of_named hnamed
  rw [hnamed, distinct m' hm' m hm huri]

theorem contains_iff_mem :
    (ofMembers ms store).Contains uri file ↔ ∃ m ∈ ms, file ∈ m.files ∧ m.uri = uri := by
  rw [contains_iff]
  constructor
  · rintro ⟨m, hnamed, hfile⟩
    obtain ⟨hm, huri⟩ := mem_of_named hnamed
    exact ⟨m, hm, hfile, huri⟩
  · rintro ⟨m, hm, hfile, rfl⟩
    exact ⟨m, named_eq_some distinct hm, hfile⟩

theorem mem_keys_optionsByFile :
    file ∈ (ofMembers ms store).optionsByFile.keys ↔ ∃ m ∈ ms, file ∈ m.files := by
  simp only [mem_optionsByFile, contains_iff_mem distinct]
  constructor
  · rintro ⟨uri, m, hm, hfile, -⟩
    exact ⟨m, hm, hfile⟩
  · rintro ⟨m, hm, hfile⟩
    exact ⟨m.uri, m, hm, hfile, rfl⟩

end

theorem exact_ofMembers {project : String} {xs : List SchemeReport}
    (distinct : (xs.map SchemeReport.scheme).Nodup) (hnames : ∀ x ∈ xs, "" ∉ x.settings.keys)
    (store : Option String) :
    (ofMembers (xs.flatMap (SchemeReport.members project)) store).Exact project xs := by
  have hdistinct : ∀ m ∈ xs.flatMap (SchemeReport.members project),
      ∀ m' ∈ xs.flatMap (SchemeReport.members project), m.uri = m'.uri → m = m' :=
    fun m hm m' hm' => SchemeReport.members_distinct distinct hnames hm hm'
  constructor
  case indexed =>
    intro uri file
    rw [mem_targetsByFile, contains_iff_mem hdistinct]
  case keys =>
    intro file
    rw [mem_keys_targetsByFile, mem_keys_optionsByFile hdistinct]
  case kept =>
    intro x hx name files hfiles path hpath
    have hsome : files.isEmpty = false := by
      cases hentries : files.entries with
      | nil => simp [Table.keys, hentries] at hpath
      | cons e es => simp [Table.isEmpty, hentries]
    obtain ⟨m, hm, huri, hoptions⟩ := SchemeReport.exists_member project hfiles hsome
    obtain ⟨q, settings, hspelling, hkept⟩ := Member.exists_spelling x.files.present hpath
    rw [← hoptions] at hkept
    rw [← huri]
    have hmem : m ∈ xs.flatMap (SchemeReport.members project) := List.mem_flatMap.mpr ⟨x, hx, hm⟩
    have hfile : Path.normalize path ∈ m.files := Table.mem_keys.mpr ⟨_, hkept⟩
    refine ⟨(contains_iff_mem hdistinct).mpr ⟨m, hmem, hfile, rfl⟩, q, settings, m.options, hspelling, ?_,
      hkept⟩
    rw [get?_options, named_eq_some hdistinct hmem, Option.map_some]

end Snapshot

/-- A refresh builds its snapshot from what was reported of the schemes, and if these are distinct and have
no target without a name, the indices are exact and nothing that was reported is lost. -/
theorem refreshed_snapshot_exact {κ : Type} {client : Client κ} {service : Service} {cached : Bool}
    {s s' : Shared κ} {r : Refresh}
    (refreshed : s.run client (service.refresh cached) = some (.ok r, s')) :
    ∃ reports,
      ((Attempt.reports service.active cached).run.run client.probe s.site).1 = .ok reports ∧
      ((reports.map SchemeReport.scheme).Nodup → (∀ x ∈ reports, "" ∉ x.settings.keys) →
        r.snapshot.Exact service.project reports) := by
  obtain ⟨xs, store, hreports, hsnapshot⟩ := Service.reports_of_refresh refreshed
  refine ⟨xs, hreports, fun distinct hnames => ?_⟩
  rw [hsnapshot]
  exact Snapshot.exact_ofMembers distinct hnames store

def kitService : Service := { appService with active := ["App", "Kit"] }

theorem kit_snapshot_exact : ∃ r s' reports,
    Shared.run appClient (kitService.refresh true) (.initial () (.memory .empty)) = some (.ok r, s') ∧
    ((Attempt.reports ["App", "Kit"] true).run.run appClient.probe ()).1 = .ok reports ∧
    reports.map SchemeReport.scheme = ["App", "Kit"] ∧ r.snapshot.Exact "App" reports := by
  have hran : (kitService.refreshed? appClient true (.initial () (.memory .empty))).isSome := by
    decide +kernel
  obtain ⟨⟨r, s'⟩, hr⟩ := Option.isSome_iff_exists.mp hran
  have hrun := Service.run_of_refreshed? hr
  obtain ⟨reports, hreports, hexact⟩ := refreshed_snapshot_exact hrun
  have hasked : ∃ xs ∈ ((Attempt.reports ["App", "Kit"] true).run.run appClient.probe ()).1.toOption,
      xs.map SchemeReport.scheme = ["App", "Kit"] ∧ ∀ x ∈ xs, "" ∉ x.settings.keys := by
    decide +kernel
  change ((Attempt.reports ["App", "Kit"] true).run.run appClient.probe ()).1 = .ok reports at hreports
  rw [hreports] at hasked
  obtain ⟨xs, hxs, hschemes, hnames⟩ := hasked
  obtain rfl := Option.some.inj hxs
  have hdistinct : (reports.map SchemeReport.scheme).Nodup := by
    rw [hschemes]
    decide
  exact ⟨r, s', reports, hrun, hreports, hschemes, hexact hdistinct hnames⟩

end BuildServer
