import BuildServer.Proofs.Dialogue.Ensures
import BuildServer.Proofs.Path.Normal
import BuildServer.Proofs.Table.Lookup
import BuildServer.Server.Refresh
import BuildServer.Server.Shared

namespace BuildServer

namespace Snapshot

def uris (s : Snapshot) : List String := s.targets.map BuildTarget.uri

def Contains (s : Snapshot) (uri file : String) : Prop :=
  ∃ files, s.files.get? uri = some files ∧ file ∈ files

def IsKey (s : Snapshot) (file : String) : Prop :=
  (∃ uri, s.Contains uri file) ∨ (∃ uri table, s.options.get? uri = some table ∧ file ∈ table.keys) ∨
    file ∈ s.targetsByFile.keys ∨ file ∈ s.optionsByFile.keys

def Keeps (s : Snapshot) (o : CompilerOptions) : Prop :=
  (∃ uri table, s.options.get? uri = some table ∧ o ∈ table.values) ∨ o ∈ s.optionsByFile.values

structure Consistent (s : Snapshot) : Prop where
  sorted : s.targets.Pairwise (·.uri ≤ ·.uri)
  files_keys : ∀ uri, uri ∈ s.files.keys ↔ uri ∈ s.uris
  options_keys : ∀ uri, uri ∈ s.options.keys ↔ uri ∈ s.uris
  dependencies : ∀ t ∈ s.targets, ∀ uri ∈ t.dependencies, uri ∈ s.uris
  files : ∀ uri files, s.files.get? uri = some files →
    files.Pairwise (· < ·) ∧ ∃ table, s.options.get? uri = some table ∧ files = table.keys
  indexed : ∀ uri file, s.Contains uri file →
    ∃ targets, s.targetsByFile.get? file = some targets ∧ uri ∈ targets
  index : ∀ file targets, s.targetsByFile.get? file = some targets →
    targets ≠ [] ∧ targets.Pairwise (· < ·) ∧ ∀ uri ∈ targets, uri ∈ s.uris
  optionsByFile_keys : ∀ file, file ∈ s.optionsByFile.keys ↔ ∃ uri, s.Contains uri file
  optionsByFile : ∀ file o, s.optionsByFile.get? file = some o →
    ∃ uri table, s.options.get? uri = some table ∧ table.get? file = some o ∧
      ∀ uri', s.Contains uri' file → uri ≤ uri'
  normal : ∀ file, s.IsKey file → Path.normalize file = file
  derived : ∀ o, s.Keeps o → o = .ofArguments o.options

end Snapshot

structure Coherent (ms : List Member) : Prop where
  dependencies : ∀ m ∈ ms, ∀ uri ∈ m.target.dependencies, ∃ m' ∈ ms, m'.uri = uri
  normal : ∀ m ∈ ms, ∀ file o, m.options.get? file = some o →
    Path.normalize file = file ∧ o = .ofArguments o.options

namespace Coherent

theorem flatten {groups : List (List Member)} (h : ∀ ms ∈ groups, Coherent ms) :
    Coherent groups.flatten where
  dependencies m hm uri huri := by
    obtain ⟨ms, hms, hm⟩ := List.mem_flatten.1 hm
    obtain ⟨m', hm', he⟩ := (h ms hms).dependencies m hm uri huri
    exact ⟨m', List.mem_flatten.2 ⟨ms, hms, hm'⟩, he⟩
  normal m hm := by
    obtain ⟨ms, hms, hm⟩ := List.mem_flatten.1 hm
    exact (h ms hms).normal m hm

theorem optionsOf (present : String → Bool) (files : Table FileSettings) {file : String}
    {o : CompilerOptions} (h : (Member.optionsOf present files).get? file = some o) :
    Path.normalize file = file ∧ o = .ofArguments o.options := by
  change (Table.ofList (files.entries.map fun e => (Path.normalize e.1,
    CompilerOptions.ofArguments (Arguments.sanitize present e.2.arguments)))).get? file = some o at h
  rw [Table.get?_ofList_map, Option.map_eq_some_iff] at h
  obtain ⟨e, he, rfl⟩ := h
  have hkey : Path.normalize e.1 = file := by simpa using List.find?_some he
  exact ⟨by rw [← hkey, Path.normalize_normalize], rfl⟩

theorem ofScheme (project scheme : String) (settings : IndexSettings) (present : String → Bool) :
    Coherent (Member.ofScheme project scheme settings present) where
  dependencies m hm uri huri := by
    unfold Member.ofScheme at hm ⊢
    dsimp only at hm ⊢
    rcases List.mem_cons.1 hm with rfl | hm
    · obtain ⟨name, hname, rfl⟩ := List.mem_map.1 huri
      exact ⟨_, List.mem_cons_of_mem _ (List.mem_map.2 ⟨name, hname, rfl⟩), rfl⟩
    · obtain ⟨name, -, rfl⟩ := List.mem_map.1 hm
      cases huri
  normal m hm file o ho := by
    unfold Member.ofScheme at hm
    dsimp only at hm
    rcases List.mem_cons.1 hm with rfl | hm
    · exact optionsOf present _ ho
    · obtain ⟨name, -, rfl⟩ := List.mem_map.1 hm
      exact optionsOf present _ ho

end Coherent

namespace Snapshot

variable {ms : List Member} {store : Option String} {uri file : String}

def named (ms : List Member) (uri : String) : Option Member :=
  ms.reverse.find? (·.uri == uri)

theorem mem_of_named {m : Member} (h : named ms uri = some m) : m ∈ ms ∧ m.uri = uri := by
  refine ⟨List.mem_reverse.1 (List.mem_of_find?_eq_some h), ?_⟩
  simpa using List.find?_some h

theorem named_iff : (∃ m, named ms uri = some m) ↔ ∃ m ∈ ms, m.uri = uri := by
  rw [← Option.isSome_iff_exists, named, List.find?_isSome]
  simp

theorem get?_files : (ofMembers ms store).files.get? uri = (named ms uri).map Member.files :=
  Table.get?_ofList_map _ _ ms uri

theorem get?_options : (ofMembers ms store).options.get? uri = (named ms uri).map Member.options :=
  Table.get?_ofList_map _ _ ms uri

theorem mem_targets {t : BuildTarget} :
    t ∈ (ofMembers ms store).targets ↔ ∃ m ∈ ms, m.target = t := by
  rw [ofMembers, List.mem_mergeSort, List.mem_map]

theorem mem_uris : uri ∈ (ofMembers ms store).uris ↔ ∃ m ∈ ms, m.uri = uri := by
  simp only [uris, List.mem_map, mem_targets]
  constructor
  · rintro ⟨t, ⟨m, hm, rfl⟩, rfl⟩
    exact ⟨m, hm, rfl⟩
  · rintro ⟨m, hm, rfl⟩
    exact ⟨m.target, ⟨m, hm, rfl⟩, rfl⟩

theorem contains_iff :
    (ofMembers ms store).Contains uri file ↔ ∃ m, named ms uri = some m ∧ file ∈ m.files := by
  simp only [Contains, get?_files, Option.map_eq_some_iff]
  constructor
  · rintro ⟨files, ⟨m, hm, rfl⟩, hf⟩
    exact ⟨m, hm, hf⟩
  · rintro ⟨m, hm, hf⟩
    exact ⟨m.files, ⟨m, hm, rfl⟩, hf⟩

def Lists (sets : Table Names) (file uri : String) : Prop :=
  ∃ targets, sets.get? file = some targets ∧ uri ∈ targets.keys

theorem lists_update (sets : Table Names) (file uri file' uri' : String) :
    Lists (sets.update file .empty (·.add uri)) file' uri' ↔
      Lists sets file' uri' ∨ file' = file ∧ uri' = uri := by
  unfold Lists
  rw [Table.get?_update]
  by_cases hf : file' = file
  · subst hf
    rw [if_pos rfl]
    simp only [Option.some.injEq, exists_eq_left', Names.mem_add, true_and]
    cases sets.get? file' with
    | none => simp [Table.empty, Table.keys]
    | some targets => simp [or_comm]
  · simp [hf]

def listAll (sets : Table Names) (pairs : List (String × String)) : Table Names :=
  pairs.foldl (fun t p => t.update p.1 .empty (·.add p.2)) sets

theorem lists_listAll (sets : Table Names) (pairs : List (String × String)) :
    Lists (listAll sets pairs) file uri ↔ Lists sets file uri ∨ (file, uri) ∈ pairs := by
  induction pairs generalizing sets with
  | nil => simp [listAll]
  | cons p pairs ih =>
    rw [listAll, List.foldl_cons, ← listAll, ih, lists_update, List.mem_cons, or_assoc, Prod.ext_iff]

theorem ne_nil_listAll {sets : Table Names} (pairs : List (String × String))
    (h : ∀ targets, sets.get? file = some targets → targets.keys ≠ []) {targets : Names}
    (ht : (listAll sets pairs).get? file = some targets) : targets.keys ≠ [] := by
  induction pairs generalizing sets with
  | nil => exact h targets ht
  | cons p pairs ih =>
    rw [listAll, List.foldl_cons, ← listAll] at ht
    refine ih (fun targets hu => ?_) ht
    rw [Table.get?_update] at hu
    split at hu
    · obtain rfl := Option.some.inj hu
      exact List.ne_nil_of_mem (Names.mem_add.2 (.inl rfl))
    · exact h targets hu

def listings (ms : List Member) : List (String × String) :=
  ms.flatMap fun m => m.files.map fun file => (file, m.uri)

theorem mem_listings : (file, uri) ∈ listings ms ↔ ∃ m ∈ ms, file ∈ m.files ∧ m.uri = uri := by
  simp only [listings, List.mem_flatMap, List.mem_map, Prod.mk.injEq]
  constructor
  · rintro ⟨m, hm, _, hf, rfl, hu⟩
    exact ⟨m, hm, hf, hu⟩
  · rintro ⟨m, hm, hf, hu⟩
    exact ⟨m, hm, file, hf, rfl, hu⟩

theorem targetsByFileOf_eq (ms : List Member) :
    targetsByFileOf ms = (listAll .empty (listings ms)).map fun _ uris => uris.keys := by
  simp only [targetsByFileOf, listAll, listings, List.foldl_flatMap, List.foldl_map]

theorem get?_targetsByFileOf {targets : List String}
    (h : (targetsByFileOf ms).get? file = some targets) :
    targets ≠ [] ∧ targets.Pairwise (· < ·) ∧
      ∀ uri ∈ targets, ∃ m ∈ ms, file ∈ m.files ∧ m.uri = uri := by
  rw [targetsByFileOf_eq, Table.get?_map, Option.map_eq_some_iff] at h
  obtain ⟨names, hnames, rfl⟩ := h
  refine ⟨ne_nil_listAll _ (by simp) hnames, names.keys_increasing, fun uri huri => ?_⟩
  have hlists : Lists (listAll .empty (listings ms)) file uri := ⟨names, hnames, huri⟩
  rw [lists_listAll, mem_listings] at hlists
  apply hlists.resolve_left
  rintro ⟨_, hempty, -⟩
  cases hempty

theorem mem_targetsByFileOf {m : Member} (hm : m ∈ ms) (hf : file ∈ m.files) :
    ∃ targets, (targetsByFileOf ms).get? file = some targets ∧ m.uri ∈ targets := by
  have hlists : Lists (listAll .empty (listings ms)) file m.uri :=
    (lists_listAll _ _).2 (.inr (mem_listings.2 ⟨m, hm, hf, rfl⟩))
  obtain ⟨names, hnames, huri⟩ := hlists
  exact ⟨names.keys, by rw [targetsByFileOf_eq, Table.get?_map, hnames]; rfl, huri⟩

theorem get?_optionsByFileOf {options : Table (Table CompilerOptions)} {o : CompilerOptions}
    (h : (optionsByFileOf options).get? file = some o) :
    ∃ uri table, options.get? uri = some table ∧ table.get? file = some o ∧
      ∀ uri' table', options.get? uri' = some table' → file ∈ table'.keys → uri ≤ uri' := by
  rw [optionsByFileOf, Table.get?_foldl_union, Table.get?_empty, Option.none_or, Table.values,
    List.findSome?_map, List.findSome?_eq_some_iff] at h
  obtain ⟨before, e, after, hsplit, he, hbefore⟩ := h
  have hmem : e ∈ options.entries := by simp [hsplit]
  refine ⟨e.1, e.2, Table.mem_entries.1 hmem, he, fun uri' table' h' hfile => ?_⟩
  have hmem' := Table.mem_entries.2 h'
  have hordered := options.ordered
  rw [hsplit] at hmem' hordered
  rcases List.mem_append.1 hmem' with hb | hb
  · obtain ⟨o', ho'⟩ := Table.mem_keys.1 hfile
    have hnone := hbefore _ hb
    simp [ho'] at hnone
  · rcases List.mem_cons.1 hb with rfl | ha
    · exact String.le_refl _
    · have hlt := (List.pairwise_cons.1 (List.pairwise_append.1 hordered).2.1).1 _ ha
      exact String.not_lt.1 (String.lt_asymm hlt)

theorem mem_optionsByFileOf {options : Table (Table CompilerOptions)} :
    file ∈ (optionsByFileOf options).keys ↔ ∃ uri table, options.get? uri = some table ∧ file ∈ table.keys := by
  constructor
  · intro h
    obtain ⟨o, ho⟩ := Table.mem_keys.1 h
    obtain ⟨uri, table, hu, ht, -⟩ := get?_optionsByFileOf ho
    exact ⟨uri, table, hu, Table.mem_keys.2 ⟨o, ht⟩⟩
  · rintro ⟨uri, table, hu, ht⟩
    obtain ⟨o, ho⟩ := Table.mem_keys.1 ht
    rw [Table.mem_keys, optionsByFileOf, Table.get?_foldl_union, Table.get?_empty, Option.none_or,
      ← Option.isSome_iff_exists, List.findSome?_isSome_iff]
    exact ⟨table, Table.mem_values.2 ⟨uri, hu⟩, by rw [ho]; rfl⟩

theorem sorted_targets (ms : List Member) (store : Option String) :
    (ofMembers ms store).targets.Pairwise (·.uri ≤ ·.uri) := by
  have htrans (s t u : BuildTarget) (h : decide (s.uri ≤ t.uri) = true) (h' : decide (t.uri ≤ u.uri) = true) :
      decide (s.uri ≤ u.uri) = true :=
    decide_eq_true (String.le_trans (of_decide_eq_true h) (of_decide_eq_true h'))
  have htotal (s t : BuildTarget) : (decide (s.uri ≤ t.uri) || decide (t.uri ≤ s.uri)) = true := by
    simpa using String.le_total s.uri t.uri
  exact (List.pairwise_mergeSort htrans htotal (ms.map Member.target)).imp of_decide_eq_true

theorem contains_iff_options : (ofMembers ms store).Contains uri file ↔
    ∃ table, (ofMembers ms store).options.get? uri = some table ∧ file ∈ table.keys := by
  simp only [contains_iff, get?_options, Option.map_eq_some_iff]
  constructor
  · rintro ⟨m, hm, hf⟩
    exact ⟨m.options, ⟨m, hm, rfl⟩, hf⟩
  · rintro ⟨table, ⟨m, hm, rfl⟩, hf⟩
    exact ⟨m, hm, hf⟩

theorem mem_optionsByFile : file ∈ (ofMembers ms store).optionsByFile.keys ↔
    ∃ uri, (ofMembers ms store).Contains uri file := by
  simp only [contains_iff_options]
  exact mem_optionsByFileOf

theorem member_of_options {table : Table CompilerOptions}
    (h : (ofMembers ms store).options.get? uri = some table) : ∃ m ∈ ms, m.options = table := by
  rw [get?_options, Option.map_eq_some_iff] at h
  obtain ⟨m, hm, rfl⟩ := h
  exact ⟨m, (mem_of_named hm).1, rfl⟩

theorem member_of_isKey (h : (ofMembers ms store).IsKey file) :
    ∃ m ∈ ms, ∃ o, m.options.get? file = some o := by
  have ofOptions {uri : String} {table : Table CompilerOptions}
      (ht : (ofMembers ms store).options.get? uri = some table) (hf : file ∈ table.keys) :
      ∃ m ∈ ms, ∃ o, m.options.get? file = some o := by
    obtain ⟨m, hm, rfl⟩ := member_of_options ht
    exact ⟨m, hm, Table.mem_keys.1 hf⟩
  rcases h with ⟨uri, hc⟩ | ⟨uri, table, ht, hf⟩ | hf | hf
  · obtain ⟨table, ht, hf⟩ := contains_iff_options.1 hc
    exact ofOptions ht hf
  · exact ofOptions ht hf
  · obtain ⟨targets, ht⟩ := Table.mem_keys.1 hf
    obtain ⟨hne, -, hmem⟩ := get?_targetsByFileOf ht
    obtain ⟨uri, huri⟩ := List.exists_mem_of_ne_nil targets hne
    obtain ⟨m, hm, hf, -⟩ := hmem uri huri
    exact ⟨m, hm, Table.mem_keys.1 hf⟩
  · obtain ⟨uri, table, ht, hf⟩ := mem_optionsByFileOf.1 hf
    exact ofOptions ht hf

theorem member_of_keeps {o : CompilerOptions} (h : (ofMembers ms store).Keeps o) :
    ∃ m ∈ ms, ∃ file, m.options.get? file = some o := by
  rcases h with ⟨uri, table, ht, ho⟩ | ho
  · obtain ⟨m, hm, rfl⟩ := member_of_options ht
    exact ⟨m, hm, Table.mem_values.1 ho⟩
  · obtain ⟨file, hf⟩ := Table.mem_values.1 ho
    obtain ⟨uri, table, ht, ho, -⟩ := get?_optionsByFileOf hf
    change (ofMembers ms store).options.get? uri = some table at ht
    obtain ⟨m, hm, rfl⟩ := member_of_options ht
    exact ⟨m, hm, file, ho⟩

theorem consistent_ofMembers (h : Coherent ms) (store : Option String) :
    (ofMembers ms store).Consistent where
  sorted := sorted_targets ms store
  files_keys uri := by
    simp only [Table.mem_keys, mem_uris, get?_files, Option.map_eq_some_iff, ← named_iff]
    constructor
    · rintro ⟨_, m, hm, -⟩
      exact ⟨m, hm⟩
    · rintro ⟨m, hm⟩
      exact ⟨_, m, hm, rfl⟩
  options_keys uri := by
    simp only [Table.mem_keys, mem_uris, get?_options, Option.map_eq_some_iff, ← named_iff]
    constructor
    · rintro ⟨_, m, hm, -⟩
      exact ⟨m, hm⟩
    · rintro ⟨m, hm⟩
      exact ⟨_, m, hm, rfl⟩
  dependencies t ht uri huri := by
    obtain ⟨m, hm, rfl⟩ := mem_targets.1 ht
    exact mem_uris.2 (h.dependencies m hm uri huri)
  files uri files hf := by
    rw [get?_files, Option.map_eq_some_iff] at hf
    obtain ⟨m, hm, rfl⟩ := hf
    exact ⟨m.options.keys_increasing, m.options, by rw [get?_options, hm]; rfl, rfl⟩
  indexed uri file hc := by
    obtain ⟨m, hm, hf⟩ := contains_iff.1 hc
    obtain ⟨hmem, rfl⟩ := mem_of_named hm
    exact mem_targetsByFileOf hmem hf
  index file targets ht := by
    obtain ⟨hne, hincreasing, hmem⟩ := get?_targetsByFileOf ht
    refine ⟨hne, hincreasing, fun uri huri => mem_uris.2 ?_⟩
    obtain ⟨m, hm, -, hu⟩ := hmem uri huri
    exact ⟨m, hm, hu⟩
  optionsByFile_keys _ := mem_optionsByFile
  optionsByFile file o ho := by
    obtain ⟨uri, table, ht, ho, hleast⟩ := get?_optionsByFileOf ho
    refine ⟨uri, table, ht, ho, fun uri' hc => ?_⟩
    obtain ⟨table', ht', hf⟩ := contains_iff_options.1 hc
    exact hleast uri' table' ht' hf
  normal file hkey := by
    obtain ⟨m, hm, o, ho⟩ := member_of_isKey hkey
    exact (h.normal m hm file o ho).1
  derived o hkeeps := by
    obtain ⟨m, hm, file, ho⟩ := member_of_keeps hkeeps
    exact (h.normal m hm file o ho).2

end Snapshot

namespace Attempt

theorem ensures_members (project : String) (cached : Bool) (scheme : String) :
    Ensures Coherent (members project cached scheme) := by
  refine (ensures_of_forall _ fun _ => trivial).bind fun settings _ => ?_
  refine (ensures_of_forall _ fun _ => trivial).bind fun files _ => ?_
  exact ensures_pure (Coherent.ofScheme project scheme settings files.present)

theorem ensures_snapshot (project : String) (active : List String) (cached : Bool) :
    Ensures Snapshot.Consistent (snapshot project active cached) := by
  refine (ensures_of_forall _ fun _ => trivial).bind fun schemes _ => ?_
  apply (ensures_mapM (ensures_members project cached) schemes).bind
  intro groups hgroups
  have consistent := Snapshot.consistent_ofMembers (Coherent.flatten hgroups)
  dsimp only
  split
  · exact ensures_pure (consistent _)
  · exact (ensures_of_forall _ fun _ => trivial).bind fun store _ => ensures_pure (consistent store)

end Attempt

theorem Service.ensures_refresh (service : Service) (cached : Bool) :
    (service.refresh cached).Ensures fun result => ∀ r, result = .ok r → r.snapshot.Consistent := by
  intro _
  change ((Program.inquire (Attempt.snapshot service.project service.active cached).run).bind _).Ensures _
  apply (Dialogue.Ensures.via (Attempt.ensures_snapshot _ _ cached)).bind
  intro result consistent
  cases result with
  | error e => rintro _ _ ⟨⟩
  | ok new =>
    rintro _ _ _ ⟨⟩
    exact consistent new rfl

theorem Service.consistent_of_refresh {κ : Type} {client : Client κ} {service : Service} {cached : Bool}
    {s s' : Shared κ} {r : Refresh} (h : s.run client (service.refresh cached) = some (.ok r, s')) :
    r.snapshot.Consistent :=
  (service.ensures_refresh cached).runIfAnswered h r rfl

/-- Whatever the build tool answers, the indices of the snapshot that a refresh builds agree with each
other. -/
theorem refreshed_snapshot_consistent {κ : Type} {client : Client κ} {service : Service} {cached : Bool}
    {s s' : Shared κ} {r : Refresh}
    (refreshed : s.run client (service.refresh cached) = some (.ok r, s')) : r.snapshot.Consistent :=
  (service.ensures_refresh cached).runIfAnswered refreshed r rfl

def appClient : Client Unit where
  answer c k :=
    match c with
    | .list _ => (.ok ⟨some ⟨"App", ["App"], []⟩, none⟩, k)
    | .index _ _ =>
      let app : Table FileSettings :=
        .ofList [("/p/A.swift", ⟨some ["-c"], none, none⟩), ("/p/./A.swift", ⟨some ["-g"], none, none⟩)]
      let tests : Table FileSettings :=
        .ofList [("/p/T.swift", ⟨some ["-working-directory", "/p"], none, none⟩)]
      (.ok (.ofList [("App", app), ("AppTests", tests)]), k)
    | .settings _ _ => (.ok [], k)
    | .warmup _ => (.ok (), k)
  view _ := ⟨fun _ => false, id⟩

def appService : Service :=
  { project := "App", active := [], cacheDir := "/cache", optionsChanged := false
    trigger := fun reason => Program.act (.requestRefresh reason) }

theorem app_snapshot_consistent :
    ∃ r s', Shared.run appClient (appService.refresh true) (.initial () (.memory .empty)) =
        some (.ok r, s') ∧
      r.snapshot.optionsByFile.keys = ["/p/A.swift", "/p/T.swift"] ∧ r.snapshot.Consistent := by
  have hkeys : (Shared.run appClient (appService.refresh true) (.initial () (.memory .empty))).bind
      (fun x => x.1.toOption.map fun r => r.snapshot.optionsByFile.keys) =
        some ["/p/A.swift", "/p/T.swift"] := by
    decide +kernel
  obtain ⟨⟨result, s'⟩, hrun, hresult⟩ := Option.bind_eq_some_iff.1 hkeys
  cases result with
  | error e => cases hresult
  | ok r => exact ⟨r, s', hrun, Option.some.inj hresult, refreshed_snapshot_consistent hrun⟩

end BuildServer
