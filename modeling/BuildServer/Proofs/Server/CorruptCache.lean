import BuildServer.Proofs.Graph.Corruption
import BuildServer.Proofs.Graph.Failures

/-!
Refreshes over a cache directory with corrupt files.
-/

namespace BuildServer

namespace Service

variable {b : Builder} {service : Service} {cached : Bool} {site : Site} {removed : List Location}

def Harmless (b : Builder) (service : Service) (cached : Bool) (site : Site) (removed : List Location) : Prop :=
  ∀ xs site', (Attempt.reports service.active cached).run.run b.client.probe site = (.ok xs, site') →
    ∀ x ∈ xs, ∀ sdk, x.SdkPath sdk → ∀ l ∈ removed, site.files.locate sdk ≠ .ok l

theorem built_without (plain : b.Plain site.files) (constant : b.Constant)
    (corrupt : ∀ l ∈ removed, b.CorruptAt site l) (harmless : service.Harmless b cached site removed) :
    (service.built b.client cached site).1.toOption =
      (service.built b.client cached (site.without removed)).1.toOption := by
  cases removed with
  | nil => rfl
  | cons l rest =>
    have ready : b.Ready site.files := plain.ready (corrupt l List.mem_cons_self)
    refine Builder.parallel_snapshot ready constant (fun l' hl => ?_) (plain.alike corrupt) service.project
      harmless
    obtain ⟨k, -, ⟨n, hn, -⟩, -⟩ := corrupt l' hl
    rw [hn]
    rfl

/-- Without its corrupt cache files a refresh comes to the same snapshot and changes, or fails as well, if the
tool goes by its arguments alone, no cache file is a link and none of the removed files is named for the SDK.
And it only fails if the tool could not be started or did not run well. -/
theorem refresh_with_corrupt_files (b : Builder) (service : Service) (cached : Bool) (s : Shared Site)
    (free : s.refreshing = false) :
    ∃ result s', s.run b.client (service.refresh cached) = some (result, s') ∧
      (∀ removed : List Location, (∀ l ∈ removed, b.CorruptAt s.site l) → b.Plain s.site.files → b.Constant →
        service.Harmless b cached s.site removed →
        ∃ result' s'',
          { s with site := s.site.without removed }.run b.client (service.refresh cached) =
            some (result', s'') ∧
          result.toOption = result'.toOption) ∧
      ((∀ shown e, result ≠ .error (.launch shown e)) →
        (∀ k earlier, s.site.runs <:+ earlier → k.arguments :: earlier <:+ s'.site.runs →
          b.RunsWell k earlier) →
        ∃ r, result = .ok r) := by
  obtain ⟨result, s', hrun⟩ := exists_refresh b.client service cached free
  refine ⟨result, s', hrun, fun removed corrupt plain constant harmless => ?_, fun started well => ?_⟩
  · obtain ⟨result', s'', hrun'⟩ := exists_refresh (s := { s with site := s.site.without removed })
      b.client service cached free
    refine ⟨result', s'', hrun', ?_⟩
    rw [toOption_of_refresh hrun, toOption_of_refresh hrun', built_without plain constant corrupt harmless]
  · obtain ⟨e, site, hbuilt, rfl, rfl⟩ | ⟨new, site, -, rfl, -⟩ := refresh_cases hrun
    · cases Builder.blames_snapshot b service.project service.active cached s.site e site hbuilt with
      | start shown e => exact absurd rfl (started shown e)
      | run k earlier since upTo badly => exact absurd (well k earlier since upTo) badly
    · exact ⟨_, rfl⟩

section Reporting

def reporting (text : String → String) : Builder where
  tool := ⟨true, fun _ arguments =>
    let printed := match arguments[1]? with
      | some "-showBuildSettingsForIndex" => text (arguments[3]?.getD "")
      | some "-showBuildSettings" => "[]"
      | _ => "\x7b\x7d"
    ⟨Utf8.encode printed, [], .exited 0⟩⟩
  root := "/p"
  cacheDir := "/c"

def cacheSite (entries : List (Location × Node)) : Shared Site :=
  .initial ⟨⟨(["p"], .directory 0o755) :: (["c"], .directory 0o755) :: entries, []⟩, .empty, []⟩ (.memory .empty)

def garbled (name : String) : Location × Node := (["c", name], .file (Utf8.encode "\x7b") 0o644)

variable {entries : List (Location × Node)} {name : String} {l : Location} {n : Node}

theorem mem_of_node? (h : (cacheSite entries).site.files.node? l = some n) :
    (∃ mode, n = .directory mode) ∨ (l, n) ∈ entries := by
  rw [Files.node?] at h
  split at h
  · exact .inl ⟨_, (Option.some.inj h).symm⟩
  · obtain ⟨before, after, hnodes, -⟩ := List.lookup_eq_some_iff.mp h
    have hmem : (l, n) ∈ (cacheSite entries).site.files.nodes := hnodes ▸ by simp
    rcases List.mem_cons.mp hmem with h | hmem
    · exact .inl ⟨_, (Prod.mk.inj h).2⟩
    · rcases List.mem_cons.mp hmem with h | hmem
      · exact .inl ⟨_, (Prod.mk.inj h).2⟩
      · exact .inr hmem

theorem plain_garbled (b : Builder) : b.Plain (cacheSite [garbled name]).site.files := by
  intro k slot _ target htarget
  rcases mem_of_node? htarget with ⟨mode, hmode⟩ | hmem
  · cases hmode
  · cases (Prod.mk.inj (List.mem_singleton.mp hmem)).2

theorem output_settings (text : String → String) (earlier : List (List String)) (scheme : String) :
    ((reporting text).tool.run earlier (CacheKey.settings scheme).arguments).output = Utf8.encode "[]" := by
  simp [reporting, CacheKey.arguments, CacheKey.shown]

theorem output_index (text : String → String) (earlier : List (List String)) (scheme : String) :
    ((reporting text).tool.run earlier (CacheKey.index scheme).arguments).output =
      Utf8.encode (text scheme) := by
  simp [reporting, CacheKey.arguments, CacheKey.shown]

theorem file_reporting (text : String → String) (k : CacheKey) : (reporting text).file k = (reporting id).file k := by
  cases k <;> rfl

theorem indexFile_app : (reporting id).file (.index "App") =
    "/c/p-00d74baf14ea-App-0d04bfeb-settingsForIndex.json" := by
  decide +kernel

theorem corruptAt_reporting {text : String → String} {k : CacheKey} {path : String}
    (hfile : (reporting id).file k = path) (hslot : site.files.slot path = .ok (some ⟨l, false⟩))
    (hn : site.files.node? l = some n) (hdir : ∀ mode, n ≠ .directory mode)
    (hsaved : (Builder.readCache path site).bind (fun data => (decodeText k.reader data).toOption) = none) :
    (reporting text).CorruptAt site l := by
  rw [← hfile, ← file_reporting text] at hslot hsaved
  exact ⟨k, hslot, ⟨n, hn, hdir⟩, hsaved⟩

def cutOff : Shared Site := cacheSite [garbled "p-00d74baf14ea-App-0d04bfeb-settingsForIndex.json"]

def compiled (_ : String) : String :=
  "\x7b\"App\":\x7b\"/p/A.swift\":\x7b\"swiftASTCommandArguments\":[\"-c\"]\x7d\x7d\x7d"

theorem runsWell_compiled (k : CacheKey) (earlier : List (List String)) :
    (reporting compiled).RunsWell k earlier := by
  have decodes {α : Type} {r : Json.Reader α} {data : Bytes} (h : (decodeText r data).toOption.isSome) :
      ∃ v, decodeText r data = .ok v := by
    obtain ⟨v, hv⟩ := Option.isSome_iff_exists.mp h
    exact ⟨v, Builder.toOption_eq_some_iff.mp hv⟩
  have hlist : (decodeText Listing.shape.read (Utf8.encode "\x7b\x7d")).toOption.isSome := by decide +kernel
  have hsettings : (decodeText SchemeSettings.reader (Utf8.encode "[]")).toOption.isSome := by decide +kernel
  have hindex : (decodeText IndexSettings.reader (Utf8.encode (compiled ""))).toOption.isSome := by decide +kernel
  refine ⟨rfl, ?_⟩
  cases k with
  | list => exact decodes hlist
  | settings scheme =>
    rw [output_settings]
    exact decodes hsettings
  | index scheme =>
    rw [output_index]
    exact decodes hindex

theorem harmless_of_no_sdk
    (h : ∀ xs ∈ ((Attempt.reports service.active cached).run.run b.client.probe site).1.toOption,
      ∀ x ∈ xs, ∀ files ∈ x.settings.values, ∀ s ∈ files.values,
        Arguments.sdk ∉ Arguments.dropLocalized (s.arguments.filter (· != Arguments.parseableOutput))) :
    service.Harmless b cached site removed := by
  rintro xs site' hxs x hx sdk ⟨name, files, path, s, hname, hpath, hsdk⟩
  refine absurd (hsdk.subset List.mem_cons_self) (h xs ?_ x hx files (Table.mem_values.mpr ⟨name, hname⟩) s
    (Table.mem_values.mpr ⟨path, hpath⟩))
  rw [hxs]
  exact rfl

theorem refresh_over_a_cut_off_file : ∃ r s' s'',
    cutOff.run (reporting compiled).client ({ appService with active := ["App"] }.refresh true) =
      some (.ok r, s') ∧
    { cutOff with site := cutOff.site.without [["c", "p-00d74baf14ea-App-0d04bfeb-settingsForIndex.json"]] }.run
      (reporting compiled).client ({ appService with active := ["App"] }.refresh true) = some (.ok r, s'') := by
  have corrupt : (reporting compiled).CorruptAt cutOff.site
      ["c", "p-00d74baf14ea-App-0d04bfeb-settingsForIndex.json"] :=
    corruptAt_reporting indexFile_app (by decide +kernel) rfl (by simp) (by decide +kernel)
  have harmless : { appService with active := ["App"] }.Harmless (reporting compiled) true cutOff.site
      [["c", "p-00d74baf14ea-App-0d04bfeb-settingsForIndex.json"]] :=
    harmless_of_no_sdk (by decide +kernel)
  obtain ⟨result, s', hrun, same, succeeds⟩ :=
    refresh_with_corrupt_files (reporting compiled) { appService with active := ["App"] } true cutOff rfl
  have started : ∀ shown e, result ≠ .error (.launch shown e) := by
    have hstarted : (cutOff.run (reporting compiled).client
        ({ appService with active := ["App"] }.refresh true)).all (fun x => match x.1 with
          | .error (.launch _ _) => false
          | _ => true) = true := by decide +kernel
    rintro shown e rfl
    rw [hrun] at hstarted
    cases hstarted
  obtain ⟨r, rfl⟩ := succeeds started fun k earlier _ _ => runsWell_compiled k earlier
  obtain ⟨result', s'', hrun', hresult⟩ := same _ (fun l hl => List.mem_singleton.mp hl ▸ corrupt)
    (plain_garbled _) (fun _ _ => rfl) harmless
  obtain rfl := Builder.toOption_eq_some_iff.mp hresult.symm
  exact ⟨r, s', s'', hrun, hrun'⟩

/-- Between a first refresh, and one without the corrupt cache files, which are the ones given, there is a
difference. -/
def Differs (b : Builder) (active : List String) (s : Shared Site) (removed : List Location) : Prop :=
  b.Constant ∧ s.refreshing = false ∧ s.site.memory = .empty ∧
    (∀ l, b.CorruptAt s.site l ↔ l ∈ removed) ∧
    ∃ r r' s' s'', s.run b.client ({ appService with active }.refresh true) = some (.ok r, s') ∧
      { s with site := s.site.without removed }.run b.client ({ appService with active }.refresh true) =
        some (.ok r', s'') ∧
      r ≠ r'

theorem differs_of_options (entries : List (Location × Node)) {active : List String} (constant : b.Constant)
    (corrupt : ∀ l ∈ entries.map Prod.fst, b.CorruptAt (cacheSite entries).site l)
    (options : ∃ x ∈ { appService with active }.refreshed? b.client true (cacheSite entries),
      ∃ y ∈ { appService with active }.refreshed? b.client true
          { cacheSite entries with site := (cacheSite entries).site.without (entries.map Prod.fst) },
        x.1.snapshot.optionsByFile ≠ y.1.snapshot.optionsByFile) :
    Differs b active (cacheSite entries) (entries.map Prod.fst) := by
  obtain ⟨⟨r, s'⟩, hrun, ⟨r', s''⟩, hrun', hne⟩ := options
  refine ⟨constant, rfl, rfl, fun l => ⟨?_, corrupt l⟩, r, r', s', s'', run_of_refreshed? hrun,
    run_of_refreshed? hrun', ?_⟩
  · rintro ⟨-, -, ⟨n, hn, hdir⟩, -⟩
    rcases mem_of_node? hn with ⟨mode, hmode⟩ | hmem
    · exact absurd hmode (hdir mode)
    · exact List.mem_map.mpr ⟨(l, n), hmem, rfl⟩
  · rintro rfl
    exact hne rfl

def sdkText (_ : String) : String :=
  "\x7b\"App\":\x7b\"/p/A.swift\":\x7b\"swiftASTCommandArguments\":[\"-sdk\"," ++
    "\"/c/p-00d74baf14ea-App-0d04bfeb-settings.json\",\"-index-store-path\",\"/d\"]\x7d\x7d\x7d"

def ownText (scheme : String) : String :=
  "\x7b\"" ++ scheme ++ "\":\x7b\"/p/" ++ scheme ++
    ".swift\":\x7b\"swiftASTCommandArguments\":[\"-index-store-path\",\"/d\"]\x7d\x7d\x7d"

def linkedFiles : List (Location × Node) :=
  [garbled "p-00d74baf14ea-Lib-8b737b68-settingsForIndex.json",
    (["c", "p-00d74baf14ea-App-0d04bfeb-settingsForIndex.json"],
      .link "/c/p-00d74baf14ea-Lib-8b737b68-settingsForIndex.json")]

theorem corrupt_files_make_a_difference :
    Differs (reporting sdkText) ["App"] (cacheSite [garbled "p-00d74baf14ea-App-0d04bfeb-settings.json"])
      [["c", "p-00d74baf14ea-App-0d04bfeb-settings.json"]] ∧
    Differs (reporting ownText) ["Lib", "App"] (cacheSite linkedFiles)
      [["c", "p-00d74baf14ea-Lib-8b737b68-settingsForIndex.json"],
        ["c", "p-00d74baf14ea-App-0d04bfeb-settingsForIndex.json"]] := by
  constructor
  · refine differs_of_options [_] (fun _ _ => rfl) (List.forall_mem_singleton.mpr ?_) (by decide +kernel)
    have hfile : (reporting id).file (.settings "App") = "/c/p-00d74baf14ea-App-0d04bfeb-settings.json" := by
      decide +kernel
    exact corruptAt_reporting hfile (by decide +kernel) rfl (by simp) (by decide +kernel)
  · refine differs_of_options linkedFiles (fun _ _ => rfl)
      (List.forall_mem_cons.mpr ⟨?_, List.forall_mem_singleton.mpr ?_⟩) (by decide +kernel)
    · have hfile : (reporting id).file (.index "Lib") =
          "/c/p-00d74baf14ea-Lib-8b737b68-settingsForIndex.json" := by
        decide +kernel
      exact corruptAt_reporting hfile (by decide +kernel) rfl (by simp) (by decide +kernel)
    · exact corruptAt_reporting indexFile_app (by decide +kernel) rfl (by simp) (by decide +kernel)

end Reporting

end Service

end BuildServer
