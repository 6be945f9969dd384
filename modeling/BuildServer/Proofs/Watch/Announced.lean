import BuildServer.Proofs.Path.Resolved
import BuildServer.Proofs.Watch.Relevance

namespace BuildServer

namespace Watch

theorem isRelevant_iff_relevantName {path uri name : String} (habsolute : Path.isAbsolute path = true)
    (hname : Path.fileName? path = some name) (houtside : ¬BelowProducts path)
    (huri : FileUri.ofPath? path = some uri ∨ FileUri.path? uri = some path) :
    isRelevant uri = true ↔ RelevantName path := by
  obtain ⟨ps, hparts⟩ := Path.fileName?_eq_some_iff.mp hname
  obtain ⟨named, qs, hnamed, hqs, hfrom⟩ : ∃ named qs, FileUri.path? uri = some named ∧
      Path.parts (Path.normalize named) = qs ++ [.name name] ∧ ∀ p ∈ qs, p ∈ ps := by
    rcases huri with huri | huri
    · exact FileUri.path?_of_snoc habsolute hparts huri
    · obtain ⟨qs, hqs⟩ := Path.parts_normalize_of_snoc hparts
      exact ⟨path, qs, huri, hqs⟩
  have hsame : Path.extension? (Path.normalize named) = Path.extension? path :=
    Path.extension?_congr (by rw [hname, Path.fileName?_eq_some_iff.mpr ⟨qs, hqs⟩])
  have houtside' : ¬BelowProducts (Path.normalize named) := by
    rintro ⟨p, hp, hproduct⟩
    rw [hqs, List.dropLast_concat] at hp
    exact houtside ⟨p, by rw [hparts, List.dropLast_concat]; exact hfrom p hp, hproduct⟩
  rw [isRelevant_iff]
  simp only [hnamed, Option.some.injEq, forall_eq', RelevantName, hsame, houtside', not_false_eq_true,
    true_and]

theorem sameAscii_of_alike {ignoreCase : Bool} {s t : String}
    (h : Glob.Alike ignoreCase t.toList s.toList) : sameAscii s t = true := by
  cases ignoreCase with
  | true => exact alike_iff.mp h
  | false =>
    have hfold : Glob.fold false = id := rfl
    rw [Glob.Alike, hfold, List.map_id, List.map_id] at h
    rw [sameAscii_iff, h]

theorem globs_cases : ∀ pattern ∈ globs, pattern = ".bsp/xcode-bsp.json" ∨
    (pattern ≠ ".bsp/xcode-bsp.json" ∧ ∃ x ∈ relevantExtensions, ∃ text ∈ [[], ".xcodeproj/project".toList],
      Glob.tokens pattern = .directories :: .star :: (text ++ '.' :: x.toList).map .char) := by
  decide

theorem extensions_plain : ∀ x ∈ relevantExtensions, x.toList ≠ [] ∧ '/' ∉ x.toList := by
  decide

theorem tokens_configuration : Glob.tokens ".bsp/xcode-bsp.json" =
    (".bsp".toList ++ '/' :: ("xcode-bsp".toList ++ '.' :: "json".toList)).map .char := by
  decide

theorem json_irrelevant : ∀ x ∈ relevantExtensions, sameAscii "json" x = false := by
  decide

section

variable {ignoreCase : Bool} {path : String} {before e : List Char}

theorem relevantName_iff_of_dot {init : List (List Char)} {stem : List Char}
    (hpath : path.toList = before ++ '.' :: e) (hbefore : pieces '/' before = init ++ [stem]) (hne : e ≠ [])
    (hslash : '/' ∉ e) (hdot : '.' ∉ e) : RelevantName path ↔
      (stem ≠ [] → ∃ x ∈ relevantExtensions, sameAscii (String.ofList e) x = true) := by
  rw [RelevantName]
  simp only [Path.extension?_of_dot hpath hbefore hne hslash hdot]
  constructor
  · intro h hstem
    exact h (String.ofList e) ⟨String.toList_ofList, hstem⟩
  · rintro h e' ⟨rfl, hstem⟩
    rw [← String.ofList_toList (s := e')]
    exact h hstem

theorem relevantName_of_dot {x : String} (hx : x ∈ relevantExtensions)
    (hpath : path.toList = before ++ '.' :: e) (halike : Glob.Alike ignoreCase x.toList e) :
    ∃ name, Path.fileName? path = some name ∧ RelevantName path := by
  obtain ⟨hsome, hplain⟩ := extensions_plain x hx
  have hslash : '/' ∉ e := Glob.not_mem_of_alike (by decide) hplain halike
  have hdot : '.' ∉ e := Glob.not_mem_of_alike (by decide) (dot_not_mem_extensions x hx) halike
  have hne : e ≠ [] := by
    rintro rfl
    exact hsome (List.map_eq_nil_iff.mp halike)
  obtain ⟨init, stem, hbefore⟩ : ∃ init stem, pieces '/' before = init ++ [stem] :=
    ⟨_, _, (List.dropLast_concat_getLast (pieces_ne_nil '/' before)).symm⟩
  refine ⟨_, Path.fileName?_of_dot hpath hbefore hne hslash hdot, ?_⟩
  rw [relevantName_iff_of_dot hpath hbefore hne hslash hdot]
  exact fun _ => ⟨x, hx, sameAscii_of_alike (by rwa [String.toList_ofList])⟩

theorem not_relevantName_of_configuration {taken : List Char} (hpath : path.toList = before ++ taken)
    (halike : Glob.Alike ignoreCase
      (".bsp".toList ++ '/' :: ("xcode-bsp".toList ++ '.' :: "json".toList)) taken) :
    ∃ name, Path.fileName? path = some name ∧ ¬RelevantName path := by
  obtain ⟨folder, _, rfl, -, hinside⟩ := Glob.alike_append.mp halike
  obtain ⟨_, rfl, hfile⟩ := (Glob.alike_cons (by decide)).mp hinside
  obtain ⟨stem, _, rfl, hstem, hdotted⟩ := Glob.alike_append.mp hfile
  obtain ⟨e, rfl, he⟩ := (Glob.alike_cons (by decide)).mp hdotted
  have hslash : '/' ∉ e := Glob.not_mem_of_alike (by decide) (by decide) he
  have hdot : '.' ∉ e := Glob.not_mem_of_alike (by decide) (by decide) he
  have hne : e ≠ [] := by
    rintro rfl
    cases he
  have hsome : stem ≠ [] := by
    rintro rfl
    cases hstem
  have hcut : path.toList = (before ++ folder ++ '/' :: stem) ++ '.' :: e := by simp [hpath]
  have hbefore : pieces '/' (before ++ folder ++ '/' :: stem) = pieces '/' (before ++ folder) ++ [stem] :=
    pieces_concat (Glob.not_mem_of_alike (by decide) (by decide) hstem) _
  refine ⟨_, Path.fileName?_of_dot hcut hbefore hne hslash hdot, ?_⟩
  rw [relevantName_iff_of_dot hcut hbefore hne hslash hdot]
  intro hrelevant
  obtain ⟨x, hx, hsame⟩ := hrelevant hsome
  have hjson : sameAscii (String.ofList e) "json" = true :=
    sameAscii_of_alike (by rw [String.toList_ofList (l := e)]; exact he)
  have hirrelevant := json_irrelevant x hx
  rw [sameAscii_iff] at hsame hjson
  rw [Bool.eq_false_iff, ne_eq, sameAscii_iff] at hirrelevant
  exact hirrelevant (hjson.symm.trans hsame)

theorem relevantName_of_covers {pattern below : String} (hpattern : pattern ∈ globs)
    (hcovers : Glob.covers ignoreCase pattern below = true) (hpath : below.toList <:+ path.toList) :
    ∃ name, Path.fileName? path = some name ∧ (RelevantName path ↔ pattern ≠ ".bsp/xcode-bsp.json") := by
  obtain ⟨before, hpath⟩ := hpath
  rw [Glob.covers] at hcovers
  obtain rfl | ⟨hother, x, hx, text, -, htokens⟩ := globs_cases pattern hpattern
  · rw [tokens_configuration, Glob.fits_chars_only] at hcovers
    obtain ⟨name, hname, hrelevant⟩ := not_relevantName_of_configuration hpath.symm hcovers
    exact ⟨name, hname, iff_of_false hrelevant (by simp)⟩
  · rw [htokens, Glob.fits_ending] at hcovers
    obtain ⟨inside, taken, hbelow, halike⟩ := hcovers
    obtain ⟨stem, _, rfl, -, hdotted⟩ := Glob.alike_append.mp halike
    obtain ⟨e, rfl, he⟩ := (Glob.alike_cons (by decide)).mp hdotted
    have hcut : path.toList = (before ++ inside ++ stem) ++ '.' :: e := by simp [← hpath, hbelow]
    obtain ⟨name, hname, hrelevant⟩ := relevantName_of_dot hx hcut he
    exact ⟨name, hname, iff_of_true hrelevant hother⟩

end

/-- A file that one of the patterns covers from the root of the project on, and that is not below build
products, has a URI, and a change of it is relevant under each, unless the pattern is that of the
configuration. -/
theorem announced_files_relevant {root below pattern : String} {ignoreCase : Bool}
    (announced : pattern ∈ globs) (covered : Glob.covers ignoreCase pattern below = true)
    (absolute : Path.isAbsolute (Path.join root below) = true)
    (outside : ¬∃ p ∈ (Path.parts (Path.join root below)).dropLast, ∃ name ∈ productDirectories,
      sameAscii p.text name = true) :
    (∃ uri, FileUri.ofPath? (Path.join root below) = some uri) ∧
    ∀ uri, FileUri.ofPath? (Path.join root below) = some uri ∨
        FileUri.path? uri = some (Path.join root below) →
      (isRelevant uri = true ↔ pattern ≠ ".bsp/xcode-bsp.json") := by
  obtain ⟨name, hname, hrelevant⟩ :=
    relevantName_of_covers announced covered (Path.suffix_join root below)
  obtain ⟨ps, hparts⟩ := Path.fileName?_eq_some_iff.mp hname
  refine ⟨⟨_, FileUri.ofPath?_of_snoc absolute hparts⟩, fun uri huri => ?_⟩
  rw [isRelevant_iff_relevantName absolute hname outside huri]
  exact hrelevant

theorem project_file_relevant :
    Glob.covers false "**/*.xcodeproj/project.pbxproj" "q/../App.xcodeproj/project.pbxproj" = true ∧
      isRelevant "file:///p/q/../App.xcodeproj/project.pbxproj" = true := by
  have covered : Glob.covers false "**/*.xcodeproj/project.pbxproj" "q/../App.xcodeproj/project.pbxproj" =
      true := by decide +kernel
  have absolute : Path.isAbsolute (Path.join "/p" "q/../App.xcodeproj/project.pbxproj") = true := by
    decide +kernel
  have named : FileUri.ofPath? (Path.join "/p" "q/../App.xcodeproj/project.pbxproj") =
      some "file:///p/q/../App.xcodeproj/project.pbxproj" := by decide +kernel
  have relevant := announced_files_relevant (by decide +kernel) covered absolute (by decide +kernel)
  exact ⟨covered, (relevant.2 _ (.inl named)).mpr (by decide)⟩

theorem configuration_change_ignored :
    ".bsp/xcode-bsp.json" ∈ globs ∧
      Glob.covers false ".bsp/xcode-bsp.json" ".bsp/xcode-bsp.json" = true ∧
      ¬BelowProducts (Path.join "/p" ".bsp/xcode-bsp.json") ∧
      FileUri.ofPath? (Path.join "/p" ".bsp/xcode-bsp.json") = some "file:///p/.bsp/xcode-bsp.json" ∧
      isRelevant "file:///p/.bsp/xcode-bsp.json" = false := by
  decide +kernel

end Watch

end BuildServer
