import BuildServer.Watch.Filter
import BuildServer.Proofs.Path.Extension
import BuildServer.Proofs.Watch.Glob

namespace BuildServer

namespace Watch

def productDirectories : List String :=
  [".build", "deriveddata", "modulecache", "index.noindex"]

def BelowProducts (path : String) : Prop :=
  ∃ p ∈ (Path.parts path).dropLast, ∃ name ∈ productDirectories, sameAscii p.text name = true

instance (path : String) : Decidable (BelowProducts path) :=
  inferInstanceAs (Decidable (∃ _ ∈ _, ∃ _ ∈ _, _))

def RelevantName (path : String) : Prop :=
  ∀ e, Path.extension? path = some e → ∃ x ∈ relevantExtensions, sameAscii e x = true

theorem excluded_eq : excluded = productDirectories.map fun name => "**/" ++ name ++ "/**" := by
  decide

theorem tokens_excluded : ∀ name ∈ productDirectories,
    Glob.tokens ("**/" ++ name ++ "/**") = .directories :: (name.toList.map .char ++ [.below]) := by
  decide

theorem tokens_relevantNames : Glob.tokens relevantNames =
    [.star, .char '.', .choice (relevantExtensions.map String.toList)] := by
  decide +kernel

theorem products_plain : ∀ name ∈ productDirectories, name.toList ≠ [] ∧ '/' ∉ name.toList := by
  decide

theorem dot_not_mem_extensions : ∀ x ∈ relevantExtensions, '.' ∉ x.toList := by
  decide

theorem alike_iff {s t : String} : Glob.Alike true t.toList s.toList ↔ sameAscii s t = true := by
  rw [sameAscii_iff, eq_comm]
  rfl

theorem covers_excluded_iff (path : String) {name : String} (hname : name ∈ productDirectories) :
    Glob.covers true ("**/" ++ name ++ "/**") (Path.normalize path) = true ↔
      ∃ p ∈ (Path.parts (Path.normalize path)).dropLast, sameAscii p.text name = true := by
  obtain ⟨hne, hslash⟩ := products_plain name hname
  have hempty : ¬Glob.Alike true name.toList [] := by
    rwa [Glob.Alike, List.map_nil, List.map_eq_nil_iff]
  have hroot : ¬Glob.Alike true name.toList ['/'] := fun h =>
    Glob.not_mem_of_alike (by decide) hslash h List.mem_cons_self
  simp only [← alike_iff]
  rw [Glob.covers, tokens_excluded name hname, Glob.fits_within,
    ← Path.exists_dropLast_pieces path (P := Glob.Alike true name.toList) hempty hroot]
  simp only [mem_dropLast_pieces]
  constructor
  · rintro ⟨before, taken, after, hpath, hbefore, htaken⟩
    exact ⟨taken, ⟨Glob.not_mem_of_alike (by decide) hslash htaken, before, after, hpath, hbefore⟩, htaken⟩
  · rintro ⟨taken, ⟨-, before, after, hpath, hbefore⟩, htaken⟩
    exact ⟨before, taken, after, hpath, hbefore, htaken⟩

theorem excluded_iff (path : String) :
    excluded.any (Glob.covers true · (Path.normalize path)) = true ↔
      BelowProducts (Path.normalize path) := by
  rw [excluded_eq, List.any_map, List.any_eq_true, BelowProducts]
  constructor
  · rintro ⟨name, hname, h⟩
    obtain ⟨p, hp, hsame⟩ := (covers_excluded_iff path hname).mp h
    exact ⟨p, hp, name, hname, hsame⟩
  · rintro ⟨p, hp, name, hname, hsame⟩
    exact ⟨name, hname, (covers_excluded_iff path hname).mpr ⟨p, hp, hsame⟩⟩

theorem covers_relevantNames_iff {stem e : String} (he : '.' ∉ e.toList) :
    Glob.covers true relevantNames (stem ++ "." ++ e) = true ↔
      ∃ x ∈ relevantExtensions, sameAscii e x = true := by
  have htext : (stem ++ "." ++ e).toList = stem.toList ++ '.' :: e.toList := by simp
  simp only [← alike_iff]
  rw [Glob.covers, tokens_relevantNames, Glob.fits_extension, htext]
  constructor
  · rintro ⟨stem', taken, hcut, _, htexts, halike⟩
    obtain ⟨x, hx, rfl⟩ := List.mem_map.mp htexts
    have hdot := Glob.not_mem_of_alike (by decide) (dot_not_mem_extensions x hx) halike
    exact ⟨x, hx, (eq_of_last he hdot hcut).2 ▸ halike⟩
  · rintro ⟨x, hx, halike⟩
    exact ⟨stem.toList, e.toList, rfl, x.toList, List.mem_map_of_mem hx, halike⟩

theorem isRelevant_iff {uri : String} : isRelevant uri = true ↔ ∀ path, FileUri.path? uri = some path →
    ¬BelowProducts (Path.normalize path) ∧ RelevantName (Path.normalize path) := by
  rw [isRelevant]
  cases FileUri.path? uri with
  | none => simp
  | some path =>
    simp only [Option.some.injEq, forall_eq', excluded_iff]
    split
    · next hbelow => simp [hbelow]
    · next hbelow =>
      rw [RelevantName]
      cases hextension : Path.extension? (Path.normalize path) with
      | none => simp [hbelow]
      | some e =>
        obtain ⟨he, stem, -, hname⟩ := Path.extension?_eq_some_iff.mp hextension
        simp [hbelow, hname, covers_relevantNames_iff he]

theorem belowProducts_lowerAscii (path : String) : BelowProducts (lowerAscii path) ↔ BelowProducts path := by
  rw [BelowProducts, BelowProducts, Path.parts_lowerAscii, ← List.map_dropLast]
  simp only [List.mem_map, exists_exists_and_eq_and, Path.text_lower, sameAscii_lowerAscii]

theorem relevantName_lowerAscii (path : String) : RelevantName (lowerAscii path) ↔ RelevantName path := by
  rw [RelevantName, RelevantName, Path.extension?_lowerAscii]
  simp only [Option.map_eq_some_iff, forall_exists_index, and_imp, forall_apply_eq_imp_iff₂,
    sameAscii_lowerAscii]

/-- A change is relevant exactly if its URI names no file, or one that is not below a directory of build
products and has no extension or a relevant one. Letter case within ASCII does not count. -/
theorem relevant_by_parts (uri : String) :
    (isRelevant uri = true ↔ ∀ path, FileUri.path? uri = some path →
      (¬∃ p ∈ (Path.parts (Path.normalize path)).dropLast, ∃ name ∈ productDirectories,
        sameAscii p.text name = true) ∧
      ∀ e, Path.extension? (Path.normalize path) = some e →
        ∃ x ∈ relevantExtensions, sameAscii e x = true) ∧
    ∀ uri' path path', FileUri.path? uri = some path → FileUri.path? uri' = some path' →
      sameAscii (Path.normalize path) (Path.normalize path') = true → isRelevant uri = isRelevant uri' := by
  refine ⟨isRelevant_iff, fun uri' path path' hpath hpath' hsame => ?_⟩
  have hlower : lowerAscii (Path.normalize path) = lowerAscii (Path.normalize path') := by
    simpa [sameAscii] using hsame
  rw [Bool.eq_iff_iff, isRelevant_iff, isRelevant_iff]
  simp only [hpath, hpath', Option.some.injEq, forall_eq']
  rw [← belowProducts_lowerAscii (Path.normalize path), ← relevantName_lowerAscii (Path.normalize path), hlower,
    belowProducts_lowerAscii, relevantName_lowerAscii]

theorem spelled_file_relevant :
    sameAscii (Path.normalize "/p/x/../App/main.swift") (Path.normalize "/P/App/MAIN.Swift") = true ∧
      isRelevant "file:///p/x%2f../App/main.swift" = isRelevant "file:///P/%41pp/MAIN.Swift" := by
  have same : sameAscii (Path.normalize "/p/x/../App/main.swift") (Path.normalize "/P/App/MAIN.Swift") =
      true := by decide +kernel
  exact ⟨same, (relevant_by_parts "file:///p/x%2f../App/main.swift").2 _ _ _ (by decide +kernel)
    (by decide +kernel) same⟩

end Watch

end BuildServer
