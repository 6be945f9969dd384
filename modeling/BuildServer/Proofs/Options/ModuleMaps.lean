import BuildServer.Options.Arguments
import BuildServer.Proofs.Text.Pieces

namespace BuildServer.Arguments

variable {present : String → Bool} {a path : String}

def NamesModuleMap (a : String) : Prop := moduleMap.toList <+: a.toList

def Undashed (path : String) : Prop := ¬['-'] <+: path.toList

theorem not_namesModuleMap (h : Undashed path) : ¬NamesModuleMap path := by
  intro hmap
  exact h (List.IsPrefix.trans (by decide) hmap)

theorem Undashed.ne_clangFlag (h : Undashed path) : path ≠ clangFlag := by
  rintro rfl
  exact h (by decide)

theorem ne_moduleMap (h : ¬NamesModuleMap a) : a ≠ moduleMap := by
  rintro rfl
  exact h (List.prefix_refl _)

theorem joined_eq_none (h : ¬NamesModuleMap a) : stripStart? (moduleMap ++ "=") a = none := by
  rw [stripStart?_eq_none_iff, String.toList_append]
  exact fun hjoined => h ((List.prefix_append _ _).trans hjoined)

theorem not_namesModuleMap_clangFlag : ¬NamesModuleMap clangFlag := by
  rw [NamesModuleMap]
  decide

theorem joined_eq (path : String) :
    stripStart? (moduleMap ++ "=") (moduleMap ++ "=" ++ path) = some path :=
  stripStart?_append _ path

theorem joined_ne (path : String) : moduleMap ++ "=" ++ path ≠ moduleMap := by
  intro h
  have hnone : stripStart? (moduleMap ++ "=") moduleMap = none := by decide
  have hsome := joined_eq path
  rw [h, hnone] at hsome
  cases hsome

theorem moduleMapPath?_other (hmap : ¬NamesModuleMap a) (hclang : a ≠ clangFlag) (rest : List String) :
    moduleMapPath? a rest = none := by
  simp [moduleMapPath?, ne_moduleMap hmap, joined_eq_none hmap, hclang]

theorem moduleMapPath?_clangFlag (rest : List String) :
    moduleMapPath? clangFlag rest =
      match rest with
      | b :: c :: more =>
        if b = moduleMap ∧ c = clangFlag then more.head? else stripStart? (moduleMap ++ "=") b
      | [b] => stripStart? (moduleMap ++ "=") b
      | [] => none := by
  have hne := ne_moduleMap not_namesModuleMap_clangFlag
  have hnone := joined_eq_none not_namesModuleMap_clangFlag
  rcases rest with _ | ⟨b, _ | ⟨c, more⟩⟩
  all_goals simp [moduleMapPath?, hne, hnone]

theorem moduleMapPath?_passed (h : ¬NamesModuleMap a) (rest : List String) :
    moduleMapPath? clangFlag (a :: rest) = none := by
  rw [moduleMapPath?_clangFlag]
  cases rest with
  | nil => exact joined_eq_none h
  | cons b rest => simp [joined_eq_none h, ne_moduleMap h]

theorem moduleMapPath?_passed_bare (h : path ≠ clangFlag) (rest : List String) :
    moduleMapPath? clangFlag (moduleMap :: path :: rest) = none := by
  have hnone : stripStart? (moduleMap ++ "=") moduleMap = none := by decide
  rw [moduleMapPath?_clangFlag]
  simp [h, hnone]

theorem moduleMapPath?_passed_joined (path : String) (rest : List String) :
    moduleMapPath? clangFlag ((moduleMap ++ "=" ++ path) :: rest) = some path := by
  rw [moduleMapPath?_clangFlag]
  cases rest with
  | nil => exact joined_eq path
  | cons b rest => simp [joined_ne, joined_eq]

theorem hasMissingModuleMap_cons (a : String) (rest : List String) :
    hasMissingModuleMap present (a :: rest) =
      ((moduleMapPath? a rest).any (!present ·) || hasMissingModuleMap present rest) := by
  rw [hasMissingModuleMap]
  cases moduleMapPath? a rest <;> rfl

theorem hasMissingModuleMap_other (hmap : ¬NamesModuleMap a) (hclang : a ≠ clangFlag) (rest : List String) :
    hasMissingModuleMap present (a :: rest) = hasMissingModuleMap present rest := by
  simp [hasMissingModuleMap_cons, moduleMapPath?_other hmap hclang]

theorem hasMissingModuleMap_joined (path : String) (rest : List String) :
    hasMissingModuleMap present ((moduleMap ++ "=" ++ path) :: rest) =
      (!present path || hasMissingModuleMap present rest) := by
  have hfirst : moduleMapPath? (moduleMap ++ "=" ++ path) rest = some path := by
    simp [moduleMapPath?, joined_ne, joined_eq]
  rw [hasMissingModuleMap_cons, hfirst]
  rfl

inductive Form
  | separate
  | joined
  | separatePassed
  | joinedPassed

def Form.arguments (path : String) : Form → List String
  | separate => [moduleMap, path]
  | joined => [moduleMap ++ "=" ++ path]
  | separatePassed => [clangFlag, moduleMap, clangFlag, path]
  | joinedPassed => [clangFlag, moduleMap ++ "=" ++ path]

theorem hasMissingModuleMap_form (h : Undashed path) (form : Form) (rest : List String) :
    hasMissingModuleMap present (form.arguments path ++ rest) =
      (!present path || hasMissingModuleMap present rest) := by
  have hpath (more : List String) :
      hasMissingModuleMap present (path :: more) = hasMissingModuleMap present more :=
    hasMissingModuleMap_other (not_namesModuleMap h) h.ne_clangFlag more
  cases form with
  | separate =>
    have hfirst : moduleMapPath? moduleMap (path :: rest) = some path := by
      simp [moduleMapPath?, h.ne_clangFlag]
    change hasMissingModuleMap present (moduleMap :: path :: rest) = _
    rw [hasMissingModuleMap_cons, hfirst, hpath]
    rfl
  | joined => exact hasMissingModuleMap_joined path rest
  | separatePassed =>
    have hfirst : moduleMapPath? clangFlag (moduleMap :: clangFlag :: path :: rest) = some path := by
      simp [moduleMapPath?_clangFlag]
    have hsecond : moduleMapPath? moduleMap (clangFlag :: path :: rest) = none := by
      simp [moduleMapPath?]
    change hasMissingModuleMap present (clangFlag :: moduleMap :: clangFlag :: path :: rest) = _
    rw [hasMissingModuleMap_cons, hfirst, hasMissingModuleMap_cons, hsecond, hasMissingModuleMap_cons,
      moduleMapPath?_passed (not_namesModuleMap h), hpath]
    rfl
  | joinedPassed =>
    change hasMissingModuleMap present (clangFlag :: (moduleMap ++ "=" ++ path) :: rest) = _
    rw [hasMissingModuleMap_cons, moduleMapPath?_passed_joined, hasMissingModuleMap_joined, Option.any_some,
      Bool.or_self_left]

inductive ClangSegment
  | moduleMap (form : Form) (path : String) (h : Undashed path)
  | plain (a : String) (hmap : ¬NamesModuleMap a) (hclang : a ≠ clangFlag)
  | passed (a : String) (hmap : ¬NamesModuleMap a)

namespace ClangSegment

def arguments : ClangSegment → List String
  | moduleMap form path _ => form.arguments path
  | plain a _ _ => [a]
  | passed a _ => [clangFlag, a]

def path? : ClangSegment → Option String
  | moduleMap _ path _ => some path
  | _ => none

theorem hasMissingModuleMap_clangFlag (segments : List ClangSegment) :
    hasMissingModuleMap present (clangFlag :: segments.flatMap arguments) =
      hasMissingModuleMap present (segments.flatMap arguments) := by
  rw [hasMissingModuleMap_cons]
  cases segments with
  | nil => rfl
  | cons s segments =>
    rw [List.flatMap_cons]
    cases s with
    | plain a hmap hclang =>
      rw [arguments, List.singleton_append, moduleMapPath?_passed hmap]
      rfl
    | passed a hmap =>
      rw [arguments, List.cons_append, moduleMapPath?_passed not_namesModuleMap_clangFlag]
      rfl
    | moduleMap form path h =>
      rw [arguments]
      cases form with
      | separate =>
        rw [Form.arguments, List.cons_append, List.singleton_append, moduleMapPath?_passed_bare h.ne_clangFlag]
        rfl
      | joined =>
        rw [Form.arguments, List.singleton_append, moduleMapPath?_passed_joined, hasMissingModuleMap_joined,
          Option.any_some, Bool.or_self_left]
      | separatePassed =>
        rw [Form.arguments, List.cons_append, moduleMapPath?_passed not_namesModuleMap_clangFlag]
        rfl
      | joinedPassed =>
        rw [Form.arguments, List.cons_append, moduleMapPath?_passed not_namesModuleMap_clangFlag]
        rfl

theorem hasMissingModuleMap_segments (segments : List ClangSegment) :
    hasMissingModuleMap present (segments.flatMap arguments) =
      (segments.filterMap path?).any (!present ·) := by
  induction segments with
  | nil => rfl
  | cons s segments ih =>
    rw [List.flatMap_cons]
    cases s with
    | moduleMap form path h =>
      rw [arguments, hasMissingModuleMap_form h, ih]
      rfl
    | plain a hmap hclang =>
      rw [arguments, List.singleton_append, hasMissingModuleMap_other hmap hclang, ih]
      rfl
    | passed a hmap =>
      have htail : hasMissingModuleMap present (a :: segments.flatMap arguments) =
          hasMissingModuleMap present (segments.flatMap arguments) := by
        by_cases hclang : a = clangFlag
        · rw [hclang, hasMissingModuleMap_clangFlag]
        · exact hasMissingModuleMap_other hmap hclang _
      rw [arguments, List.cons_append, List.singleton_append, hasMissingModuleMap_cons,
        moduleMapPath?_passed hmap, htail, ih]
      rfl

end ClangSegment

open ClangSegment

/-- A module map is missing exactly if some segment names a path that does not exist, in whichever form. -/
theorem module_maps_found (present : String → Bool) (segments : List ClangSegment) :
    (hasMissingModuleMap present (segments.flatMap arguments) = true ↔
        ∃ path ∈ segments.filterMap path?, present path = false) ∧
      (∀ others : List ClangSegment,
        (∀ path, path ∈ others.filterMap path? ↔ path ∈ segments.filterMap path?) →
        hasMissingModuleMap present (others.flatMap arguments) =
          hasMissingModuleMap present (segments.flatMap arguments)) ∧
      ∀ others : List ClangSegment,
        hasMissingModuleMap present (segments.flatMap arguments ++ others.flatMap arguments) =
          (hasMissingModuleMap present (segments.flatMap arguments) ||
            hasMissingModuleMap present (others.flatMap arguments)) := by
  have hnamed (segments : List ClangSegment) :
      hasMissingModuleMap present (segments.flatMap arguments) = true ↔
        ∃ path ∈ segments.filterMap path?, present path = false := by
    rw [hasMissingModuleMap_segments, List.any_eq_true]
    simp only [Bool.not_eq_true']
  refine ⟨hnamed segments, fun others hsame => ?_, fun others => ?_⟩
  · rw [Bool.eq_iff_iff, hnamed, hnamed]
    simp only [hsame]
  · rw [← List.flatMap_append]
    simp only [hasMissingModuleMap_segments, List.filterMap_append, List.any_append]

section

def missingMap (form : Form) : ClangSegment :=
  .moduleMap form "/gone.modulemap" (by rw [Undashed]; decide)

def passedOn : ClangSegment := .passed clangFlag not_namesModuleMap_clangFlag

theorem missing_in_other_form : hasMissingModuleMap (fun _ => false)
      ["-Xcc", "-Xcc", "-fmodule-map-file", "/gone.modulemap"] =
    hasMissingModuleMap (fun _ => false) ["-Xcc", "-fmodule-map-file", "-Xcc", "/gone.modulemap"] :=
  (module_maps_found (fun _ => false) [missingMap .separatePassed]).2.1 [passedOn, missingMap .separate]
    fun _ => Iff.rfl

end

end BuildServer.Arguments
