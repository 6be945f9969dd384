import BuildServer.Proofs.Graph.Exactness
import BuildServer.Proofs.Graph.Lookup

namespace BuildServer

namespace Snapshot

/-- What there is in the places for the options of a file, in the order in which they count. A target
that is not given or has no table adds nothing. -/
def places (s : Snapshot) (target : Option String) (file resolved : String) :
    List (Option CompilerOptions) :=
  [target.bind (s.optionsIn · file), target.bind (s.optionsIn · resolved),
    s.optionsByFile.get? file, s.optionsByFile.get? resolved]

def firstTable (s : Snapshot) (target : Option String) : Table CompilerOptions :=
  (target.bind s.options.get?).getD s.optionsByFile

structure Indexed (s : Snapshot) : Prop where
  listed : ∀ t file, (∃ targets, s.targetsByFile.get? file = some targets ∧ t ∈ targets) ↔ s.Contains t file
  compiled : ∀ t file, s.Contains t file ↔ ∃ o, s.optionsIn t file = some o

theorem findSome?_places (s : Snapshot) (target : Option String) (file resolved : String) :
    (s.places target file resolved).findSome? id =
      (target.bind (s.optionsIn · file)).or ((target.bind (s.optionsIn · resolved)).or
        ((s.optionsByFile.get? file).or (s.optionsByFile.get? resolved))) := by
  have first (o : Option CompilerOptions) (os : List (Option CompilerOptions)) :
      (o :: os).findSome? id = o.or (os.findSome? id) := by
    cases o <;> rfl
  rw [places, first, first, first, first, List.findSome?_nil, Option.or_none]

theorem asked_findOptions {σ : Type} (s : Snapshot) (resolve : String → σ → String × σ) (x : σ)
    (path : String) (target : Option String) :
    (s.findOptions path target).asked resolve x =
      if ((s.firstTable target).get? (Path.normalize path)).isSome then [] else [Path.normalize path] := by
  rw [findOptions, firstTable]
  generalize Path.normalize path = path
  cases h : ((target.bind s.options.get?).getD s.optionsByFile).get? path with
  | none => simp [Dialogue.question, Dialogue.asked, Dialogue.bind, Bind.bind, Pure.pure]
  | some o => simp [Dialogue.asked, Pure.pure]

theorem Indexed.optionsFor_of_listed {s : Snapshot} (hs : s.Indexed) (resolve : String → String)
    (path : String) {t : String} (ht : t ∈ s.targetsFor resolve path) : ∃ file o,
      (file = Path.normalize path ∨ file = resolve (Path.normalize path)) ∧
        s.optionsIn t file = some o ∧ s.optionsFor resolve path (some t) = some o := by
  rw [targetsFor_eq] at ht
  rw [optionsFor_some]
  generalize Path.normalize path = path at ht ⊢
  cases hpath : s.targetsByFile.get? path with
  | some targets =>
    rw [hpath] at ht
    obtain ⟨o, ho⟩ := (hs.compiled t path).mp ((hs.listed t path).mp ⟨targets, hpath, ht⟩)
    exact ⟨path, o, .inl rfl, ho, by rw [ho, Option.some_or]⟩
  | none =>
    rw [hpath, Option.none_or] at ht
    cases hresolved : s.targetsByFile.get? (resolve path) with
    | none => simp [hresolved] at ht
    | some targets =>
      rw [hresolved] at ht
      obtain ⟨o, ho⟩ :=
        (hs.compiled t (resolve path)).mp ((hs.listed t (resolve path)).mp ⟨targets, hresolved, ht⟩)
      -- The target has no options under the path itself, for then it would be listed there.
      have hnone : s.optionsIn t path = none := by
        rw [Option.eq_none_iff_forall_ne_some]
        intro o' ho'
        obtain ⟨targets', htargets', -⟩ := (hs.listed t path).mpr ((hs.compiled t path).mpr ⟨o', ho'⟩)
        rw [hpath] at htargets'
        cases htargets'
      exact ⟨resolve path, o, .inr rfl, ho, by rw [hnone, Option.none_or, ho, Option.some_or]⟩

/-- Whatever links lead to, and however that changes, the first place that has options gives them, and the
path is resolved at most once, exactly if the first table lacks it. With exact indices the targets of a
file and its options in them agree. -/
theorem options_found_in_order (s : Snapshot) (path : String) (target : Option String) :
    (∀ (σ : Type) (resolve : String → σ → String × σ) (x : σ),
      ((s.findOptions path target).run resolve x).1 =
        (s.places target (Path.normalize path) (resolve (Path.normalize path) x).1).findSome? id ∧
      (s.findOptions path target).asked resolve x =
        if ((s.firstTable target).get? (Path.normalize path)).isSome then [] else [Path.normalize path]) ∧
    (s.Indexed → ∀ resolve, ∀ t ∈ s.targetsFor resolve path, ∃ file o,
      (file = Path.normalize path ∨ file = resolve (Path.normalize path)) ∧
        s.optionsIn t file = some o ∧ s.optionsFor resolve path (some t) = some o) := by
  constructor
  · intro σ resolve x
    exact ⟨by rw [run_findOptions, findSome?_places], asked_findOptions s resolve x path target⟩
  · intro hs resolve t ht
    exact hs.optionsFor_of_listed resolve path ht

theorem indexed_ofMembers {ms : List Member} (distinct : ∀ m ∈ ms, ∀ m' ∈ ms, m.uri = m'.uri → m = m')
    (store : Option String) : (ofMembers ms store).Indexed where
  listed t file := by rw [mem_targetsByFile, contains_iff_mem distinct]
  compiled t file := by
    simp only [contains_iff_options, optionsIn, Option.bind_eq_some_iff, Table.mem_keys]
    constructor
    · rintro ⟨table, htable, o, ho⟩
      exact ⟨o, table, htable, ho⟩
    · rintro ⟨o, table, htable, ho⟩
      exact ⟨table, htable, o, ho⟩

def sharedFile : List Member :=
  [⟨⟨"App", "App", []⟩, .ofList [("/p/A.swift", ⟨["-DAPP"], none⟩)]⟩,
    ⟨⟨"Kit", "Kit", []⟩, .ofList [("/p/A.swift", ⟨["-DKIT"], none⟩)]⟩]

theorem linked_file_found : ∃ links : String → String, ∃ file o,
    (ofMembers sharedFile none).Indexed ∧
    "Kit" ∈ (ofMembers sharedFile none).targetsFor links "/l/./A.swift" ∧
    (file = "/l/A.swift" ∨ file = "/p/A.swift") ∧
    (ofMembers sharedFile none).optionsIn "Kit" file = some o ∧
    (ofMembers sharedFile none).optionsFor links "/l/./A.swift" (some "Kit") = some o := by
  let links : String → String := fun path => if path = "/l/A.swift" then "/p/A.swift" else path
  have hindexed : (ofMembers sharedFile none).Indexed := by
    apply indexed_ofMembers
    decide
  have hkit : "Kit" ∈ (ofMembers sharedFile none).targetsFor links "/l/./A.swift" := by
    decide +kernel
  have hpath : Path.normalize "/l/./A.swift" = "/l/A.swift" := by decide +kernel
  obtain ⟨file, o, hfile, ho, hfound⟩ :=
    (options_found_in_order (ofMembers sharedFile none) "/l/./A.swift" (some "Kit")).2 hindexed links "Kit" hkit
  rw [hpath] at hfile
  exact ⟨links, file, o, hindexed, hkit, hfile, ho, hfound⟩

end Snapshot

end BuildServer
