import BuildServer.Proofs.Graph.Consistency

namespace BuildServer

namespace Snapshot

variable {s : Snapshot} {file t : String}

theorem contains_of_filesOf (h : file ∈ s.filesOf t) :
    s.Contains t file := by
  rw [filesOf] at h
  cases hfiles : s.files.get? t with
  | none => simp [hfiles] at h
  | some files => exact ⟨files, hfiles, by simpa [hfiles] using h⟩

def optionsIn (s : Snapshot) (uri file : String) : Option CompilerOptions :=
  (s.options.get? uri).bind (·.get? file)

theorem bind_optionsIn (s : Snapshot) (target : Option String) (file : String) :
    target.bind (s.optionsIn · file) = (target.bind s.options.get?).bind (·.get? file) := by
  cases target <;> rfl

theorem run_findOptions {σ : Type} (s : Snapshot) (resolve : String → σ → String × σ) (x : σ)
    (path : String) (target : Option String) :
    ((s.findOptions path target).run resolve x).1 =
      (target.bind (s.optionsIn · (Path.normalize path))).or
        ((target.bind (s.optionsIn · (resolve (Path.normalize path) x).1)).or
          ((s.optionsByFile.get? (Path.normalize path)).or
            (s.optionsByFile.get? (resolve (Path.normalize path) x).1))) := by
  rw [bind_optionsIn, bind_optionsIn, findOptions]
  generalize Path.normalize path = path
  cases target.bind s.options.get? with
  | none =>
    cases h : s.optionsByFile.get? path with
    | none => simp [h, Dialogue.question, Dialogue.run, Dialogue.bind, Bind.bind, Pure.pure]
    | some o => simp [h, Dialogue.run, Pure.pure]
  | some table =>
    cases h : table.get? path with
    | none => simp [h, Dialogue.question, Dialogue.run, Dialogue.bind, Bind.bind, Pure.pure]
    | some o => simp [h, Dialogue.run, Pure.pure]

theorem optionsFor_eq (s : Snapshot) (resolve : String → String) (path : String) (target : Option String) :
    s.optionsFor resolve path target =
      (target.bind (s.optionsIn · (Path.normalize path))).or
        ((target.bind (s.optionsIn · (resolve (Path.normalize path)))).or
          ((s.optionsByFile.get? (Path.normalize path)).or
            (s.optionsByFile.get? (resolve (Path.normalize path))))) :=
  run_findOptions s (fun file s => (resolve file, s)) () path target

theorem optionsFor_some (s : Snapshot) (resolve : String → String) (path t : String) :
    s.optionsFor resolve path (some t) =
      (s.optionsIn t (Path.normalize path)).or ((s.optionsIn t (resolve (Path.normalize path))).or
        ((s.optionsByFile.get? (Path.normalize path)).or
          (s.optionsByFile.get? (resolve (Path.normalize path))))) :=
  optionsFor_eq s resolve path (some t)

namespace Consistent

theorem contains_iff (hs : s.Consistent) : s.Contains t file ↔ ∃ o, s.optionsIn t file = some o := by
  simp only [optionsIn, Option.bind_eq_some_iff]
  constructor
  · rintro ⟨files, hfiles, hfile⟩
    obtain ⟨-, table, htable, rfl⟩ := hs.files t files hfiles
    obtain ⟨o, ho⟩ := Table.mem_keys.mp hfile
    exact ⟨o, table, htable, ho⟩
  · rintro ⟨o, table, htable, ho⟩
    have huri : t ∈ s.uris := (hs.options_keys t).mp (Table.mem_keys.mpr ⟨table, htable⟩)
    obtain ⟨files, hfiles⟩ := Table.mem_keys.mp ((hs.files_keys t).mpr huri)
    obtain ⟨-, table', htable', rfl⟩ := hs.files t files hfiles
    obtain rfl := Option.some.inj (htable.symm.trans htable')
    exact ⟨table.keys, hfiles, Table.mem_keys.mpr ⟨o, ho⟩⟩

theorem optionsIn_eq_none (hs : s.Consistent) : s.optionsIn t file = none ↔ ¬ s.Contains t file := by
  rw [hs.contains_iff, Option.eq_none_iff_forall_ne_some]
  exact not_exists.symm

end Consistent

theorem targetsFor_eq (s : Snapshot) (resolve : String → String) (path : String) :
    s.targetsFor resolve path = ((s.targetsByFile.get? (Path.normalize path)).or
      (s.targetsByFile.get? (resolve (Path.normalize path)))).getD [] := by
  rw [targetsFor, findTargets]
  generalize Path.normalize path = path
  cases h : s.targetsByFile.get? path with
  | none => rfl
  | some targets => rfl

namespace Consistent

variable {path : String} (hs : s.Consistent)
include hs

theorem normal_of_contains (h : s.Contains t file) : Path.normalize file = file :=
  hs.normal file (.inl ⟨t, h⟩)

theorem optionsFor_of_optionsIn {o : CompilerOptions} (h : s.optionsIn t file = some o)
    (resolve : String → String) : s.optionsFor resolve file (some t) = some o := by
  have hnormal := hs.normal_of_contains (hs.contains_iff.mpr ⟨o, h⟩)
  rw [optionsFor_some, hnormal, h, Option.some_or]

theorem mem_targetsFor (h : s.Contains t file) (resolve : String → String) :
    t ∈ s.targetsFor resolve file := by
  obtain ⟨targets, htargets, ht⟩ := hs.indexed t file h
  rw [targetsFor_eq, hs.normal_of_contains h, htargets]
  exact ht

end Consistent

end Snapshot

end BuildServer
