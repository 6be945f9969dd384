import BuildServer.Proofs.Files.Overwriting

namespace BuildServer

namespace Files

variable {fs fs' fs'' : Files} {place : Location} {places : Location → Prop}

/-- Elsewhere than at the places everything is as it was, but that there may be new directories. -/
structure Confined (places : Location → Prop) (fs fs' : Files) : Prop where
  current : fs'.current = fs.current
  nodes : ∀ l, ¬places l → fs'.node? l = fs.node? l ∨
    fs.node? l = none ∧ ∃ mode, fs'.node? l = some (.directory mode)

namespace Confined

theorem refl (places : Location → Prop) (fs : Files) : Confined places fs fs :=
  ⟨rfl, fun _ _ => .inl rfl⟩

theorem trans (h : Confined places fs fs') (h' : Confined places fs' fs'') : Confined places fs fs'' where
  current := h'.current.trans h.current
  nodes l hl := by
    rcases h.nodes l hl with same | ⟨hnone, mode, hnode⟩
    · rw [← same]
      exact h'.nodes l hl
    · rcases h'.nodes l hl with same | ⟨hnone', -⟩
      · exact .inr ⟨hnone, mode, same.trans hnode⟩
      · rw [hnode] at hnone'
        cases hnone'

theorem mono {places' : Location → Prop} (h : Confined places fs fs') (hplaces : ∀ l, places l → places' l) :
    Confined places' fs fs' :=
  ⟨h.current, fun l hl => h.nodes l fun hplace => hl (hplaces l hplace)⟩

end Confined

theorem Same.confined (places : Location → Prop) (h : Same fs fs') : Confined places fs fs' :=
  ⟨h.current, fun l _ => .inl (h.nodes l)⟩

theorem confined_put (fs : Files) (place : Location) (n : Node) : Confined (· = place) fs (fs.put place n) where
  current := rfl
  nodes l hl := by
    rw [node?_put, if_neg fun h => hl h.1]
    exact .inl rfl

end Files

namespace FileM

open Files

theorem makeDirectory_confined (fs : Files) (path : String) :
    Confined (fun _ => False) fs ((makeDirectory none path).run.run fs).2 := by
  rcases makeDirectory_cases none fs path with ⟨e, hrun⟩ | ⟨s, -, hnew, hrun⟩
  · rw [hrun]
    exact .refl _ fs
  · rw [hrun]
    refine ⟨rfl, fun l _ => ?_⟩
    rw [node?_put]
    split
    · next hl =>
      rw [hl.1]
      exact .inr ⟨hnew, 0o755, rfl⟩
    · exact .inl rfl

theorem makeDirectories_confined (fs : Files) (path : String) :
    Confined (fun _ => False) fs ((makeDirectories path).run.run fs).2 :=
  makeDirectoriesWithin_related (P := fun _ => True) (.refl _) .trans (fun _ _ _ _ => trivial)
    (fun fs path _ => makeDirectory_confined fs path) _ path trivial fs

theorem replace_confined (fs : Files) (path : String) (content : Bytes) :
    Confined (·.getLast? = (Path.names path).getLast?) fs ((replace path content).run.run fs).2 := by
  by_cases hplace : ∃ place, fs.Replaceable path place
  · obtain ⟨place, replaceable⟩ := hplace
    obtain ⟨fs', hrun, same⟩ := replace_ok replaceable content
    rw [hrun]
    refine ((confined_put fs place _).mono fun l hl => ?_).trans (same.confined _)
    rw [hl]
    exact getLast?_slot replaceable.slot
  · obtain ⟨e, fs', hrun, same⟩ := replace_fails (not_exists.mp hplace) content
    rw [hrun]
    exact same.confined _

theorem atomicWrite_confined (fs : Files) (path : String) (content : Bytes) :
    Confined (·.getLast? = (Path.names path).getLast?) fs ((atomicWrite path content).run.run fs).2 := by
  have made : Confined (·.getLast? = (Path.names path).getLast?) fs
      ((makeDirectories (directoryOf path)).run.run fs).2 :=
    (makeDirectories_confined fs (directoryOf path)).mono fun _ h => h.elim
  rw [atomicWrite_eq, run_bind]
  generalize (makeDirectories (directoryOf path)).run.run fs = result at made ⊢
  obtain ⟨r, fs'⟩ := result
  cases r with
  | error e => exact made
  | ok u => exact made.trans (replace_confined fs' path content)

end FileM

end BuildServer
