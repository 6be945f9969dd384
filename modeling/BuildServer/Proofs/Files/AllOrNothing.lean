import BuildServer.Proofs.Files.Pruning

/-!
An atomic write does all of its work or nothing, at whatever step it fails. Only directories on the way to
the file may have been made. What was written is read back, unless the path led through the very link that
the file has taken the place of.
-/

namespace BuildServer

namespace FileM

/-- A directory that is made for a file if it is missing: its own, and those above that one. -/
inductive OnTheWay (path : String) : String → Prop
  | directory : OnTheWay path (directoryOf path)
  | above {d outer : String} (h : OnTheWay path d) (hparent : Path.parent? d = some outer) :
    OnTheWay path outer

end FileM

namespace Files

variable {fs fs' fs'' : Files} {path : String} {place : Location} {content : Bytes} {ways : String → Prop}

theorem Kept.slot (h : fs.Kept fs') {s : Slot} (hs : fs.slot path = .ok (some s)) :
    fs'.slot path = .ok (some s) := by
  obtain ⟨hcheck, init, name, m, hnames, leads, hdir, hname, rfl⟩ := slot_eq_some_iff.mp hs
  have hbase : fs'.base path = fs.base path := by rw [base, base, h.current]
  rw [slot_eq_some_iff, hbase]
  exact ⟨hcheck, init, name, m, hnames, leads.kept h, h.enterable hdir, hname, rfl⟩

/-- All is as it was, but for new directories where some of the ways lead. -/
structure Furnished (ways : String → Prop) (fs fs' : Files) : Prop where
  current : fs'.current = fs.current
  nodes : ∀ l, fs'.node? l = fs.node? l ∨
    fs.node? l = none ∧ fs'.node? l = some (.directory 0o755) ∧
      ∃ d s, ways d ∧ fs'.slot d = .ok (some s) ∧ s.location = l

namespace Furnished

theorem refl (ways : String → Prop) (fs : Files) : Furnished ways fs fs :=
  ⟨rfl, fun _ => .inl rfl⟩

theorem kept (h : Furnished ways fs fs') : fs.Kept fs' := by
  refine ⟨h.current, fun l n hn => ?_⟩
  rcases h.nodes l with same | ⟨hnone, -⟩
  · exact ⟨n, same.trans hn, .refl n⟩
  · rw [hnone] at hn
    cases hn

theorem trans (h : Furnished ways fs fs') (h' : Furnished ways fs' fs'') : Furnished ways fs fs'' where
  current := h'.current.trans h.current
  nodes l := by
    rcases h'.nodes l with same' | ⟨hnone', hnew', hway'⟩
    · rw [same']
      refine (h.nodes l).imp_right ?_
      rintro ⟨hnone, hnew, d, s, hd, hslot, hl⟩
      exact ⟨hnone, hnew, d, s, hd, h'.kept.slot hslot, hl⟩
    · refine .inr ⟨?_, hnew', hway'⟩
      rcases h.nodes l with same | ⟨hnone, -⟩
      · exact same ▸ hnone'
      · exact hnone

end Furnished

theorem kept_put_of_remove (fs : Files) (place : Location) (n : Node) :
    (fs.remove place).Kept (fs.put place n) := by
  refine ⟨rfl, fun l old hold => ⟨old, ?_, .refl old⟩⟩
  rw [node?_remove] at hold
  rw [node?_put]
  split
  · next hl =>
    rw [if_pos hl] at hold
    cases hold
  · next hl => rwa [if_neg hl] at hold

theorem sameWays_remove (hplace : ∀ n, fs.node? place = some n → ∃ content mode, n = .file content mode) :
    SameWays fs (fs.remove place) where
  current := rfl
  nodes l n hn := by
    rw [node?_remove]
    split
    · next hl =>
      refine ⟨nofun, fun h => ?_⟩
      obtain ⟨content, mode, rfl⟩ := hplace n (hl.1 ▸ h)
      exact absurd rfl (hn content mode)
    · rfl

theorem read_put_slot {mode : Nat} (hslot : fs.slot path = .ok (some ⟨place, false⟩))
    (hfree : ∀ mode, fs.node? place ≠ some (.directory mode)) (hread : Mode.readable mode = true) :
    (fs.put place (.file content mode)).read path = .ok content ∨
      ∃ target, fs.node? place = some (.link target) ∧
        (fs.remove place).slot path ≠ .ok (some ⟨place, false⟩) := by
  obtain ⟨init, name, m, -, rfl, -⟩ := slot_isFile_enterable hslot
  have hnode : (fs.put (m ++ [name]) (.file content mode)).node? (m ++ [name]) =
      some (.file content mode) := by rw [node?_put, if_pos ⟨rfl, by simp⟩]
  by_cases hway : (fs.remove (m ++ [name])).slot path = .ok (some ⟨m ++ [name], false⟩)
  · exact .inl (read_of_slot ((kept_put_of_remove fs _ _).slot hway) hnode hread)
  · right
    by_contra hlink
    refine hway ((sameWays_remove fun n hn => ?_).slot hslot)
    cases n with
    | file content mode => exact ⟨content, mode, rfl⟩
    | directory mode => exact absurd hn (hfree mode)
    | link target => exact absurd ⟨target, hn, hway⟩ hlink

end Files

namespace FileM

open Files

variable {fs : Files} {path : String} {content : Bytes}

theorem makeDirectory_furnished {ways : String → Prop} (trouble : Option FileError) (fs : Files)
    (path : String) (hpath : ways path) :
    Furnished ways fs ((makeDirectory trouble path).run.run fs).2 := by
  rcases makeDirectory_cases trouble fs path with ⟨e, hrun⟩ | ⟨s, hslot, hnew, hrun⟩
  · rw [hrun]
    exact .refl _ fs
  · rw [hrun]
    have kept : fs.Kept (fs.put s.location (.directory 0o755)) := kept_put fun old hold => by
      rw [hnew] at hold
      cases hold
    refine ⟨rfl, fun l => ?_⟩
    rw [node?_put]
    split
    · next hl => exact .inr ⟨hl.1 ▸ hnew, rfl, path, s, hpath, kept.slot hslot, hl.1.symm⟩
    · exact .inl rfl

theorem makeDirectories_furnished (trouble : String → Option FileError) (fs : Files) (path : String) :
    Furnished (OnTheWay path) fs ((makeDirectoriesWith trouble (directoryOf path)).run.run fs).2 :=
  makeDirectoriesWithin_related (P := OnTheWay path) (.refl _) .trans (fun _ _ => .above)
    (fun fs path => makeDirectory_furnished (trouble path) fs path) _ _ .directory fs

def replaceWith (trouble : Trouble) (path : String) (content : Bytes) : FileM Unit := do
  let staged ← stage trouble (directoryOf path)
  orElse (do fill trouble staged content; failIf trouble.move; moveInto staged path) fun e => do
    modify (·.remove staged)
    throw e

theorem atomicWriteWith_eq (trouble : Trouble) (path : String) (content : Bytes) :
    atomicWriteWith trouble path content =
      (makeDirectoriesWith trouble.make (directoryOf path) >>= fun _ => replaceWith trouble path content) :=
  rfl

theorem stage_cases (trouble : Trouble) (fs : Files) (directory : String) :
    (stage trouble directory).run.run fs = (stage .none directory).run.run fs ∨
      ∃ e, (stage trouble directory).run.run fs = (.error e, fs) := by
  obtain ⟨make, create, write, sync, move⟩ := trouble
  cases create with
  | none => exact .inl rfl
  | some e =>
    right
    rw [stage, run_bind, run_fromFiles]
    cases fs.locate directory with
    | error e => exact ⟨e, rfl⟩
    | ok l =>
      dsimp only
      rw [run_bind, run_get]
      dsimp only
      split
      · exact ⟨e, rfl⟩
      · exact ⟨_, rfl⟩

theorem fill_cases (trouble : Trouble) (fs : Files) (staged : Location) (content : Bytes) :
    (fill trouble staged content).run.run fs = (.ok (), fs.put staged (.file content 0o600)) ∨
      ∃ e fs', (fill trouble staged content).run.run fs = (.error e, fs') ∧
        ∃ written, fs' = fs.put staged (.file written 0o600) := by
  obtain ⟨make, create, write, sync, move⟩ := trouble
  cases write with
  | some x => exact .inr ⟨x.2, _, rfl, content.take x.1, rfl⟩
  | none =>
    cases sync with
    | some e => exact .inr ⟨e, _, rfl, content, rfl⟩
    | none => exact .inl rfl

theorem same_remove_staged {fs' : Files} {staged : Location} (hnew : fs.node? staged = none)
    (hcurrent : fs'.current = fs.current) (hothers : ∀ l ≠ staged, fs'.node? l = fs.node? l) :
    Same fs (fs'.remove staged) := by
  have hroot : staged ≠ [] := by
    rintro rfl
    cases hnew
  refine ⟨hcurrent, fun l => ?_⟩
  rw [node?_remove]
  split
  · next hl => rw [hl.1, hnew]
  · next hl => exact hothers l fun h => hl ⟨h, h ▸ hroot⟩

theorem replaceWith_cases (trouble : Trouble) (fs : Files) (path : String) (content : Bytes) :
    (replaceWith trouble path content).run.run fs = (replace path content).run.run fs ∨
      ∃ e fs', (replaceWith trouble path content).run.run fs = (.error e, fs') ∧ Same fs fs' := by
  rw [replaceWith, replace, run_bind, run_bind]
  rcases stage_cases trouble fs (directoryOf path) with hstage | ⟨e, hstage⟩
  · rw [hstage]
    by_cases hdir : ∃ l mode, fs.locate (directoryOf path) = .ok l ∧
        fs.node? l = some (.directory mode) ∧ Mode.writable mode = true
    · obtain ⟨l, mode, hl, hnode, hwrite⟩ := hdir
      have hnew : fs.node? (l ++ [stagingName fs]) = none := node?_stagingName fs l
      rw [stage_ok hl hnode hwrite]
      dsimp only
      generalize l ++ [stagingName fs] = staged at hnew ⊢
      rw [run_orElse, run_orElse, run_bind, run_bind, fill_run]
      have undone (written : Bytes) : Same fs
          (((fs.put staged (.file [] 0o600)).put staged (.file written 0o600)).remove staged) :=
        same_remove_staged hnew rfl fun l hl => by simp only [node?_put, hl, false_and, if_false]
      rcases fill_cases trouble (fs.put staged (.file [] 0o600)) staged content with
        hfill | ⟨e, _, hfill, written, rfl⟩
      · rw [hfill]
        cases hmove : trouble.move with
        | some e => exact .inr ⟨e, _, rfl, undone content⟩
        | none => exact .inl rfl
      · rw [hfill]
        exact .inr ⟨e, _, rfl, undone written⟩
    · obtain ⟨e, hfails⟩ := stage_fails fs (directoryOf path) fun l mode hl hnode => by
        rw [← Bool.not_eq_true]
        exact fun hwrite => hdir ⟨l, mode, hl, hnode, hwrite⟩
      rw [hfails]
      exact .inl rfl
  · rw [hstage]
    exact .inr ⟨e, fs, rfl, .refl fs⟩

/-- An atomic write first makes the directories on the way that are missing. If it succeeds, the slot of the
path then holds a file with exactly the content, in place of no directory, and nothing else has changed; the
path reads as that content, unless its way to the slot went through a link in the slot. If it fails, whether
for the shape of the path or for a trouble of the device, nothing else has changed at all. -/
theorem atomic_write_all_or_nothing (trouble : Trouble) (path : String) (content : Bytes) (fs : Files) :
    ∃ made, Furnished (OnTheWay path) fs made ∧
      match (atomicWriteWith trouble path content).run.run fs with
      | (.ok (), fs') => ∃ place, made.slot path = .ok (some ⟨place, false⟩) ∧
          (∀ mode, made.node? place ≠ some (.directory mode)) ∧
          Same (made.put place (.file content 0o600)) fs' ∧
          (fs'.read path = .ok content ∨ ∃ target, made.node? place = some (.link target) ∧
            (made.remove place).slot path ≠ .ok (some ⟨place, false⟩))
      | (.error _, fs') => Same made fs' := by
  refine ⟨_, makeDirectories_furnished trouble.make fs path, ?_⟩
  rw [atomicWriteWith_eq, run_bind]
  generalize (makeDirectoriesWith trouble.make (directoryOf path)).run.run fs = result
  obtain ⟨r, made⟩ := result
  cases r with
  | error e => exact .refl made
  | ok u =>
    dsimp only
    rcases replaceWith_cases trouble made path content with hrun | ⟨e, fs', hrun, same⟩
    · rw [hrun]
      by_cases hplace : ∃ place, made.Replaceable path place
      · obtain ⟨place, replaceable⟩ := hplace
        obtain ⟨fs', hwritten, same⟩ := replace_ok replaceable content
        rw [hwritten]
        refine ⟨place, replaceable.slot, replaceable.free, same, ?_⟩
        rw [same.read]
        exact read_put_slot replaceable.slot replaceable.free (by decide)
      · obtain ⟨e, fs', hfails, same⟩ := replace_fails (not_exists.mp hplace) content
        rw [hfails]
        exact same
    · rw [hrun]
      exact same

def looped : Files := ⟨[(["d"], .directory 0o755), (["d", "l"], .link "/d")], []⟩

theorem replaced_link_not_passed :
    ∃ fs', (atomicWrite "/d/l/l" [0x78]).run.run looped = (.ok (), fs') ∧
      fs'.read "/d/l/l" = .error .notADirectory ∧ fs'.read "/d/l" = .ok [0x78] := by
  have hrun : ((atomicWrite "/d/l/l" [0x78]).run.run looped).1 = .ok () := by decide +kernel
  exact ⟨_, Prod.ext hrun rfl, by decide +kernel, by decide +kernel⟩

end FileM

end BuildServer
