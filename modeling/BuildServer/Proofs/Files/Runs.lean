import BuildServer.Proofs.Files.Growth
import BuildServer.Proofs.Path.Parent
import BuildServer.Store.Disk

namespace BuildServer

theorem run_bind {ε σ α β : Type} (x : ExceptT ε (StateM σ) α) (f : α → ExceptT ε (StateM σ) β) (s : σ) :
    (x >>= f).run.run s =
      match x.run.run s with
      | (.ok a, s') => (f a).run.run s'
      | (.error e, s') => (.error e, s') := by
  rw [ExceptT.run_bind, StateT.run_bind]
  cases h : x.run.run s with
  | mk r s' => cases r <;> rfl

theorem run_get {ε σ : Type} (s : σ) : (get : ExceptT ε (StateM σ) σ).run.run s = (.ok s, s) := rfl

theorem Files.locate_parent {fs : Files} {path d : String} {l : Location}
    (hl : fs.locate path = .ok l) (h : Path.parent? path = some d) (hd : d ≠ "") :
    ∃ m, fs.locate d = .ok m ∧ fs.Enterable m := by
  obtain ⟨hcheck, hleads⟩ := locate_eq_ok_iff.1 hl
  obtain ⟨names, last, hsteps, hparent, habsolute⟩ := Path.steps_parent h hd
  have hundotted := hleads.undot (undotted_filter _)
  rw [hsteps] at hundotted
  obtain ⟨m, hnames, hdir, -⟩ := hundotted.last
  have hbase : fs.base d = fs.base path := by rw [base, base, habsolute]
  refine ⟨m, locate_eq_ok_iff.2 ⟨Path.check_parent h hd hcheck, ?_⟩, hdir⟩
  rw [hbase]
  obtain hparent | hparent := hparent
  · exact hparent ▸ hnames
  · exact hparent ▸ .here (hundotted.enterable (by simp)) hnames

theorem Files.slot_of_names {fs : Files} {path name : String} {init : List String} {m : Location}
    (hcheck : check path = .ok ()) (hnames : Path.names path = init ++ [name])
    (hwalk : fs.walk maxLinks (fs.base path) init = .ok m) (hdir : fs.Enterable m) :
    fs.slot path =
      if name = "." ∨ name = ".." then .ok none
      else if maxName < (Utf8.encode name).length then .error .nameTooLong
      else .ok (some ⟨m ++ [name], path.toList.getLast? == some '/'⟩) := by
  obtain ⟨mode, hnode, henter⟩ := hdir
  rw [Path.names] at hnames
  simp only [slot, hcheck, hnames, List.getLast?_concat, List.dropLast_concat, hwalk, hnode, henter,
    bind, Except.bind, pure, Except.pure, Bool.not_true, Bool.false_eq_true, if_false]

theorem Files.slot_of_locate {fs : Files} {path : String} {l : Location}
    (h : fs.locate path = .ok l) :
    fs.slot path = .error .nameTooLong ∨ fs.slot path = .ok none ∨
      ∃ s, fs.slot path = .ok (some s) ∧ (fs.node? s.location).isSome := by
  obtain ⟨hcheck, hleads⟩ := locate_eq_ok_iff.1 h
  have hnames : ∃ r, fs.Leads maxLinks (fs.base path) (Path.names path) r := by
    rw [Path.steps_eq] at hleads
    split at hleads
    · obtain ⟨m, hnames, -⟩ := hleads.last
      exact ⟨m, hnames⟩
    · exact ⟨l, hleads⟩
  obtain ⟨r, hnames⟩ := hnames
  rcases (Path.names path).eq_nil_or_concat with hempty | ⟨init, name, hsnoc⟩
  · rw [Path.names] at hempty
    refine .inr (.inl ?_)
    simp only [slot, hcheck, hempty, List.getLast?_nil, bind, Except.bind, pure, Except.pure]
  · rw [List.concat_eq_append] at hsnoc
    rw [hsnoc] at hnames
    obtain ⟨m, hinit, hdir, hname⟩ := hnames.last
    rw [slot_of_names hcheck hsnoc hinit.walk hdir]
    split
    · exact .inr (.inl rfl)
    · next hdots =>
      split
      · exact .inl rfl
      · refine .inr (.inr ⟨_, rfl, ?_⟩)
        rw [not_or] at hdots
        simpa [hdots] using hname

namespace FileM

variable {fs : Files}

theorem run_orElse {α : Type} (x : FileM α) (y : FileError → FileM α) (fs : Files) :
    (x.orElse y).run.run fs =
      match x.run.run fs with
      | (.ok a, fs') => (.ok a, fs')
      | (.error e, fs') => (y e).run.run fs' := by
  rw [orElse, ExceptT.run_mk, StateT.run_bind]
  cases h : x.run.run fs with
  | mk r s' => cases r <;> rfl

theorem makeDirectory_run {path : String} {l : Location} (h : fs.locate path = .ok l) :
    ∃ e, e ≠ .notFound ∧ (makeDirectory none path).run.run fs = (.error e, fs) := by
  have hslot : (fromFiles (·.slot path)).run.run fs = (fs.slot path, fs) := rfl
  obtain hs | hs | ⟨s, hs, hsome⟩ := Files.slot_of_locate h
  · refine ⟨.nameTooLong, by decide, ?_⟩
    rw [makeDirectory, run_bind, hslot, hs]
  · refine ⟨.alreadyExists, by decide, ?_⟩
    rw [makeDirectory, run_bind, hslot, hs]
    rfl
  · refine ⟨.alreadyExists, by decide, ?_⟩
    rw [makeDirectory, run_bind, hslot, hs]
    dsimp only
    rw [run_bind, run_get]
    dsimp only
    rw [if_pos hsome]
    rfl

theorem makeDirectories_run {path : String} {l : Location} (h : fs.locate path = .ok l)
    (hdir : fs.Enterable l) : (makeDirectories path).run.run fs = (.ok (), fs) := by
  obtain ⟨e, he, hmake⟩ := makeDirectory_run h
  obtain ⟨mode, hnode, -⟩ := hdir
  have hisDirectory : fs.isDirectory path = true := by
    simp [Files.isDirectory, h, hnode, Node.isDirectory]
  have hne : path.isEmpty = false := by
    have hcheck := (Files.locate_eq_ok_iff.1 h).1
    rw [Path.check_eq_ok_iff] at hcheck
    simpa using hcheck.1
  rw [makeDirectories, makeDirectoriesWith, makeDirectoriesWithin, if_neg (by simp [hne]), run_orElse, hmake]
  dsimp only
  rw [if_neg he, run_bind, run_get]
  dsimp only
  rw [if_pos hisDirectory]
  rfl

theorem touch_run {path : String} {l : Location} {content : Bytes} {mode : Nat}
    (h : fs.locate path = .ok l) (hnode : fs.node? l = some (.file content mode))
    (hread : Mode.readable mode = true) (hwrite : Mode.writable mode = true) :
    (Disk.touch path).run.run fs = (.ok (), fs) := by
  rw [Disk.touch, run_bind, run_get]
  simp only [h, hnode, hread, hwrite]
  rfl

theorem setMode_run_file {path : String} {l : Location} {content : Bytes} {mode : Nat}
    (h : fs.locate path = .ok l) (hnode : fs.node? l = some (.file content mode)) (new : Nat) :
    (setMode path new).run.run fs = (.ok (), fs.put l (.file content new)) := by
  have hlocate : (fromFiles (·.locate path)).run.run fs = (.ok l, fs) := by rw [← h]; rfl
  rw [setMode, run_bind, hlocate]
  dsimp only
  rw [run_bind, run_get]
  simp only [hnode]
  rfl

theorem setMode_run_directory {path : String} {l : Location} {mode : Nat}
    (h : fs.locate path = .ok l) (hnode : fs.node? l = some (.directory mode)) (new : Nat) :
    (setMode path new).run.run fs = (.ok (), fs.put l (.directory new)) := by
  have hlocate : (fromFiles (·.locate path)).run.run fs = (.ok l, fs) := by rw [← h]; rfl
  rw [setMode, run_bind, hlocate]
  dsimp only
  rw [run_bind, run_get]
  simp only [hnode]
  rfl

theorem run_fromFiles {α : Type} (f : Files → Except FileError α) (fs : Files) :
    (fromFiles f).run.run fs = (f fs, fs) := rfl

theorem writeFile_new {fs' : Files} {path : String} {content : Bytes}
    (hnew : fs.locate path = .error .notFound)
    (h : (writeFile path content).run.run fs = (.ok (), fs')) :
    ∃ l, fs.node? l = none ∧ fs' = fs.put l (.file content 0o644) := by
  rw [writeFile, run_bind, run_get] at h
  simp only [hnew] at h
  rw [run_bind, run_fromFiles] at h
  split at h
  · next s fs'' hlanding =>
    obtain rfl := congrArg Prod.snd hlanding
    split at h
    · next s =>
      split at h
      · cases h
      split at h
      · cases h
      · next hnone =>
        rw [run_bind, run_fromFiles] at h
        split at h
        · next hentry =>
          obtain rfl := congrArg Prod.snd hentry
          exact ⟨s.location, Option.not_isSome_iff_eq_none.1 hnone, (congrArg Prod.snd h).symm⟩
        · cases h
    · cases h
  · cases h

theorem touch_ok {fs' : Files} {path : String} (h : (Disk.touch path).run.run fs = (.ok (), fs')) :
    (fs' = fs ∧ ∃ l content mode, fs.locate path = .ok l ∧ fs.node? l = some (.file content mode) ∧
      Mode.readable mode = true ∧ Mode.writable mode = true) ∨
    (fs.locate path = .error .notFound ∧
      ∃ l, fs.node? l = none ∧ fs' = fs.put l (.file [] 0o644)) := by
  rw [Disk.touch, run_bind, run_get] at h
  dsimp only at h
  split at h
  · next l hl =>
    split at h
    · next content mode hnode =>
      split at h
      · next hmode =>
        rw [Bool.and_eq_true] at hmode
        exact .inl ⟨(congrArg Prod.snd h).symm, l, content, mode, hl, hnode, hmode⟩
      · cases h
    · cases h
  · next hl => exact .inr ⟨hl, writeFile_new hl h⟩
  · cases h

theorem setMode_ok {fs' : Files} {path : String} {new : Nat}
    (h : (setMode path new).run.run fs = (.ok (), fs')) : ∃ l, fs.locate path = .ok l := by
  rw [setMode, run_bind] at h
  cases hl : fs.locate path with
  | ok l => exact ⟨l, rfl⟩
  | error e =>
    have hlocate : (fromFiles (·.locate path)).run.run fs = (.error e, fs) := by rw [← hl]; rfl
    rw [hlocate] at h
    cases h

end FileM

end BuildServer
