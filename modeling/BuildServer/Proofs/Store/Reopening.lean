import BuildServer.Proofs.Files.Runs

namespace BuildServer.Disk

structure Holds (d : Disk) (path : String) (l : Location) (db : Database) : Prop where
  leads : d.files.locate path = .ok l
  file : ∃ content mode, d.files.node? l = some (.file content mode) ∧
    Mode.readable mode = true ∧ Mode.writable mode = true
  entry : d.files.checkEntry l = .ok ()
  database : d.databases.lookup l = some ⟨some db, false⟩

section Files

variable {d : Disk} {path : String}

theorem run_onFiles {α : Type} (wrap : FileError → OpenError) (x : FileM α) (d : Disk) :
    (onFiles wrap x).run.run d =
      ((x.run.run d.files).1.mapError wrap, { d with files := (x.run.run d.files).2 }) :=
  rfl

theorem secureDirectory_run {l : Location} (hl : d.files.locate path = .ok l)
    (hdir : d.files.Enterable l) : ∃ files, d.files.Kept files ∧
      (secureDirectory path).run.run d = (.ok (), { d with files := files }) := by
  obtain ⟨mode, hnode, henter⟩ := hdir
  have hmake := FileM.makeDirectories_run hl ⟨mode, hnode, henter⟩
  rw [secureDirectory, run_bind, run_onFiles, hmake]
  dsimp only [Except.mapError]
  rw [run_bind, run_get]
  simp only [hl, hnode, Except.toOption, Option.bind_some]
  by_cases hmode : mode % 64 = 0
  · rw [if_pos hmode]
    exact ⟨d.files, .refl _, rfl⟩
  · rw [if_neg hmode, run_onFiles, FileM.setMode_run_directory hl hnode]
    refine ⟨_, Files.kept_put fun old hold => ?_, rfl⟩
    rw [hnode] at hold
    obtain rfl := Option.some.inj hold
    exact ⟨_, rfl, fun _ => by decide, fun _ => by decide⟩

theorem kept_private {fs : Files} {l : Location} {content : Bytes} {mode : Nat}
    (hnode : fs.node? l = some (.file content mode)) : fs.Kept (fs.put l (.file content 0o600)) := by
  apply Files.kept_put
  intro old hold
  rw [hnode] at hold
  obtain rfl := Option.some.inj hold
  exact ⟨_, _, rfl, fun _ => by decide, fun _ => by decide⟩

theorem leads_of_touch {fs fs' : Files} (h : (touch path).run.run fs = (.ok (), fs')) {l : Location}
    (hl : fs'.locate path = .ok l) : ∃ content mode, fs'.node? l = some (.file content mode) := by
  obtain ⟨rfl, l', content, mode, hl', hnode, -⟩ | ⟨hnew, place, hplace, rfl⟩ := FileM.touch_ok h
  · rw [hl] at hl'
    obtain rfl := Except.ok.inj hl'
    exact ⟨content, mode, hnode⟩
  · obtain ⟨hcheck, hleads⟩ := Files.locate_eq_ok_iff.1 hl
    obtain hold | rfl := hleads.of_put_file hplace
    · rw [Files.locate_eq_ok_iff.2 ⟨hcheck, hold⟩] at hnew
      cases hnew
    · have hroot : l ≠ [] := by
        rintro rfl
        cases hplace
      exact ⟨[], 0o644, by rw [Files.node?_put, if_pos ⟨rfl, hroot⟩]⟩

theorem secureParent_run {l : Location} (hl : d.files.locate path = .ok l) :
    ∃ files, d.files.Kept files ∧
      (secureParent path).run.run d = (.ok (), { d with files := files }) := by
  rw [secureParent]
  cases hparent : Path.parent? path with
  | none => exact ⟨d.files, .refl _, rfl⟩
  | some p =>
    dsimp only
    split
    · exact ⟨d.files, .refl _, rfl⟩
    · next hp =>
      rw [String.isEmpty_iff] at hp
      obtain ⟨m, hm, hdir⟩ := Files.locate_parent hl hparent hp
      exact secureDirectory_run hm hdir

theorem prepare_run {l : Location} {content : Bytes} {mode : Nat}
    (hl : d.files.locate path = .ok l) (hnode : d.files.node? l = some (.file content mode))
    (hread : Mode.readable mode = true) (hwrite : Mode.writable mode = true) :
    ∃ files, d.files.Kept files ∧ (prepare path).run.run d = (.ok (), { d with files := files }) := by
  obtain ⟨files, hkept, hsecure⟩ := secureParent_run hl
  obtain ⟨n, hnode', content', mode', rfl, hread', hwrite'⟩ := hkept.nodes _ _ hnode
  have hl' := hkept.locate hl
  refine ⟨_, hkept.trans (kept_private hnode'), ?_⟩
  rw [prepare, run_bind, hsecure]
  dsimp only
  rw [run_bind, run_onFiles, FileM.touch_run hl' hnode' (hread' hread) (hwrite' hwrite)]
  dsimp only [Except.mapError]
  rw [run_onFiles, FileM.setMode_run_file hl' hnode']
  rfl

theorem mapError_eq_ok {ε ε' α : Type} {x : Except ε α} {f : ε → ε'} {a : α}
    (h : x.mapError f = .ok a) : x = .ok a := by
  cases x with
  | ok b => exact congrArg Except.ok (Except.ok.inj h)
  | error e => cases h

theorem onFiles_ok {α : Type} {wrap : FileError → OpenError} {x : FileM α} {a : α} {d' : Disk}
    (h : (onFiles wrap x).run.run d = (.ok a, d')) :
    ∃ files, x.run.run d.files = (.ok a, files) ∧ d' = { d with files := files } := by
  rw [run_onFiles] at h
  obtain ⟨hresult, rfl⟩ := Prod.mk.inj h
  exact ⟨_, Prod.ext (mapError_eq_ok hresult) rfl, rfl⟩

theorem prepare_ok {d' : Disk} (h : (prepare path).run.run d = (.ok (), d')) :
    ∃ l content, d'.files.locate path = .ok l ∧ d'.files.node? l = some (.file content 0o600) := by
  rw [prepare, run_bind] at h
  split at h
  · next d1 hsecure =>
    rw [run_bind] at h
    split at h
    · next d2 htouch =>
      obtain ⟨files, htouched, rfl⟩ := onFiles_ok htouch
      obtain ⟨files', hmode, rfl⟩ := onFiles_ok h
      obtain ⟨l, hl⟩ := FileM.setMode_ok hmode
      obtain ⟨content, mode, hnode⟩ := leads_of_touch htouched hl
      have hput := (FileM.setMode_run_file hl hnode 0o600).symm.trans hmode
      obtain rfl : files.put l (.file content 0o600) = files' := congrArg Prod.snd hput
      have hroot : l ≠ [] := by
        rintro rfl
        cases hnode
      refine ⟨l, content, (kept_private hnode).locate hl, ?_⟩
      rw [Files.node?_put, if_pos ⟨rfl, hroot⟩]
    · cases h
  · cases h

end Files

section Databases

variable {d d' : Disk} {path : String} {l : Location} {db : Database}

theorem lookup_hold (d : Disk) (l : Location) (f : DatabaseFile) :
    (d.hold l f).databases.lookup l = some f := by
  rw [hold, List.lookup_cons, beq_self_eq_true]

theorem attach_ok (h : d.attach path = .ok (db, d')) :
    ∃ l, d.files.locate path = .ok l ∧ d.files.checkEntry l = .ok () ∧ d' = d.hold l ⟨some db, false⟩ := by
  rw [attach] at h
  split at h
  · cases h
  · next l hl =>
    dsimp only at h
    split at h
    · cases h
    split at h
    · cases h
    · next hentry =>
      obtain ⟨rfl, rfl⟩ := Prod.mk.inj (Except.ok.inj h)
      refine ⟨l, hl, ?_, rfl⟩
      cases hcheck : d.files.checkEntry l with
      | ok u => rfl
      | error e => exact absurd (by rw [hcheck]; rfl) hentry

theorem holds_of_openDatabase (h : (openDatabase path).run.run d = (.ok db, d')) :
    ∃ l, d'.Holds path l db := by
  rw [openDatabase, run_bind] at h
  split at h
  · next d1 hprepare =>
    obtain ⟨l, content, hl, hnode⟩ := prepare_ok hprepare
    rw [run_bind, run_get] at h
    dsimp only at h
    split at h
    · next db' d2 hattach =>
      obtain ⟨l', hl', hentry, rfl⟩ := attach_ok hattach
      rw [hl] at hl'
      obtain rfl := Except.ok.inj hl'
      obtain ⟨hdb, rfl⟩ := Prod.mk.inj h
      obtain rfl := Except.ok.inj hdb
      exact ⟨l, hl, ⟨content, _, hnode, by decide, by decide⟩, hentry, lookup_hold ..⟩
    · cases h
  · cases h

theorem Holds.openDatabase (h : d.Holds path l db) :
    ∃ d', (openDatabase path).run.run d = (.ok db, d') ∧ d'.Holds path l db := by
  obtain ⟨content, mode, hnode, hread, hwrite⟩ := h.file
  obtain ⟨files, hkept, hprepare⟩ := prepare_run h.leads hnode hread hwrite
  obtain ⟨n, hnode', content', mode', rfl, hread', hwrite'⟩ := hkept.nodes _ _ hnode
  have hl := hkept.locate h.leads
  have hentry := hkept.checkEntry h.entry
  have hattach : ({ d with files := files } : Disk).attach path =
      .ok (db, ({ d with files := files } : Disk).hold l ⟨some db, false⟩) := by
    simp [attach, hl, h.database, hentry, Except.toOption]
  refine ⟨({ d with files := files } : Disk).hold l ⟨some db, false⟩, ?_, hl,
    ⟨content', mode', hnode', hread' hread, hwrite' hwrite⟩, hentry, lookup_hold ..⟩
  rw [Disk.openDatabase, run_bind, hprepare]
  dsimp only
  rw [run_bind, run_get]
  simp only [hattach]
  rfl

theorem Holds.database? (h : d.Holds path l db) : d.database? path = some ⟨some db, false⟩ := by
  rw [Disk.database?, h.leads]
  exact h.database

theorem Holds.putDatabase (h : d.Holds path l db) (new : Database) :
    (d.putDatabase path ⟨some new, false⟩).Holds path l new := by
  obtain ⟨content, mode, hnode, hread, hwrite⟩ := h.file
  have hput : d.putDatabase path ⟨some new, false⟩ = d.hold l ⟨some new, false⟩ := by
    rw [Disk.putDatabase, FileM.touch_run h.leads hnode hread hwrite]
    simp only [h.leads]
  rw [hput]
  exact ⟨h.leads, h.file, h.entry, lookup_hold ..⟩

end Databases

end BuildServer.Disk
