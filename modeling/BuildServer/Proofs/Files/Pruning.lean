import BuildServer.Proofs.Files.Overwriting

namespace BuildServer

namespace Files

variable {fs fs' fs₁ fs₁' : Files} {path : String} {place l r : Location} {content : Bytes} {mode : Nat}
  {gone : Location → Prop}

theorem locate_parent_of_slot {d : String} (hs : fs.slot path = .ok (some ⟨place, false⟩))
    (h : Path.parent? path = some d) (hd : d ≠ "") : ∃ m, fs.locate d = .ok m ∧ fs.Enterable m := by
  obtain ⟨hcheck, init, name, m, hnames, leads, hdir, hname, hslot⟩ := slot_eq_some_iff.mp hs
  have hslash : (path.toList.getLast? == some '/') = false := (congrArg Slot.asDirectory hslot).symm
  obtain ⟨names, last, hsteps, hparent, habsolute⟩ := Path.steps_parent h hd
  rw [Path.steps_eq, hslash, if_neg (by simp), hnames, List.filter_append,
    List.filter_cons_of_pos (by simpa using hname.1)] at hsteps
  obtain ⟨rfl, -⟩ := List.append_inj' hsteps rfl
  have hundotted := leads.undot (undotted_filter init)
  have hbase : fs.base d = fs.base path := by rw [base, base, habsolute]
  refine ⟨m, locate_eq_ok_iff.mpr ⟨Path.check_parent h hd hcheck, ?_⟩, hdir⟩
  rw [hbase]
  rcases hparent with hparent | hparent
  · exact hparent ▸ hundotted
  · rw [hparent]
    cases hinit : init.filter (· != ".") with
    | nil =>
      rw [hinit] at hundotted
      cases hundotted
      exact .here hdir (.done _ _)
    | cons t ts =>
      rw [hinit] at hundotted
      exact .here (hundotted.enterable (List.cons_ne_nil _ _)) hundotted

structure SameWays (fs fs' : Files) : Prop where
  current : fs'.current = fs.current
  nodes : ∀ l n, (∀ content mode, n ≠ .file content mode) → (fs'.node? l = some n ↔ fs.node? l = some n)

theorem Same.sameWays (h : Same fs fs') : SameWays fs fs' :=
  ⟨h.current, fun l n _ => by rw [h.nodes]⟩

namespace SameWays

theorem refl (fs : Files) : SameWays fs fs := ⟨rfl, fun _ _ _ => Iff.rfl⟩

theorem symm (h : SameWays fs fs') : SameWays fs' fs :=
  ⟨h.current.symm, fun l n hn => (h.nodes l n hn).symm⟩

theorem trans (h : SameWays fs fs') (h' : SameWays fs' fs₁) : SameWays fs fs₁ :=
  ⟨h'.current.trans h.current, fun l n hn => (h'.nodes l n hn).trans (h.nodes l n hn)⟩

theorem directory_iff (h : SameWays fs fs') (l : Location) (mode : Nat) :
    fs'.node? l = some (.directory mode) ↔ fs.node? l = some (.directory mode) :=
  h.nodes l _ fun _ _ => by simp

theorem link_iff (h : SameWays fs fs') (l : Location) (target : String) :
    fs'.node? l = some (.link target) ↔ fs.node? l = some (.link target) :=
  h.nodes l _ fun _ _ => by simp

theorem enterable (h : SameWays fs fs') (hl : fs.Enterable l) : fs'.Enterable l := by
  obtain ⟨mode, hnode, henter⟩ := hl
  exact ⟨mode, (h.directory_iff l mode).mpr hnode, henter⟩

theorem base (h : SameWays fs fs') (path : String) : fs'.base path = fs.base path := by
  rw [Files.base, Files.base, h.current]

theorem leads (h : SameWays fs fs') {links : Nat} {names : List String} (leads : fs.Leads links l names r)
    (hr : (fs'.node? r).isSome) : fs'.Leads links l names r := by
  induction leads with
  | done links l => exact .done links l
  | here hdir _ ih => exact .here (h.enterable hdir) (ih hr)
  | up hdir _ ih => exact .up (h.enterable hdir) (ih hr)
  | link hdir hname hnode _ ih => exact .link (h.enterable hdir) hname ((h.link_iff _ _).mpr hnode) (ih hr)
  | @entry _ l _ s n names hdir hname hnode hlink rest ih =>
    cases n with
    | link target => exact absurd rfl (hlink target)
    | directory mode =>
      exact .entry (h.enterable hdir) hname ((h.directory_iff _ _).mpr hnode) (by simp) (ih hr)
    | file content mode =>
      -- Nothing comes behind a file, so the walk ends there.
      cases names with
      | cons t names =>
        obtain ⟨mode', hdirectory, -⟩ := rest.enterable (List.cons_ne_nil _ _)
        rw [hnode] at hdirectory
        cases hdirectory
      | nil =>
        cases rest
        obtain ⟨n', hn'⟩ := Option.isSome_iff_exists.mp hr
        refine .entry (h.enterable hdir) hname hn' (fun target htarget => ?_) (.done _ _)
        rw [htarget, h.link_iff, hnode] at hn'
        cases hn'

theorem locate (h : SameWays fs fs') (hl : fs.locate path = .ok l) (hsome : (fs'.node? l).isSome) :
    fs'.locate path = .ok l := by
  obtain ⟨hcheck, leads⟩ := locate_eq_ok_iff.mp hl
  rw [locate_eq_ok_iff, h.base]
  exact ⟨hcheck, h.leads leads hsome⟩

theorem locate_directory (h : SameWays fs fs') (hl : fs.locate path = .ok l)
    (hnode : fs.node? l = some (.directory mode)) : fs'.locate path = .ok l :=
  h.locate hl (by rw [(h.directory_iff l mode).mpr hnode]; rfl)

theorem locate_enterable (h : SameWays fs fs') (hl : ∃ m, fs.locate path = .ok m ∧ fs.Enterable m) :
    ∃ m, fs'.locate path = .ok m ∧ fs'.Enterable m := by
  obtain ⟨m, hm, mode, hnode, hmode⟩ := hl
  exact ⟨m, h.locate_directory hm hnode, h.enterable ⟨mode, hnode, hmode⟩⟩

theorem slot (h : SameWays fs fs') {s : Slot} (hs : fs.slot path = .ok (some s)) :
    fs'.slot path = .ok (some s) := by
  obtain ⟨hcheck, init, name, m, hnames, leads, hdir, hname, rfl⟩ := slot_eq_some_iff.mp hs
  have hdir' := h.enterable hdir
  have hsome : (fs'.node? m).isSome := by
    obtain ⟨mode, hnode, -⟩ := hdir'
    rw [hnode]
    rfl
  rw [slot_eq_some_iff, h.base]
  exact ⟨hcheck, init, name, m, hnames, h.leads leads hsome, hdir', hname, rfl⟩

theorem replaceable (h : SameWays fs fs') (replaceable : fs.Replaceable path place) :
    fs'.Replaceable path place := by
  obtain ⟨⟨slot, entry, free⟩, l, mode, hl, hnode, hwrite⟩ := replaceable
  obtain ⟨mode', hentry, hwrite'⟩ := checkEntry_ok_iff.mp entry
  exact ⟨⟨h.slot slot, checkEntry_ok_iff.mpr ⟨mode', (h.directory_iff _ _).mpr hentry, hwrite'⟩,
    fun mode hmode => free mode ((h.directory_iff _ _).mp hmode)⟩,
    l, mode, h.locate_directory hl hnode, (h.directory_iff _ _).mpr hnode, hwrite⟩

end SameWays

theorem sameWays_put (hplace : ∀ n, fs.node? place = some n → ∃ content mode, n = .file content mode) :
    SameWays fs (fs.put place (.file content mode)) where
  current := rfl
  nodes l n hn := by
    rw [node?_put]
    split
    · next hl =>
      constructor
      · intro h
        exact absurd (Option.some.inj h).symm (hn content mode)
      · intro h
        obtain ⟨content', mode', rfl⟩ := hplace n (hl.1 ▸ h)
        exact absurd rfl (hn content' mode')
    · rfl

theorem node?_removeAll (fs : Files) (removed : List Location) (l : Location) :
    (removed.foldl Files.remove fs).node? l = if l ∈ removed ∧ l ≠ [] then none else fs.node? l := by
  induction removed generalizing fs with
  | nil => simp
  | cons m removed ih =>
    rw [List.foldl_cons, ih, node?_remove]
    by_cases hroot : l = []
    · simp [hroot]
    · by_cases hl : l = m
      · subst hl
        simp [hroot]
      · simp [hroot, hl]

theorem current_removeAll (fs : Files) (removed : List Location) :
    (removed.foldl Files.remove fs).current = fs.current := by
  induction removed generalizing fs with
  | nil => rfl
  | cons m removed ih => rw [List.foldl_cons, ih, remove]

structure Pruned (gone : Location → Prop) (fs fs' : Files) : Prop where
  current : fs'.current = fs.current
  kept : ∀ l, ¬gone l → fs'.node? l = fs.node? l
  was : ∀ l, gone l → ∃ content mode, fs.node? l = some (.file content mode)
  lacks : ∀ l, gone l → fs'.node? l = none

theorem read_congr {path' : String} (hl : fs.locate path = .ok l) (hl' : fs'.locate path' = .ok l)
    (hnode : fs'.node? l = fs.node? l) : fs'.read path' = fs.read path := by
  rw [read, read, hl, hl']
  simp only [bind, Except.bind, hnode]

theorem present_iff : fs.present path = true ↔ ∃ l, fs.locate path = .ok l ∧ (fs.node? l).isSome := by
  rw [present]
  cases fs.locate path with
  | error e => simp
  | ok l => simp

namespace Pruned

theorem sameWays (h : Pruned gone fs fs') : SameWays fs fs' where
  current := h.current
  nodes l n hn := by
    by_cases hl : gone l
    · obtain ⟨content, mode, hfile⟩ := h.was l hl
      rw [h.lacks l hl, hfile]
      simpa using (hn content mode).symm
    · rw [h.kept l hl]

theorem not_gone (h : Pruned gone fs fs') (hsome : (fs'.node? l).isSome) : ¬gone l := by
  intro hl
  rw [h.lacks l hl] at hsome
  cases hsome

theorem locate_iff (h : Pruned gone fs fs') :
    (fs'.locate path = .ok l ∧ (fs'.node? l).isSome) ↔
      (fs.locate path = .ok l ∧ (fs.node? l).isSome) ∧ ¬gone l := by
  constructor
  · rintro ⟨hl, hsome⟩
    have hgone := h.not_gone hsome
    have hsome' : (fs.node? l).isSome := h.kept l hgone ▸ hsome
    exact ⟨⟨h.sameWays.symm.locate hl hsome', hsome'⟩, hgone⟩
  · rintro ⟨⟨hl, hsome⟩, hgone⟩
    have hsome' : (fs'.node? l).isSome := (h.kept l hgone).symm ▸ hsome
    exact ⟨h.sameWays.locate hl hsome', hsome'⟩

theorem read_iff (h : Pruned gone fs fs') : fs'.read path = .ok content ↔
    fs.read path = .ok content ∧ ∀ l, fs.locate path = .ok l → ¬gone l := by
  constructor
  · intro hread
    obtain ⟨l, mode, hl, hnode, hmode⟩ := read_eq_ok_iff.mp hread
    obtain ⟨⟨hl', -⟩, hgone⟩ := h.locate_iff.mp ⟨hl, by rw [hnode]; rfl⟩
    refine ⟨read_eq_ok_iff.mpr ⟨l, mode, hl', (h.kept l hgone) ▸ hnode, hmode⟩, fun m hm => ?_⟩
    obtain rfl := Except.ok.inj (hl'.symm.trans hm)
    exact hgone
  · rintro ⟨hread, hgone⟩
    obtain ⟨l, mode, hl, hnode, hmode⟩ := read_eq_ok_iff.mp hread
    obtain ⟨hl', -⟩ := h.locate_iff.mpr ⟨⟨hl, by rw [hnode]; rfl⟩, hgone l hl⟩
    exact read_eq_ok_iff.mpr ⟨l, mode, hl', (h.kept l (hgone l hl)).trans hnode, hmode⟩

theorem present_eq (h : Pruned gone fs fs') (hgone : ∀ l, gone l → fs.locate path ≠ .ok l) :
    fs'.present path = fs.present path := by
  rw [Bool.eq_iff_iff, present_iff, present_iff]
  refine exists_congr fun l => h.locate_iff.trans ?_
  exact and_iff_left_of_imp fun hl hgone' => hgone l hgone' hl.1

theorem congr (h : Pruned gone fs fs') (same : Same fs fs₁) (same' : Same fs' fs₁') :
    Pruned gone fs₁ fs₁' where
  current := by rw [same'.current, h.current, same.current]
  kept l hl := by rw [same'.nodes, h.kept l hl, same.nodes]
  was l hl := by
    rw [same.nodes]
    exact h.was l hl
  lacks l hl := by rw [same'.nodes, h.lacks l hl]

theorem put (h : Pruned gone fs fs') (place : Location) (content : Bytes) (mode : Nat) :
    Pruned (fun l => gone l ∧ l ≠ place) (fs.put place (.file content mode))
      (fs'.put place (.file content mode)) where
  current := h.current
  kept l hl := by
    rw [node?_put, node?_put]
    split
    · rfl
    · next hplace =>
      by_cases hgone : gone l
      · -- Only the root can be written to in vain, and it is no file.
        have hl : l = place := by
          by_contra hne
          exact hl ⟨hgone, hne⟩
        obtain ⟨content', mode', hfile⟩ := h.was l hgone
        have hroot : l = [] := by
          by_contra hne
          exact hplace ⟨hl, hne⟩
        rw [hroot, node?, if_pos rfl] at hfile
        cases hfile
      · exact h.kept l hgone
  was l hl := by
    rw [node?_put, if_neg fun h => hl.2 h.1]
    exact h.was l hl.1
  lacks l hl := by
    rw [node?_put, if_neg fun h => hl.2 h.1]
    exact h.lacks l hl.1

end Pruned

theorem pruned_removeAll {removed : List Location}
    (h : ∀ l ∈ removed, ∃ content mode, fs.node? l = some (.file content mode)) :
    Pruned (· ∈ removed) fs (removed.foldl Files.remove fs) where
  current := current_removeAll fs removed
  kept l hl := by rw [node?_removeAll, if_neg fun hin => hl hin.1]
  was l hl := h l hl
  lacks l hl := by
    have hroot : l ≠ [] := by
      rintro rfl
      obtain ⟨content, mode, hfile⟩ := h [] hl
      rw [node?, if_pos rfl] at hfile
      cases hfile
    rw [node?_removeAll, if_pos ⟨hl, hroot⟩]

end Files

namespace FileM

open Files

variable {fs : Files} {path : String} {content : Bytes} {l : Location}

theorem atomicWrite_there (hdir : fs.locate (directoryOf path) = .ok l) (henter : fs.Enterable l)
    (content : Bytes) :
    (∃ place, fs.Replaceable path place ∧
      Same (fs.put place (.file content 0o600)) ((atomicWrite path content).run.run fs).2) ∨
    (∀ place, ¬fs.Replaceable path place) ∧ Same fs ((atomicWrite path content).run.run fs).2 := by
  have hwrite : (atomicWrite path content).run.run fs = (replace path content).run.run fs := by
    rw [atomicWrite_eq, run_bind, makeDirectories_run hdir henter]
  rw [hwrite]
  by_cases h : ∃ place, fs.Replaceable path place
  · obtain ⟨place, hplace⟩ := h
    obtain ⟨fs', hrun, same⟩ := replace_ok hplace content
    rw [hrun]
    exact .inl ⟨place, hplace, same⟩
  · rw [not_exists] at h
    obtain ⟨e, fs', hrun, same⟩ := replace_fails h content
    rw [hrun]
    exact .inr ⟨h, same⟩

end FileM

end BuildServer
