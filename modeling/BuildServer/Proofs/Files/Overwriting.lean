import BuildServer.Proofs.Files.Replacing

namespace BuildServer

namespace Files

variable {fs fs' fs'' : Files} {path : String} {place l : Location} {content : Bytes} {mode : Nat}
  {places : Location → Prop}

theorem Leads.not_file {links : Nat} {r : Location} {rest : List String}
    (h : fs.Leads links l rest r) (hdir : fs.Enterable r) (content : Bytes) (mode : Nat) :
    fs.node? l ≠ some (.file content mode) := by
  have hl : fs.Enterable l := by
    cases rest with
    | nil =>
      cases h
      exact hdir
    | cons s rest => exact h.enterable (List.cons_ne_nil _ _)
  obtain ⟨mode', hnode, -⟩ := hl
  simp [hnode]

theorem Leads.cons_inv {links : Nat} {r : Location} {s : String} {rest : List String}
    (h : fs.Leads links l (s :: rest) r) :
    (s = "." ∧ fs.Leads links l rest r) ∨ (s = ".." ∧ fs.Leads links l.dropLast rest r) ∨
      EntryName s ∧ ((∃ left target, fs.node? (l ++ [s]) = some (.link target) ∧
          fs.Leads left (linkBase l target) (steps target ++ rest) r) ∨
        ∃ n, fs.node? (l ++ [s]) = some n ∧ (∀ target, n ≠ .link target) ∧
          fs.Leads links (l ++ [s]) rest r) := by
  cases h with
  | here _ h => exact .inl ⟨rfl, h⟩
  | up _ h => exact .inr (.inl ⟨rfl, h⟩)
  | link _ hname hnode h => exact .inr (.inr ⟨hname, .inl ⟨_, _, hnode, h⟩⟩)
  | entry _ hname hnode hlink h => exact .inr (.inr ⟨hname, .inr ⟨_, hnode, hlink, h⟩⟩)

structure Overwritten (places : Location → Prop) (fs fs' : Files) : Prop where
  current : fs'.current = fs.current
  nodes : ∀ l n, fs.node? l = some n → fs'.node? l = some n ∨
    places l ∧ n.isDirectory = false ∧ ∃ content mode, fs'.node? l = some (.file content mode)

namespace Overwritten

theorem refl (places : Location → Prop) (fs : Files) : Overwritten places fs fs :=
  ⟨rfl, fun _ _ h => .inl h⟩

theorem trans (h : Overwritten places fs fs') (h' : Overwritten places fs' fs'') :
    Overwritten places fs fs'' where
  current := h'.current.trans h.current
  nodes l n hn := by
    rcases h.nodes l n hn with hn' | ⟨hl, hdir, content, mode, hfile⟩
    · exact h'.nodes l n hn'
    · right
      refine ⟨hl, hdir, ?_⟩
      rcases h'.nodes l _ hfile with hfile' | ⟨-, -, hfile'⟩
      · exact ⟨content, mode, hfile'⟩
      · exact hfile'

theorem mono {places' : Location → Prop} (h : Overwritten places fs fs')
    (hplaces : ∀ l, places l → places' l) : Overwritten places' fs fs' :=
  ⟨h.current, fun l n hn => (h.nodes l n hn).imp_right fun ⟨hl, hfile⟩ => ⟨hplaces l hl, hfile⟩⟩

theorem leads_eq (h : Overwritten places fs fs') {links : Nat} {l r : Location} {names : List String}
    (leads : fs.Leads links l names r) (hdir : fs.Enterable r) {links' : Nat} {r' : Location}
    (leads' : fs'.Leads links' l names r') (hdir' : fs'.Enterable r') : r = r' := by
  induction leads generalizing links' with
  | done links l =>
    cases leads'
    rfl
  | here _ _ ih =>
    obtain ⟨-, rest⟩ | ⟨hup, -⟩ | ⟨hname, -⟩ := leads'.cons_inv
    · exact ih hdir rest
    · exact absurd hup (by decide)
    · exact absurd rfl hname.1
  | up _ _ ih =>
    obtain ⟨hhere, -⟩ | ⟨-, rest⟩ | ⟨hname, -⟩ := leads'.cons_inv
    · exact absurd hhere (by decide)
    · exact ih hdir rest
    · exact absurd rfl hname.2.1
  | @link _ l _ s target _ _ hname hnode _ ih =>
    obtain ⟨hhere, -⟩ | ⟨hup, -⟩ | ⟨-, ⟨left, target', hnode', rest⟩ | ⟨n, hnode', hlink, rest⟩⟩ :=
      leads'.cons_inv
    · exact absurd hhere hname.1
    · exact absurd hup hname.2.1
    · rcases h.nodes _ _ hnode with hsame | ⟨-, -, content, mode, hfile⟩
      · rw [hnode'] at hsame
        cases hsame
        exact ih hdir rest
      · rw [hnode'] at hfile
        cases hfile
    · rcases h.nodes _ _ hnode with hsame | ⟨-, -, content, mode, hfile⟩
      · rw [hnode'] at hsame
        cases hsame
        exact absurd rfl (hlink target)
      · exact absurd hfile (rest.not_file hdir' content mode)
  | @entry _ l _ s n _ _ hname hnode hlink before ih =>
    cases n with
    | link target => exact absurd rfl (hlink target)
    | file content mode => exact absurd hnode (before.not_file hdir content mode)
    | directory mode =>
      have hsame : fs'.node? (l ++ [s]) = some (.directory mode) := by
        rcases h.nodes _ _ hnode with hsame | ⟨-, hfalse, -⟩
        · exact hsame
        · cases hfalse
      obtain ⟨hhere, -⟩ | ⟨hup, -⟩ | ⟨-, ⟨left, target', hnode', -⟩ | ⟨-, -, -, rest⟩⟩ :=
        leads'.cons_inv
      · exact absurd hhere hname.1
      · exact absurd hup hname.2.1
      · rw [hsame] at hnode'
        cases hnode'
      · exact ih hdir rest

theorem slot_eq (h : Overwritten places fs fs') {s s' : Slot} (hs : fs.slot path = .ok (some s))
    (hs' : fs'.slot path = .ok (some s')) : s = s' := by
  obtain ⟨-, init, name, m, hnames, leads, hdir, -, rfl⟩ := slot_eq_some_iff.mp hs
  obtain ⟨-, init', name', m', hnames', leads', hdir', -, rfl⟩ := slot_eq_some_iff.mp hs'
  rw [hnames] at hnames'
  obtain ⟨rfl, hname⟩ := List.append_inj' hnames' rfl
  obtain rfl := List.singleton_inj.mp hname
  have hbase : fs'.base path = fs.base path := by rw [base, base, h.current]
  rw [hbase] at leads'
  rw [h.leads_eq leads hdir leads' hdir']

theorem file (h : Overwritten places fs fs') (hplace : ¬places l)
    (hnode : fs.node? l = some (.file content mode)) : fs'.node? l = some (.file content mode) :=
  (h.nodes l _ hnode).resolve_right fun hl => hplace hl.1

end Overwritten

theorem Same.overwritten (places : Location → Prop) (h : Same fs fs') : Overwritten places fs fs' :=
  ⟨h.current, fun l _ hn => .inl ((h.nodes l).trans hn)⟩

theorem overwritten_put (hfree : ∀ mode, fs.node? place ≠ some (.directory mode)) :
    Overwritten (· = place) fs (fs.put place (.file content mode)) where
  current := rfl
  nodes l n hn := by
    rw [node?_put]
    split
    · next hl =>
      right
      refine ⟨hl.1, ?_, content, mode, rfl⟩
      cases n with
      | directory mode => exact absurd (hl.1 ▸ hn) (hfree mode)
      | file content mode => rfl
      | link target => rfl
    · exact .inl hn

theorem exists_slot {name : String} {init : List String} (hnames : Path.names path = init ++ [name])
    (hdot : name ≠ ".") (hup : name ≠ "..") (hl : fs.locate path = .ok l) :
    ∃ s, fs.slot path = .ok (some s) := by
  obtain ⟨hcheck, leads⟩ := locate_eq_ok_iff.mp hl
  have leads' : ∃ r, fs.Leads maxLinks (fs.base path) (init ++ [name]) r := by
    rw [Path.steps_eq, hnames] at leads
    split at leads
    · obtain ⟨m, leads, -⟩ := leads.last
      exact ⟨m, leads⟩
    · exact ⟨l, leads⟩
  obtain ⟨r, leads'⟩ := leads'
  obtain ⟨m, left, before, last⟩ := leads'.cut init [name] rfl
  have hentry : EntryName name := by
    cases last with
    | here => exact absurd rfl hdot
    | up => exact absurd rfl hup
    | link _ hentry => exact hentry
    | entry _ hentry => exact hentry
  exact ⟨_, slot_eq_some_iff.mpr ⟨hcheck, init, name, m, hnames, before,
    last.enterable (List.cons_ne_nil _ _), hentry, rfl⟩⟩

theorem read_eq_ok_iff : fs.read path = .ok content ↔
    ∃ l mode, fs.locate path = .ok l ∧ fs.node? l = some (.file content mode) ∧
      Mode.readable mode = true := by
  constructor
  · intro h
    cases hl : fs.locate path with
    | error e => simp [read, hl, bind, Except.bind] at h
    | ok l =>
      simp only [read, hl, bind, Except.bind] at h
      split at h
      · next content' mode hnode =>
        split at h
        · next hread =>
          cases h
          exact ⟨l, mode, rfl, hnode, hread⟩
        · cases h
      · cases h
      · cases h
  · rintro ⟨l, mode, hl, hnode, hread⟩
    simp [read, hl, hnode, hread, bind, Except.bind]

end Files

namespace FileM

open Files

variable {fs fs' : Files} {path : String} {content : Bytes} {places : Location → Prop}

theorem makeDirectory_cases (trouble : Option FileError) (fs : Files) (path : String) :
    (∃ e, (makeDirectory trouble path).run.run fs = (.error e, fs)) ∨
    ∃ s, fs.slot path = .ok (some s) ∧ fs.node? s.location = none ∧
      (makeDirectory trouble path).run.run fs = (.ok (), fs.put s.location (.directory 0o755)) := by
  rw [makeDirectory, run_bind, run_fromFiles]
  cases hslot : fs.slot path with
  | error e => exact .inl ⟨e, rfl⟩
  | ok s =>
    cases s with
    | none => exact .inl ⟨_, rfl⟩
    | some s =>
      dsimp only
      rw [run_bind, run_get]
      dsimp only
      split
      · exact .inl ⟨_, rfl⟩
      · next hnew =>
        rw [run_bind, run_fromFiles]
        cases fs.checkEntry s.location with
        | error e => exact .inl ⟨e, rfl⟩
        | ok u =>
          cases trouble with
          | some e => exact .inl ⟨e, rfl⟩
          | none => exact .inr ⟨s, rfl, Option.not_isSome_iff_eq_none.mp hnew, rfl⟩

theorem makeDirectory_overwritten (trouble : Option FileError) (fs : Files) (path : String) :
    Overwritten (fun _ => False) fs ((makeDirectory trouble path).run.run fs).2 := by
  rcases makeDirectory_cases trouble fs path with ⟨e, hrun⟩ | ⟨s, -, hnew, hrun⟩
  · rw [hrun]
    exact .refl _ fs
  · rw [hrun]
    refine ⟨rfl, fun l n hn => .inl ?_⟩
    rw [node?_put, if_neg, hn]
    rintro ⟨rfl, -⟩
    rw [hnew] at hn
    cases hn

section Related

variable {R : Files → Files → Prop} (refl : ∀ fs, R fs fs)
  (trans : ∀ {fs fs' fs''}, R fs fs' → R fs' fs'' → R fs fs'')

include trans in
theorem orElse_related {x : FileM Unit} {y : FileError → FileM Unit} {fs : Files}
    (hx : R fs (x.run.run fs).2) (hy : ∀ e, R (x.run.run fs).2 ((y e).run.run (x.run.run fs).2).2) :
    R fs ((orElse x y).run.run fs).2 := by
  rw [run_orElse]
  cases hrun : x.run.run fs with
  | mk r fs' =>
    rw [hrun] at hx hy
    cases r with
    | ok u => exact hx
    | error e => exact trans hx (hy e)

include refl trans in
theorem makeDirectoriesWithin_related {P : String → Prop} {trouble : String → Option FileError}
    (above : ∀ path outer, P path → Path.parent? path = some outer → P outer)
    (step : ∀ fs path, P path → R fs ((makeDirectory (trouble path) path).run.run fs).2) (fuel : Nat)
    (path : String) (hpath : P path) (fs : Files) :
    R fs ((makeDirectoriesWithin trouble fuel path).run.run fs).2 := by
  induction fuel generalizing path fs with
  | zero => exact refl fs
  | succ fuel ih =>
    have settled (e : FileError) (fs : Files) : R fs
        (((do if (← get).isDirectory path then pure () else throw e : FileM Unit)).run.run fs).2 := by
      rw [run_bind, run_get]
      dsimp only
      split <;> exact refl fs
    rw [makeDirectoriesWithin]
    dsimp only
    split
    · exact refl fs
    · refine orElse_related @trans (step fs path hpath) fun e => ?_
      split
      · split
        · exact refl _
        · next outer houter =>
          rw [run_bind]
          have before := ih outer (above path outer hpath houter)
            ((makeDirectory (trouble path) path).run.run fs).2
          cases hrun : (makeDirectoriesWithin trouble fuel outer).run.run
              ((makeDirectory (trouble path) path).run.run fs).2 with
          | mk r fs' =>
            rw [hrun] at before
            cases r with
            | error e => exact before
            | ok u => exact trans before (orElse_related @trans (step fs' path hpath) fun e => settled e _)
      · exact settled e _

end Related

theorem makeDirectories_overwritten (path : String) (fs : Files) :
    Overwritten (fun _ => False) fs ((makeDirectories path).run.run fs).2 :=
  makeDirectoriesWithin_related (P := fun _ => True) (.refl _) .trans (fun _ _ _ _ => trivial)
    (fun fs path _ => makeDirectory_overwritten none fs path) _ path trivial fs

theorem atomicWrite_ok (h : (atomicWrite path content).run.run fs = (.ok (), fs')) :
    ∃ made place, Overwritten (fun _ => False) fs made ∧ made.Replaceable path place ∧
      Same (made.put place (.file content 0o600)) fs' := by
  have before := makeDirectories_overwritten (directoryOf path) fs
  rw [atomicWrite_eq, run_bind] at h
  cases hrun : (makeDirectories (directoryOf path)).run.run fs with
  | mk r made =>
    rw [hrun] at h before
    cases r with
    | error e => cases h
    | ok u =>
      dsimp only at h before
      by_cases hplace : ∃ place, made.Replaceable path place
      · obtain ⟨place, hplace⟩ := hplace
        obtain ⟨written, hwritten, same⟩ := replace_ok hplace content
        rw [hwritten] at h
        obtain rfl := congrArg Prod.snd h
        exact ⟨made, place, before, hplace, same⟩
      · obtain ⟨e, left, hfails, -⟩ := replace_fails (fun place h => hplace ⟨place, h⟩) content
        rw [hfails] at h
        cases h

end FileM

namespace Files

variable {fs fs' : Files} {path : String} {content : Bytes}

theorem getLast?_slot {s : Slot} (h : fs.slot path = .ok (some s)) :
    s.location.getLast? = (Path.names path).getLast? := by
  obtain ⟨-, init, name, m, hnames, -, -, -, rfl⟩ := slot_eq_some_iff.mp h
  rw [hnames, List.getLast?_concat, List.getLast?_concat]

theorem Overwritten.written {places : Location → Prop}
    (h : (FileM.atomicWrite path content).run.run fs = (.ok (), fs'))
    (hplaces : ∀ l, l.getLast? = (Path.names path).getLast? → places l) : Overwritten places fs fs' := by
  obtain ⟨made, place, before, replaceable, same⟩ := FileM.atomicWrite_ok h
  refine (before.mono fun l h => h.elim).trans
    (((overwritten_put replaceable.free).mono fun l hl => hplaces l ?_).trans (same.overwritten _))
  rw [hl]
  exact getLast?_slot replaceable.slot

def Holds (fs : Files) (path : String) (content : Bytes) : Prop :=
  ∃ before place, before.slot path = .ok (some ⟨place, false⟩) ∧
    Overwritten (fun _ => True) before fs ∧ fs.node? place = some (.file content 0o600)

theorem holds_of_write (h : (FileM.atomicWrite path content).run.run fs = (.ok (), fs')) :
    fs'.Holds path content := by
  obtain ⟨made, place, -, replaceable, same⟩ := FileM.atomicWrite_ok h
  obtain ⟨init, name, m, -, rfl, -⟩ := slot_isFile_enterable replaceable.slot
  refine ⟨made, m ++ [name], replaceable.slot,
    ((overwritten_put replaceable.free).mono fun _ _ => trivial).trans (same.overwritten _), ?_⟩
  rw [same.nodes, node?_put, if_pos ⟨rfl, by simp⟩]

namespace Holds

theorem write_other {other : String} {data : Bytes} (holds : fs.Holds path content)
    (h : (FileM.atomicWrite other data).run.run fs = (.ok (), fs'))
    (hnames : (Path.names other).getLast? ≠ (Path.names path).getLast?) : fs'.Holds path content := by
  obtain ⟨before, place, slot, overwritten, hnode⟩ := holds
  have hwritten : Overwritten (· ≠ place) fs fs' := .written h fun l hl hplace =>
    hnames (hl.symm.trans (hplace ▸ getLast?_slot slot))
  exact ⟨before, place, slot, overwritten.trans (hwritten.mono fun _ _ => trivial),
    hwritten.file (fun h => h rfl) hnode⟩

theorem read_eq {s : Slot} (holds : fs.Holds path content) (h : fs.slot path = .ok (some s)) :
    fs.read path = .ok content := by
  obtain ⟨before, place, slot, overwritten, hnode⟩ := holds
  obtain rfl := overwritten.slot_eq slot h
  exact read_of_slot h hnode (by decide)

theorem eq_of_read {name : String} {init : List String} {data : Bytes} (holds : fs.Holds path content)
    (hnames : Path.names path = init ++ [name]) (hdot : name ≠ ".") (hup : name ≠ "..")
    (h : fs.read path = .ok data) : data = content := by
  obtain ⟨l, -, hl, -⟩ := read_eq_ok_iff.mp h
  obtain ⟨s, slot⟩ := exists_slot hnames hdot hup hl
  exact Except.ok.inj (h.symm.trans (holds.read_eq slot))

end Holds

end Files

end BuildServer
