import BuildServer.Files.AtomicWrite
import BuildServer.Proofs.Files.Runs

namespace BuildServer

namespace Files

variable {fs fs' fs'' : Files} {path name : String} {place l : Location} {content : Bytes} {mode : Nat}

structure Same (fs fs' : Files) : Prop where
  current : fs'.current = fs.current
  nodes : ∀ l, fs'.node? l = fs.node? l

namespace Same

theorem refl (fs : Files) : Same fs fs := ⟨rfl, fun _ => rfl⟩

theorem symm (h : Same fs fs') : Same fs' fs := ⟨h.current.symm, fun l => (h.nodes l).symm⟩

theorem trans (h : Same fs fs') (h' : Same fs' fs'') : Same fs fs'' :=
  ⟨h'.current.trans h.current, fun l => (h'.nodes l).trans (h.nodes l)⟩

theorem follow (h : Same fs fs') (again : Location → List String → Except FileError Location) :
    fs'.follow again = fs.follow again := by
  funext l names
  induction names generalizing l with
  | nil => rfl
  | cons s rest ih => simp only [Files.follow, h.nodes, ih]

theorem walk (h : Same fs fs') (links : Nat) : fs'.walk links = fs.walk links := by
  induction links with
  | zero => rw [Files.walk, Files.walk, h.follow]
  | succ links ih => rw [Files.walk, Files.walk, ih, h.follow]

theorem base (h : Same fs fs') (path : String) : fs'.base path = fs.base path := by
  rw [Files.base, Files.base, h.current]

theorem locate (h : Same fs fs') (path : String) : fs'.locate path = fs.locate path := by
  rw [Files.locate, Files.locate, h.walk, h.base]

theorem slot (h : Same fs fs') (path : String) : fs'.slot path = fs.slot path := by
  simp only [Files.slot, h.walk, h.base, h.nodes]

theorem read (h : Same fs fs') (path : String) : fs'.read path = fs.read path := by
  simp only [Files.read, h.locate, h.nodes]

theorem checkEntry (h : Same fs fs') (l : Location) : fs'.checkEntry l = fs.checkEntry l := by
  rw [Files.checkEntry, Files.checkEntry, h.nodes]

theorem present (h : Same fs fs') (path : String) : fs'.present path = fs.present path := by
  simp only [Files.present, h.locate, h.nodes]

theorem put (h : Same fs fs') (l : Location) (n : Node) : Same (fs.put l n) (fs'.put l n) where
  current := h.current
  nodes m := by rw [node?_put, node?_put, h.nodes]

end Same

theorem node?_remove (fs : Files) (l m : Location) :
    (fs.remove l).node? m = if m = l ∧ m ≠ [] then none else fs.node? m := by
  rw [node?, node?]
  by_cases hroot : m = []
  · simp [hroot]
  · rw [if_neg hroot, if_neg hroot, remove]
    by_cases hm : m = l
    · rw [if_pos ⟨hm, hroot⟩, List.lookup_eq_none_iff]
      intro e he
      rw [List.mem_filter, bne_iff_ne] at he
      rw [hm, bne_iff_ne]
      exact Ne.symm he.2
    · rw [if_neg fun h => hm h.1]
      exact lookup_filter_ne fs.nodes hm

theorem Leads.snoc {links : Nat} {l m : Location} {names : List String} {s : String} {n : Node}
    (h : fs.Leads links l names m) (hdir : fs.Enterable m) (hname : EntryName s)
    (hnode : fs.node? (m ++ [s]) = some n) (hlink : ∀ target, n ≠ .link target) :
    fs.Leads links l (names ++ [s]) (m ++ [s]) := by
  induction h with
  | done links l => exact .entry hdir hname hnode hlink (.done links _)
  | here hl _ ih => exact .here hl (ih hdir hnode)
  | up hl _ ih => exact .up hl (ih hdir hnode)
  | link hl hs hlinked _ ih =>
    refine .link hl hs hlinked ?_
    have h := ih hdir hnode
    rwa [List.append_assoc] at h
  | entry hl hs hthere hother _ ih => exact .entry hl hs hthere hother (ih hdir hnode)

theorem slot_eq_some_iff {s : Slot} : fs.slot path = .ok (some s) ↔
    check path = .ok () ∧ ∃ init name m, Path.names path = init ++ [name] ∧
      fs.Leads maxLinks (fs.base path) init m ∧ fs.Enterable m ∧ EntryName name ∧
      s = ⟨m ++ [name], path.toList.getLast? == some '/'⟩ := by
  constructor
  · intro h
    have hcheck : check path = .ok () := by
      cases hcheck : check path with
      | error e => simp [slot, hcheck, bind, Except.bind] at h
      | ok u => rfl
    refine ⟨hcheck, ?_⟩
    rcases (Path.names path).eq_nil_or_concat with hempty | ⟨init, name, hsnoc⟩
    · rw [Path.names] at hempty
      simp [slot, hcheck, hempty, bind, Except.bind, pure, Except.pure] at h
    rw [List.concat_eq_append] at hsnoc
    have hsnoc' := hsnoc
    rw [Path.names] at hsnoc'
    simp only [slot, hcheck, hsnoc', List.getLast?_concat, List.dropLast_concat, bind, Except.bind] at h
    cases hwalk : fs.walk maxLinks (fs.base path) init with
    | error e => simp [hwalk] at h
    | ok m =>
      simp only [hwalk] at h
      split at h
      · next mode hnode =>
        cases henter : Mode.enterable mode with
        | false => simp [henter] at h
        | true =>
          simp only [henter, Bool.not_true, Bool.false_eq_true, if_false] at h
          split at h
          · cases h
          · next hdots =>
            split at h
            · cases h
            · next hlong =>
              rw [not_or] at hdots
              cases h
              exact ⟨init, name, m, hsnoc, walk_eq_ok_iff.mp hwalk, ⟨mode, hnode, henter⟩,
                ⟨hdots.1, hdots.2, Nat.le_of_not_lt hlong⟩, rfl⟩
      · cases h
  · rintro ⟨hcheck, init, name, m, hsnoc, leads, hdir, hname, rfl⟩
    rw [slot_of_names hcheck hsnoc leads.walk hdir, if_neg (by simp [hname.1, hname.2.1]),
      if_neg (Nat.not_lt.mpr hname.2.2)]

theorem slot_isFile_enterable (h : fs.slot path = .ok (some ⟨place, false⟩)) :
    ∃ init name m, Path.names path = init ++ [name] ∧ place = m ++ [name] ∧ fs.Enterable m := by
  obtain ⟨-, init, name, m, hnames, -, hdir, -, hs⟩ := slot_eq_some_iff.mp h
  exact ⟨init, name, m, hnames, congrArg Slot.location hs, hdir⟩

theorem locate_of_slot {n : Node} (h : fs.slot path = .ok (some ⟨place, false⟩))
    (hnode : fs.node? place = some n) (hlink : ∀ target, n ≠ .link target) :
    fs.locate path = .ok place := by
  obtain ⟨hcheck, init, name, m, hnames, leads, hdir, hname, hs⟩ := slot_eq_some_iff.mp h
  obtain ⟨rfl, hslash⟩ := Slot.mk.inj hs
  refine locate_eq_ok_iff.mpr ⟨hcheck, ?_⟩
  rw [Path.steps_eq, ← hslash, if_neg (by simp), hnames]
  exact leads.snoc hdir hname hnode hlink

theorem read_of_slot (h : fs.slot path = .ok (some ⟨place, false⟩))
    (hnode : fs.node? place = some (.file content mode)) (hread : Mode.readable mode = true) :
    fs.read path = .ok content := by
  simp [read, locate_of_slot h hnode (by simp), hnode, hread, bind, Except.bind]

theorem slot_put_new {s : Slot} (hnew : fs.node? l = none) :
    (fs.put l (.file content mode)).slot path = .ok (some s) ↔ fs.slot path = .ok (some s) := by
  have kept : fs.Kept (fs.put l (.file content mode)) := kept_put fun old hold => by
    rw [hnew] at hold
    cases hold
  have hdir {m : Location} (h : (fs.put l (.file content mode)).Enterable m) : m ≠ l := by
    rintro rfl
    obtain ⟨mode', hnode, -⟩ := h
    rw [node?_put] at hnode
    split at hnode
    · cases hnode
    · rw [hnew] at hnode
      cases hnode
  rw [slot_eq_some_iff, slot_eq_some_iff]
  refine and_congr_right fun _ => ⟨?_, ?_⟩
  · rintro ⟨init, name, m, hnames, leads, henter, hname, rfl⟩
    have hm := hdir henter
    refine ⟨init, name, m, hnames, (leads.of_put_file hnew).resolve_right hm, ?_, hname, rfl⟩
    obtain ⟨mode', hnode, h⟩ := henter
    rw [node?_put, if_neg fun h => hm h.1] at hnode
    exact ⟨mode', hnode, h⟩
  · rintro ⟨init, name, m, hnames, leads, henter, hname, rfl⟩
    exact ⟨init, name, m, hnames, leads.kept kept, kept.enterable henter, hname, rfl⟩

theorem checkEntry_ok_iff : fs.checkEntry l = .ok () ↔
    ∃ mode, fs.node? l.dropLast = some (.directory mode) ∧ Mode.writable mode = true := by
  rw [checkEntry]
  split
  · next mode hnode =>
    rw [hnode]
    cases h : Mode.writable mode <;> simp [h]
  · next h =>
    simp only [reduceCtorEq, false_iff, not_exists, not_and]
    intro mode hnode
    exact absurd hnode (h mode)

structure Movable (fs : Files) (path : String) (place : Location) : Prop where
  slot : fs.slot path = .ok (some ⟨place, false⟩)
  entry : fs.checkEntry place = .ok ()
  free : ∀ mode, fs.node? place ≠ some (.directory mode)

structure Replaceable (fs : Files) (path : String) (place : Location) : Prop
    extends Movable fs path place where
  beside : ∃ l mode, fs.locate (FileM.directoryOf path) = .ok l ∧
    fs.node? l = some (.directory mode) ∧ Mode.writable mode = true

theorem movable_put_new (hnew : fs.node? l = none) :
    (fs.put l (.file content mode)).Movable path place ↔ fs.Movable path place := by
  have hdirectory (m : Location) (mode' : Nat) :
      (fs.put l (.file content mode)).node? m = some (.directory mode') ↔
        fs.node? m = some (.directory mode') := by
    rw [node?_put]
    split
    · next h => simp [h.1, hnew]
    · rfl
  constructor
  · rintro ⟨slot, entry, free⟩
    refine ⟨(slot_put_new hnew).mp slot, ?_, fun mode' h => free mode' ((hdirectory _ _).mpr h)⟩
    rw [checkEntry_ok_iff] at entry ⊢
    simpa only [hdirectory] using entry
  · rintro ⟨slot, entry, free⟩
    refine ⟨(slot_put_new hnew).mpr slot, ?_, fun mode' h => free mode' ((hdirectory _ _).mp h)⟩
    rw [checkEntry_ok_iff] at entry ⊢
    simpa only [hdirectory] using entry

theorem Same.movable (h : Same fs fs') : fs'.Movable path place ↔ fs.Movable path place := by
  constructor <;> rintro ⟨slot, entry, free⟩
  · exact ⟨h.slot path ▸ slot, h.checkEntry place ▸ entry, h.nodes place ▸ free⟩
  · exact ⟨h.symm.slot path ▸ slot, h.symm.checkEntry place ▸ entry, h.symm.nodes place ▸ free⟩

end Files

namespace FileM

open Files

variable {fs : Files} {path : String} {content : Bytes} {place : Location}

theorem le_foldl_max {names : List String} {s : String} (h : s ∈ names) (n : Nat) :
    s.length ≤ names.foldl (fun n s => max n s.length) n := by
  have start (names : List String) (n : Nat) : n ≤ names.foldl (fun n s => max n s.length) n := by
    induction names generalizing n with
    | nil => exact Nat.le_refl n
    | cons t names ih => exact Nat.le_trans (Nat.le_max_left _ _) (ih _)
  induction names generalizing n with
  | nil => cases h
  | cons t names ih =>
    rcases List.mem_cons.mp h with rfl | h
    · exact Nat.le_trans (Nat.le_max_right _ _) (start names _)
    · exact ih h _

theorem node?_stagingName (fs : Files) (l : Location) : fs.node? (l ++ [stagingName fs]) = none := by
  rw [node?, if_neg (by simp), List.lookup_eq_none_iff]
  intro e he
  rw [bne_iff_ne]
  intro heq
  have hmem : stagingName fs ∈ fs.nodes.flatMap (·.1) :=
    List.mem_flatMap.mpr ⟨e, he, by rw [← heq]; simp⟩
  have hle := le_foldl_max hmem 0
  have hlength : (stagingName fs).length =
      4 + (fs.nodes.flatMap (·.1)).foldl (fun n s => max n s.length) 0 := by
    change (String.ofList (".tmp".toList ++ List.replicate _ 'x')).length = _
    rw [String.length_ofList, List.length_append, List.length_replicate]
    rfl
  omega

def replace (path : String) (content : Bytes) : FileM Unit := do
  let staged ← stage .none (directoryOf path)
  orElse (do fill .none staged content; moveInto staged path) fun e => do
    modify (·.remove staged)
    throw e

theorem atomicWrite_eq (path : String) (content : Bytes) :
    atomicWrite path content = (makeDirectories (directoryOf path) >>= fun _ => replace path content) :=
  rfl

theorem run_failIf_none (fs : Files) : (failIf .none).run.run fs = (.ok (), fs) := rfl

theorem run_put (fs fs' : Files) : (set fs' : FileM Unit).run.run fs = (.ok (), fs') := rfl

theorem run_return {α : Type} (a : α) (fs : Files) : (pure a : FileM α).run.run fs = (.ok a, fs) := rfl

theorem stage_ok {directory : String} {l : Location} {mode : Nat} (hl : fs.locate directory = .ok l)
    (hnode : fs.node? l = some (.directory mode)) (hwrite : Mode.writable mode = true) :
    (stage .none directory).run.run fs =
      (.ok (l ++ [stagingName fs]), fs.put (l ++ [stagingName fs]) (.file [] 0o600)) := by
  have entry : fs.checkEntry (l ++ [stagingName fs]) = .ok () :=
    checkEntry_ok_iff.mpr ⟨mode, by rw [List.dropLast_concat, hnode], hwrite⟩
  simp only [stage, run_bind, run_fromFiles, hl, run_get, hnode, Trouble.none, run_failIf_none, entry,
    run_put, run_return]

theorem stage_fails (fs : Files) (directory : String) (h : ∀ l mode, fs.locate directory = .ok l →
      fs.node? l = some (.directory mode) → Mode.writable mode = false) :
    ∃ e, (stage .none directory).run.run fs = (.error e, fs) := by
  simp only [stage, run_bind, run_fromFiles, run_get, Trouble.none]
  cases hl : fs.locate directory with
  | error e => exact ⟨e, rfl⟩
  | ok l =>
    dsimp only
    split
    · next mode hnode =>
      have entry : fs.checkEntry (l ++ [stagingName fs]) = .error .accessDenied := by
        simp [checkEntry, hnode, h l mode hl hnode]
      exact ⟨.accessDenied, by simp only [run_bind, run_failIf_none, run_fromFiles, entry]⟩
    · exact ⟨_, rfl⟩

theorem fill_run (staged : Location) : (fill .none staged content).run.run fs =
    (.ok (), fs.put staged (.file content 0o600)) := rfl

theorem moveInto_ok {staged : Location} {n : Node} (hnode : fs.node? staged = some n)
    (h : fs.Movable path place) :
    (moveInto staged path).run.run fs = (.ok (), (fs.remove staged).put place n) := by
  rw [moveInto, run_bind, run_fromFiles, h.slot]
  dsimp only
  rw [if_neg (by simp), run_bind, run_get]
  dsimp only
  rw [hnode]
  cases hplace : fs.node? place with
  | none => simp only [run_bind, run_fromFiles, h.entry, run_put]
  | some old =>
    cases old with
    | directory mode => exact absurd hplace (h.free mode)
    | file content mode => simp only [run_bind, run_fromFiles, h.entry, run_put]
    | link target => simp only [run_bind, run_fromFiles, h.entry, run_put]

theorem moveInto_fails (fs : Files) (path : String) (staged : Location) (h : ∀ place, ¬fs.Movable path place) :
    ∃ e, (moveInto staged path).run.run fs = (.error e, fs) := by
  rw [moveInto, run_bind, run_fromFiles]
  cases hslot : fs.slot path with
  | error e => exact ⟨e, rfl⟩
  | ok s =>
    cases s with
    | none => exact ⟨_, rfl⟩
    | some s =>
      obtain ⟨place, asDirectory⟩ := s
      dsimp only
      split
      · exact ⟨_, rfl⟩
      · next hfile =>
        rw [Bool.not_eq_true] at hfile
        subst hfile
        rw [run_bind, run_get]
        dsimp only
        split
        · exact ⟨_, rfl⟩
        · next n hn free =>
          rw [run_bind, run_fromFiles]
          cases entry : fs.checkEntry place with
          | error e => exact ⟨e, rfl⟩
          | ok u => exact absurd ⟨hslot, entry, fun mode hmode => free mode hmode⟩ (h place)
        · exact ⟨_, rfl⟩

theorem same_staged (fs : Files) (l : Location) (content : Bytes) :
    Same (fs.put l (.file content 0o600))
      ((fs.put l (.file [] 0o600)).put l (.file content 0o600)) where
  current := rfl
  nodes m := by
    rw [node?_put, node?_put, node?_put]
    split <;> rfl

theorem replace_ok (h : fs.Replaceable path place) (content : Bytes) :
    ∃ fs', (replace path content).run.run fs = (.ok (), fs') ∧
      Same (fs.put place (.file content 0o600)) fs' := by
  obtain ⟨movable, l, mode, hl, hnode, hwrite⟩ := h
  let staged := l ++ [stagingName fs]
  have hnew : fs.node? staged = none := node?_stagingName fs l
  let filled := (fs.put staged (.file [] 0o600)).put staged (.file content 0o600)
  have same : Same (fs.put staged (.file content 0o600)) filled := same_staged fs staged content
  have hfile : filled.node? staged = some (.file content 0o600) := by
    rw [same.nodes, node?_put, if_pos ⟨rfl, by simp [staged]⟩]
  have moved := moveInto_ok hfile (same.movable.mpr ((movable_put_new hnew).mpr movable))
  refine ⟨(filled.remove staged).put place (.file content 0o600), ?_, rfl, fun m => ?_⟩
  · rw [replace, run_bind, stage_ok hl hnode hwrite]
    dsimp only
    rw [run_orElse, run_bind, fill_run]
    dsimp only
    rw [moved]
  · rw [node?_put, node?_put, node?_remove, same.nodes, node?_put]
    split
    · rfl
    · split
      · next hm => rw [hm.1, hnew]
      · rfl

theorem replace_fails (h : ∀ place, ¬fs.Replaceable path place) (content : Bytes) :
    ∃ e fs', (replace path content).run.run fs = (.error e, fs') ∧ Same fs fs' := by
  by_cases hstage : ∃ l mode, fs.locate (directoryOf path) = .ok l ∧
      fs.node? l = some (.directory mode) ∧ Mode.writable mode = true
  · obtain ⟨l, mode, hl, hnode, hwrite⟩ := hstage
    let staged := l ++ [stagingName fs]
    have hnew : fs.node? staged = none := node?_stagingName fs l
    let filled := (fs.put staged (.file [] 0o600)).put staged (.file content 0o600)
    have same : Same (fs.put staged (.file content 0o600)) filled := same_staged fs staged content
    obtain ⟨e, hmove⟩ := moveInto_fails filled path staged fun place moves =>
      h place ⟨(movable_put_new hnew).mp (same.movable.mp moves), l, mode, hl, hnode, hwrite⟩
    refine ⟨e, filled.remove staged, ?_, rfl, fun m => ?_⟩
    · rw [replace, run_bind, stage_ok hl hnode hwrite]
      dsimp only
      rw [run_orElse, run_bind, fill_run]
      dsimp only
      rw [hmove]
      rfl
    · rw [node?_remove, same.nodes, node?_put]
      split
      · next hm => rw [hm.1, hnew]
      · rfl
  · obtain ⟨e, hfails⟩ := stage_fails fs (directoryOf path) fun l mode hl hnode => by
      rw [← Bool.not_eq_true]
      exact fun hwrite => hstage ⟨l, mode, hl, hnode, hwrite⟩
    refine ⟨e, fs, ?_, .refl fs⟩
    rw [replace, run_bind, hfails]

end FileM

end BuildServer
