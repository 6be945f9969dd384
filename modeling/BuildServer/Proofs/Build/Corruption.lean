import BuildServer.Proofs.Build.FileNames
import BuildServer.Proofs.Files.Pruning

/-!
Builders of which one lacks cache files that are of no use to the other. If the tool answers by its arguments
alone, every call gives both the same or fails for both, and leaves them as much alike as they were.
-/

namespace BuildServer

def Site.without (s : Site) (removed : List Location) : Site :=
  { s with files := removed.foldl Files.remove s.files }

namespace Builder

variable {b : Builder} {k k' : CacheKey} {s s' t t' : Site} {data : Bytes} {fs fs' start : Files}
  {removed : Location → Prop}

theorem getLast?_file (b : Builder) (k : CacheKey) : ((b.file k).toList.getLast? == some '/') = false := by
  have hlast : (b.fileName k).toList.getLast? = some 'n' := by
    have htail : k.tail.toList.getLast? = some 'n' := by cases k <;> simp [CacheKey.tail]
    rw [fileName, CacheKey.ending, String.toList_append, List.getLast?_append, String.toList_append,
      List.getLast?_append, htail]
    rfl
  have hfile : (b.file k).toList.getLast? = some 'n' := by
    rw [file_eq_join, Path.join, Path.isAbsolute_name (not_mem_fileName b k), if_neg (by simp)]
    split
    · rw [String.toList_append, List.getLast?_append, hlast]
      rfl
    · rw [String.toList_append, List.getLast?_append, hlast]
      rfl
  rw [hfile]
  rfl

theorem slot_file {slot : Files.Slot} (h : fs.slot (b.file k) = .ok (some slot)) : slot.asDirectory = false := by
  obtain ⟨-, init, name, m, -, -, -, -, rfl⟩ := Files.slot_eq_some_iff.mp h
  exact getLast?_file b k

theorem locate_directory {slot : Files.Slot} (h : fs.slot (b.file k) = .ok (some slot)) :
    ∃ m, fs.locate b.directory = .ok m ∧ fs.Enterable m := by
  have hplace : fs.slot (b.file k) = .ok (some ⟨slot.location, false⟩) := by
    rw [h, ← slot_file h]
  rw [directory]
  split
  · next hempty =>
    -- Only the current directory is named by no parts.
    have habsolute : Path.isAbsolute (b.file k) = false := by
      rw [file_eq_join, Path.isAbsolute_join_name (not_mem_fileName b k)]
      obtain ⟨-, hparts⟩ | ⟨habsolute, -⟩ | ⟨habsolute, -⟩ := Path.parts_cases b.cacheDir
      · have hroot := Path.toList_ofParts_root (Path.innerParts b.cacheDir)
        rw [List.singleton_append] at hparts
        rw [← hparts] at hroot
        have hnil : (Path.ofParts (Path.parts b.cacheDir)).toList = [] := by simpa using hempty
        rw [hnil] at hroot
        cases hroot
      · exact habsolute
      · exact habsolute
    obtain ⟨-, init, name, m, -, leads, hdir, -, -⟩ := Files.slot_eq_some_iff.mp h
    have hbase : fs.base (b.file k) = fs.current := by rw [Files.base, habsolute]; rfl
    rw [hbase] at leads
    have hcurrent : fs.Enterable fs.current := by
      cases init with
      | nil =>
        cases leads
        exact hdir
      | cons first rest => exact leads.enterable (List.cons_ne_nil _ _)
    exact ⟨fs.current, Files.locate_eq_ok_iff.mpr ⟨rfl, .here hcurrent (.done _ _)⟩, hcurrent⟩
  · next hsome =>
    exact Files.locate_parent_of_slot hplace (parent?_file b k) (by simpa using hsome)

structure Ready (b : Builder) (fs : Files) : Prop where
  there : ∃ m, fs.locate b.directory = .ok m ∧ fs.Enterable m
  plain : ∀ k slot, fs.slot (b.file k) = .ok (some slot) →
    ∀ target, fs.node? slot.location ≠ some (.link target)

theorem Ready.sameWays (ready : b.Ready fs) (h : Files.SameWays fs fs') : b.Ready fs' where
  there := h.locate_enterable ready.there
  plain k slot hslot target htarget :=
    ready.plain k slot (h.symm.slot hslot) target ((h.link_iff _ _).mp htarget)

def Unlinked (b : Builder) (k : CacheKey) (fs : Files) : Prop :=
  ∀ slot, fs.slot (b.file k) = .ok (some slot) → ∀ target, fs.node? slot.location ≠ some (.link target)

theorem written_cases (there : ∃ m, s.files.locate b.directory = .ok m ∧ s.files.Enterable m)
    (unlinked : b.Unlinked k s.files) (data : Bytes) :
    (∃ place, s.files.Replaceable (b.file k) place ∧
      Files.SameWays s.files (s.files.put place (.file data 0o600)) ∧
      Files.Same (s.files.put place (.file data 0o600)) (s.written (b.file k) data).files) ∨
    (∀ place, ¬s.files.Replaceable (b.file k) place) ∧
      Files.Same s.files (s.written (b.file k) data).files := by
  obtain ⟨m, hm, hdir⟩ := there
  rw [← directoryOf_file b k] at hm
  obtain ⟨place, replaceable, same⟩ | hnone := FileM.atomicWrite_there hm hdir data
  · refine .inl ⟨place, replaceable, Files.sameWays_put fun n hn => ?_, same⟩
    cases n with
    | file content mode => exact ⟨content, mode, rfl⟩
    | directory mode => exact absurd hn (replaceable.free mode)
    | link target => exact absurd hn (unlinked _ replaceable.slot target)
  · exact .inr hnone

theorem Ready.written (ready : b.Ready s.files) (k : CacheKey) (data : Bytes) :
    (∃ place, s.files.Replaceable (b.file k) place ∧
      Files.SameWays s.files (s.files.put place (.file data 0o600)) ∧
      Files.Same (s.files.put place (.file data 0o600)) (s.written (b.file k) data).files) ∨
    (∀ place, ¬s.files.Replaceable (b.file k) place) ∧
      Files.Same s.files (s.written (b.file k) data).files :=
  written_cases ready.there (ready.plain k) data

theorem Ready.sameWays_written (ready : b.Ready s.files) (k : CacheKey) (data : Bytes) :
    Files.SameWays s.files (s.written (b.file k) data).files := by
  obtain ⟨place, -, ways, same⟩ | ⟨-, same⟩ := ready.written k data
  · exact ways.trans same.sameWays
  · exact same.sameWays

theorem place_eq {place place' : Location} (h : fs.Replaceable (b.file k) place)
    (h' : fs.Replaceable (b.file k) place') : place = place' := by
  have hslot := h.slot
  rw [h'.slot] at hslot
  simpa using hslot.symm

theorem Ready.written_twice (ready : b.Ready s.files) (k : CacheKey) (data : Bytes) :
    Files.Same (s.written (b.file k) data).files
      ((s.written (b.file k) data).written (b.file k) data).files := by
  have ways := ready.sameWays_written k data
  obtain ⟨place, replaceable, -, same⟩ | ⟨hnone, same⟩ := ready.written k data
  · obtain ⟨place', replaceable', -, same'⟩ | ⟨hnone', same'⟩ := (ready.sameWays ways).written k data
    · obtain rfl := place_eq replaceable (ways.symm.replaceable replaceable')
      have again : Files.Same (s.written (b.file k) data).files
          ((s.written (b.file k) data).files.put place (.file data 0o600)) := by
        refine ⟨rfl, fun l => ?_⟩
        rw [Files.node?_put, same.nodes, Files.node?_put]
        split <;> rfl
      exact again.trans same'
    · exact same'
  · obtain ⟨place', replaceable', -, -⟩ | ⟨-, same'⟩ := (ready.sameWays ways).written k data
    · exact absurd (ways.symm.replaceable replaceable') (hnone place')
    · exact same'

def Constant (b : Builder) : Prop :=
  ∀ earlier arguments, b.tool.run earlier arguments = b.tool.run [] arguments

theorem refusal_eq_none_iff {arguments : List String} : b.refusal arguments fs = none ↔
    arguments.any (·.toList.contains '\x00') = false ∧ b.tool.installed = true ∧
      ∃ l mode, fs.locate b.root = .ok l ∧ fs.node? l = some (.directory mode) ∧
        Mode.enterable mode = true := by
  rw [refusal]
  cases arguments.any (·.toList.contains '\x00') with
  | true => simp
  | false =>
    cases fs.locate b.root with
    | error e => simp
    | ok l =>
      cases hnode : fs.node? l with
      | none => simp [hnode]
      | some n =>
        cases n with
        | file content mode => simp [hnode]
        | link target => simp [hnode]
        | directory mode =>
          cases henter : Mode.enterable mode <;> cases b.tool.installed <;> simp [hnode, henter]

theorem refusal_sameWays {arguments : List String} (h : Files.SameWays fs fs')
    (hnone : b.refusal arguments fs = none) : b.refusal arguments fs' = none := by
  rw [refusal_eq_none_iff] at hnone ⊢
  obtain ⟨hnul, hinstalled, l, mode, hl, hnode, henter⟩ := hnone
  exact ⟨hnul, hinstalled, l, mode, h.locate_directory hl hnode, (h.directory_iff _ _).mpr hnode, henter⟩

theorem renewed_again (ready : b.Ready s.files) (constant : b.Constant) {e : BuildError}
    (h : b.renewed k s = (.error e, t)) : ∃ e' t', b.renewed k t = (.error e', t') ∧
      Files.Same t.files t'.files ∧ t'.memory = t.memory := by
  have first := b.renewal k s
  rw [h] at first
  have second := b.renewal k t
  have hsame : b.tool.run t.runs k.arguments = b.tool.run s.runs k.arguments := by
    rw [constant t.runs, constant s.runs]
  generalize b.renewed k t = result at second ⊢
  cases second with
  | refused shown e' => exact ⟨_, t, rfl, .refl _, rfl⟩
  | failed e' => exact ⟨e', _, rfl, .refl _, rfl⟩
  | garbled e' refusal ending decoded =>
    refine ⟨_, _, rfl, ?_, rfl⟩
    rw [hsame] at ending ⊢
    cases first with
    | refused shown e refusal' =>
      rw [refusal] at refusal'
      cases refusal'
    | failed e refusal' ending' => exact absurd ending ending'
    | garbled e => exact Ready.written_twice (s := s.ran k.arguments) ready k _
  | done v refusal ending decoded =>
    rw [hsame] at ending decoded
    cases first with
    | refused shown e refusal' =>
      rw [refusal] at refusal'
      cases refusal'
    | failed e refusal' ending' => exact absurd ending ending'
    | garbled e refusal' ending' decoded' =>
      rw [decoded] at decoded'
      cases decoded'

theorem ask_unsaved_alike (ready : b.Ready s.files) (constant : b.Constant) (hk : ∀ scheme, k ≠ .index scheme)
    (hmemory : k.inMemory s.memory = none) (hsaved : b.saved k s = none) :
    ((b.ask k true).run.run s).1.toOption = (b.renewed k s).1.toOption ∧
      Files.Same (b.renewed k s).2.files ((b.ask k true).run.run s).2.files ∧
      ((b.ask k true).run.run s).2.memory = (b.renewed k s).2.memory := by
  obtain honce | ⟨e, t, hfails, hagain⟩ := ask_unsaved hk hmemory hsaved
  · rw [honce]
    exact ⟨rfl, .refl _, rfl⟩
  · obtain ⟨e', t', hrenewed, same, memory⟩ := renewed_again ready constant hfails
    rw [hagain, hrenewed, hfails]
    exact ⟨rfl, same, memory⟩

structure Alike (b : Builder) (start : Files) (removed : Location → Prop) (s s' : Site) : Prop where
  memory : s'.memory = s.memory
  ways : Files.SameWays start s.files
  pruned : ∃ gone, (∀ l, gone l → removed l) ∧ Files.Pruned gone s.files s'.files ∧
    ∀ k l, gone l → s.files.locate (b.file k) = .ok l → b.saved k s = none

namespace Alike

theorem ready' (alike : b.Alike start removed s s') (ready : b.Ready start) : b.Ready s'.files := by
  obtain ⟨gone, -, pruned, -⟩ := alike.pruned
  exact (ready.sameWays alike.ways).sameWays pruned.sameWays

theorem congr (alike : b.Alike start removed s s') (same : Files.Same s.files t.files)
    (same' : Files.Same s'.files t'.files) (memory : t'.memory = t.memory) :
    b.Alike start removed t t' where
  memory := memory
  ways := alike.ways.trans same.sameWays
  pruned := by
    obtain ⟨gone, hgone, pruned, spoilt⟩ := alike.pruned
    refine ⟨gone, hgone, pruned.congr same same', fun k l hl hlocate => ?_⟩
    have hsaved := spoilt k l hl (same.locate (b.file k) ▸ hlocate)
    rw [saved, readCache, same.read]
    exact hsaved

theorem saved_eq (alike : b.Alike start removed s s') (k : CacheKey) : b.saved k s' = b.saved k s := by
  obtain ⟨gone, -, pruned, spoilt⟩ := alike.pruned
  by_cases h : ∃ l, gone l ∧ s.files.locate (b.file k) = .ok l
  · obtain ⟨l, hl, hlocate⟩ := h
    have hread : readCache (b.file k) s' = none := by
      rw [Option.eq_none_iff_forall_ne_some]
      intro data hdata
      exact (pruned.read_iff.mp (readCache_eq_some_iff.mp hdata).1).2 l hlocate hl
    rw [spoilt k l hl hlocate, saved, hread]
    rfl
  · have hread : readCache (b.file k) s' = readCache (b.file k) s := by
      apply Option.ext
      intro data
      rw [readCache_eq_some_iff, readCache_eq_some_iff, pruned.read_iff]
      exact and_congr_left' (and_iff_left fun l hl hgone => h ⟨l, hgone, hl⟩)
    rw [saved, saved, hread]

theorem keeping (alike : b.Alike start removed s s') (k : CacheKey) (v : k.Value) :
    b.Alike start removed (s.keeping k v) (s'.keeping k v) :=
  alike.congr (.refl _) (.refl _) (congrArg (k.keep v) alike.memory)

theorem ran (alike : b.Alike start removed s s') (arguments : List String) :
    b.Alike start removed (s.ran arguments) (s'.ran arguments) :=
  alike.congr (.refl _) (.refl _) alike.memory

theorem written (alike : b.Alike start removed s s') (ready : b.Ready start) (k : CacheKey) (data : Bytes) :
    b.Alike start removed (s.written (b.file k) data) (s'.written (b.file k) data) := by
  obtain ⟨gone, hgone, pruned, spoilt⟩ := alike.pruned
  have ready₁ := ready.sameWays alike.ways
  obtain ⟨place, replaceable, ways, same⟩ | ⟨hnone, same⟩ := ready₁.written k data
  · obtain ⟨place', replaceable', -, same'⟩ | ⟨hnone', -⟩ := (alike.ready' ready).written k data
    · obtain rfl := place_eq replaceable (pruned.sameWays.symm.replaceable replaceable')
      refine ⟨alike.memory, (alike.ways.trans ways).trans same.sameWays, _, fun l hl => hgone l hl.1,
        (pruned.put place data 0o600).congr same same', fun k' l hl hlocate => ?_⟩
      obtain ⟨content, mode, hfile⟩ := pruned.was l hl.1
      have hnode : (s.written (b.file k) data).files.node? l = s.files.node? l := by
        rw [same.nodes, Files.node?_put, if_neg fun h => hl.2 h.1]
      have hlocate' : s.files.locate (b.file k') = .ok l :=
        (ways.trans same.sameWays).symm.locate hlocate (by rw [hfile]; rfl)
      rw [saved, readCache, Files.read_congr hlocate' hlocate hnode]
      exact spoilt k' l hl.1 hlocate'
    · exact absurd (pruned.sameWays.replaceable replaceable) (hnone' place)
  · obtain ⟨place', replaceable', -, -⟩ | ⟨-, same'⟩ := (alike.ready' ready).written k data
    · exact absurd (pruned.sameWays.symm.replaceable replaceable') (hnone place')
    · exact alike.congr same same' alike.memory

/-- What a call gives at two sites, and what it leaves there. -/
structure Answers {α : Type} (b : Builder) (start : Files) (removed : Location → Prop)
    (x x' : Except BuildError α × Site) : Prop where
  result : x.1.toOption = x'.1.toOption
  alike : b.Alike start removed x.2 x'.2

theorem renewed (alike : b.Alike start removed s s') (ready : b.Ready start) (constant : b.Constant)
    (k : CacheKey) : Answers b start removed (b.renewed k s) (b.renewed k s') := by
  have course := b.renewal k s
  have course' := b.renewal k s'
  have hrun : b.tool.run s'.runs k.arguments = b.tool.run s.runs k.arguments := by
    rw [constant s'.runs, constant s.runs]
  obtain ⟨gone, -, pruned, -⟩ := alike.pruned
  have hrefusal : b.refusal k.arguments s'.files = none ↔ b.refusal k.arguments s.files = none :=
    ⟨refusal_sameWays pruned.sameWays.symm, refusal_sameWays pruned.sameWays⟩
  generalize b.renewed k s = result at course ⊢
  generalize b.renewed k s' = result' at course' ⊢
  cases course with
  | refused shown e refusal =>
    cases course' with
    | refused shown' e' => exact ⟨rfl, alike⟩
    | failed e' refusal' => simp [hrefusal.mp refusal'] at refusal
    | garbled e' refusal' => simp [hrefusal.mp refusal'] at refusal
    | done v' refusal' => simp [hrefusal.mp refusal'] at refusal
  | failed e refusal ending =>
    cases course' with
    | refused shown' e' refusal' => simp [hrefusal.mpr refusal] at refusal'
    | failed e' => exact ⟨rfl, alike.ran k.arguments⟩
    | garbled e' refusal' ending' => exact absurd (hrun ▸ ending') ending
    | done v' refusal' ending' => exact absurd (hrun ▸ ending') ending
  | garbled e refusal ending decoded =>
    cases course' with
    | refused shown' e' refusal' => simp [hrefusal.mpr refusal] at refusal'
    | failed e' refusal' ending' => exact absurd (hrun.symm ▸ ending) ending'
    | garbled e' =>
      rw [hrun]
      exact ⟨rfl, (alike.ran k.arguments).written ready k _⟩
    | done v' refusal' ending' decoded' =>
      rw [hrun, decoded] at decoded'
      cases decoded'
  | done v refusal ending decoded =>
    cases course' with
    | refused shown' e' refusal' => simp [hrefusal.mpr refusal] at refusal'
    | failed e' refusal' ending' => exact absurd (hrun.symm ▸ ending) ending'
    | garbled e' refusal' ending' decoded' =>
      rw [hrun, decoded] at decoded'
      cases decoded'
    | done v' refusal' ending' decoded' =>
      rw [hrun] at decoded' ⊢
      obtain rfl := Except.ok.inj (decoded.symm.trans decoded')
      exact ⟨rfl, ((alike.ran k.arguments).written ready k _).keeping k v⟩

theorem ask (alike : b.Alike start removed s s') (ready : b.Ready start) (constant : b.Constant)
    (k : CacheKey) (cached : Bool) :
    Answers b start removed ((b.ask k cached).run.run s) ((b.ask k cached).run.run s') := by
  cases cached with
  | false =>
    rw [ask_uncached, ask_uncached]
    exact alike.renewed ready constant k
  | true =>
    have hmemory : k.inMemory s'.memory = k.inMemory s.memory := by rw [alike.memory]
    cases hrecall : k.inMemory s.memory with
    | some v =>
      rw [ask_recalled hrecall, ask_recalled (hmemory.trans hrecall)]
      exact ⟨rfl, alike⟩
    | none =>
      have hrecall' := hmemory.trans hrecall
      cases hsaved : b.saved k s with
      | some v =>
        rw [ask_saved hrecall hsaved, ask_saved hrecall' ((alike.saved_eq k).trans hsaved)]
        exact ⟨rfl, alike.keeping k v⟩
      | none =>
        have hsaved' := (alike.saved_eq k).trans hsaved
        by_cases hk : ∃ scheme, k = .index scheme
        · obtain ⟨scheme, rfl⟩ := hk
          rw [index_unsaved hrecall hsaved, index_unsaved hrecall' hsaved']
          exact ⟨rfl, alike⟩
        · rw [not_exists] at hk
          obtain ⟨result, same, memory⟩ :=
            ask_unsaved_alike (ready.sameWays alike.ways) constant hk hrecall hsaved
          obtain ⟨result', same', memory'⟩ :=
            ask_unsaved_alike (alike.ready' ready) constant hk hrecall' hsaved'
          have renewed := alike.renewed ready constant k
          refine ⟨by rw [result, result', renewed.result], renewed.alike.congr same same' ?_⟩
          rw [memory', memory, renewed.alike.memory]

end Alike

/-- A cache file, or a link in its place, that is empty, cannot be read or does not decode. -/
def CorruptAt (b : Builder) (s : Site) (l : Location) : Prop :=
  ∃ k, s.files.slot (b.file k) = .ok (some ⟨l, false⟩) ∧
    (∃ n, s.files.node? l = some n ∧ ∀ mode, n ≠ .directory mode) ∧ b.saved k s = none

def Plain (b : Builder) (fs : Files) : Prop :=
  ∀ k slot, fs.slot (b.file k) = .ok (some slot) → ∀ target, fs.node? slot.location ≠ some (.link target)

theorem Plain.location {l : Location} (plain : b.Plain fs) (h : fs.locate (b.file k) = .ok l) :
    fs.slot (b.file k) = .ok (some ⟨l, false⟩) ∧ l.getLast? = some (b.fileName k) := by
  obtain ⟨slot, hslot⟩ := Files.exists_slot (names_file b k) (fileName_ne b k (by decide))
    (fileName_ne b k (by decide)) h
  have hsome : (fs.node? slot.location).isSome := by
    obtain he | hnone | ⟨slot', hslot', hsome⟩ := Files.slot_of_locate h
    · rw [hslot] at he
      cases he
    · rw [hslot] at hnone
      cases hnone
    · rw [hslot] at hslot'
      cases hslot'
      exact hsome
  obtain ⟨n, hn⟩ := Option.isSome_iff_exists.mp hsome
  have hplace : fs.slot (b.file k) = .ok (some ⟨slot.location, false⟩) := by rw [hslot, ← slot_file hslot]
  have hlocate := Files.locate_of_slot hplace hn fun target htarget => plain k slot hslot target (htarget ▸ hn)
  obtain rfl := Except.ok.inj (h.symm.trans hlocate)
  refine ⟨hplace, ?_⟩
  rw [Files.getLast?_slot hplace, names_file, List.getLast?_concat]

theorem Plain.saved_eq_none {l : Location} (plain : b.Plain s.files) (h : s.files.locate (b.file k) = .ok l)
    (h' : s.files.locate (b.file k') = .ok l) (hsaved : b.saved k s = none) : b.saved k' s = none := by
  have hname : b.fileName k = b.fileName k' :=
    Option.some.inj ((plain.location h).2.symm.trans (plain.location h').2)
  have hkind := CacheKey.kind_eq_of_ending (fileName_inj hname)
  have hread : readCache (b.file k') s = readCache (b.file k) s := by
    rw [readCache, readCache, Files.read_congr h h' rfl]
  rw [saved, hread]
  cases k with
  | list =>
    cases k' with
    | list => exact hsaved
    | settings scheme' => cases hkind
    | index scheme' => cases hkind
  | settings scheme =>
    cases k' with
    | list => cases hkind
    | settings scheme' => exact hsaved
    | index scheme' => cases hkind
  | index scheme =>
    cases k' with
    | list => cases hkind
    | settings scheme' => cases hkind
    | index scheme' => exact hsaved

theorem Plain.corrupt_file {l : Location} (plain : b.Plain s.files) (corrupt : b.CorruptAt s l) :
    ∃ k, s.files.locate (b.file k) = .ok l ∧ (∃ content mode, s.files.node? l = some (.file content mode)) ∧
      b.saved k s = none := by
  obtain ⟨k, hslot, ⟨n, hn, hdir⟩, hsaved⟩ := corrupt
  have hlink : ∀ target, n ≠ .link target := fun target htarget => plain k _ hslot target (htarget ▸ hn)
  refine ⟨k, Files.locate_of_slot hslot hn hlink, ?_, hsaved⟩
  cases n with
  | file content mode => exact ⟨content, mode, hn⟩
  | directory mode => exact absurd rfl (hdir mode)
  | link target => exact absurd rfl (hlink target)

theorem Plain.alike {removed : List Location} (plain : b.Plain s.files)
    (corrupt : ∀ l ∈ removed, b.CorruptAt s l) :
    b.Alike s.files (· ∈ removed) s (s.without removed) where
  memory := rfl
  ways := .refl s.files
  pruned := by
    refine ⟨(· ∈ removed), fun l hl => hl, Files.pruned_removeAll fun l hl => ?_, fun k' l hl h' => ?_⟩
    · obtain ⟨k, -, hfile, -⟩ := plain.corrupt_file (corrupt l hl)
      exact hfile
    · obtain ⟨k, h, -, hsaved⟩ := plain.corrupt_file (corrupt l hl)
      exact plain.saved_eq_none h h' hsaved

theorem Plain.ready {l : Location} (plain : b.Plain s.files) (corrupt : b.CorruptAt s l) :
    b.Ready s.files where
  there := by
    obtain ⟨k, hslot, -, -⟩ := corrupt
    exact locate_directory hslot
  plain := plain

end Builder

end BuildServer
