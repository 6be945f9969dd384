import BuildServer.Proofs.Store.Reopening
import BuildServer.Proofs.Store.Sharing

/-!
A store in a file answers like one in memory, through updates and openings in any order, as long as no
two of the lists that it was given share a digest.
-/

namespace BuildServer

instance decidableEqExcept {ε α : Type} [DecidableEq ε] [DecidableEq α] : DecidableEq (Except ε α)
  | .ok a, .ok b => decidable_of_iff (a = b) ⟨congrArg Except.ok, Except.ok.inj⟩
  | .error e, .error f => decidable_of_iff (e = f) ⟨congrArg Except.error, Except.error.inj⟩
  | .ok _, .error _ => isFalse nofun
  | .error _, .ok _ => isFalse nofun

def Disk.opening (d : Disk) (file : String) : Except OpenError Database × Disk :=
  (Disk.openDatabase file).run.run d

inductive Use where
  | update (arguments : ArgumentsByPath) (scope : String)
  | fetch (path scope : String)
  | reopen

def Use.stored : Use → List (List String)
  | .update arguments _ => arguments.values
  | _ => []

abbrev Answer := Except StoreError (List String)

structure Shelf where
  disk : Disk
  db : Database

namespace Shelf

def update (s : Shelf) (file : String) (arguments : ArgumentsByPath) (scope : String) : Shelf :=
  let db := s.db.update arguments scope
  let held := (s.disk.database? file).getD ⟨none, false⟩
  ⟨s.disk.putDatabase file { held with database := some db }, db⟩

def reopen (s : Shelf) (file : String) : Except OpenError Shelf :=
  match s.disk.opening file with
  | (.ok db, d) => .ok ⟨d, db⟩
  | (.error e, _) => .error e

def answers (file : String) : Shelf → List Use → Except OpenError (List Answer)
  | _, [] => .ok []
  | s, .update arguments scope :: uses => answers file (s.update file arguments scope) uses
  | s, .fetch path scope :: uses => do
    let rest ← answers file s uses
    pure (s.db.fetch path scope :: rest)
  | s, .reopen :: uses => do answers file (← s.reopen file) uses

end Shelf

def MemoryStore.answers : MemoryStore → List Use → List Answer
  | _, [] => []
  | m, .update arguments scope :: uses => answers (m.update arguments scope) uses
  | m, .fetch path scope :: uses => m.fetch path scope :: answers m uses
  | m, .reopen :: uses => answers m uses

structure Shelf.Mirrors (Known : List String → Prop) (s : Shelf) (file : String) (l : Location)
    (m : MemoryStore) : Prop where
  held : s.disk.Holds file l s.db
  refines : Database.Refines Known s.db m

section Simulation

variable {Known : List String → Prop} {s : Shelf} {file : String} {l : Location} {m : MemoryStore}

theorem Shelf.Mirrors.update (h : s.Mirrors Known file l m) {arguments : ArgumentsByPath}
    (hknown : ∀ as ∈ arguments.values, Known as) (scope : String) :
    (s.update file arguments scope).Mirrors Known file l (m.update arguments scope) := by
  have hentries : ∀ e ∈ arguments.entries, Known e.2 := fun e he =>
    hknown e.2 (List.mem_map_of_mem he)
  have hupdate : s.update file arguments scope =
      ⟨s.disk.putDatabase file ⟨some (s.db.update arguments scope), false⟩,
        s.db.update arguments scope⟩ := by
    rw [Shelf.update, h.held.database?]
    rfl
  rw [hupdate]
  exact ⟨h.held.putDatabase _, h.refines.update hentries scope⟩

theorem Shelf.Mirrors.reopen (h : s.Mirrors Known file l m) :
    ∃ s', s.reopen file = .ok s' ∧ s'.Mirrors Known file l m := by
  obtain ⟨d, hopen, hheld⟩ := h.held.openDatabase
  exact ⟨⟨d, s.db⟩, by rw [Shelf.reopen, Disk.opening, hopen], hheld, h.refines⟩

theorem Shelf.Mirrors.answers (h : s.Mirrors Known file l m) (hdistinct : Database.Distinct Known)
    {uses : List Use} (hknown : ∀ u ∈ uses, ∀ as ∈ u.stored, Known as) :
    Shelf.answers file s uses = .ok (MemoryStore.answers m uses) := by
  induction uses generalizing s m with
  | nil => rfl
  | cons u uses ih =>
    have hrest : ∀ u ∈ uses, ∀ as ∈ u.stored, Known as := fun u hu =>
      hknown u (List.mem_cons_of_mem _ hu)
    cases u with
    | update arguments scope =>
      exact ih (h.update (hknown _ List.mem_cons_self) scope) hrest
    | fetch path scope =>
      rw [Shelf.answers, ih h hrest, h.refines.fetch hdistinct]
      rfl
    | reopen =>
      obtain ⟨s', hs', h'⟩ := h.reopen
      rw [Shelf.answers, hs']
      exact ih h' hrest

end Simulation

theorem MemoryStore.fetch_ne_invalidPayload (m : MemoryStore) (path scope p : String) :
    m.fetch path scope ≠ .error (.invalidPayload p) := by
  rw [fetch]
  split <;> simp

theorem MemoryStore.answers_ne_invalidPayload (m : MemoryStore) (uses : List Use) :
    ∀ a ∈ m.answers uses, ∀ path, a ≠ .error (.invalidPayload path) := by
  induction uses generalizing m with
  | nil => exact fun a ha => nomatch ha
  | cons u uses ih =>
    cases u with
    | update arguments scope => exact ih _
    | fetch path scope =>
      exact List.forall_mem_cons.2 ⟨fun p => m.fetch_ne_invalidPayload path scope p, ih m⟩
    | reopen => exact ih m

/-- From a database without lists on, whatever tables of earlier versions its file had, every fetch
gives what a store in memory gives, openings never fail, and no list is unreadable. -/
theorem answers_as_in_memory {file : String} {d d' : Disk}
    (opened : d.opening file = (.ok .empty, d')) (uses : List Use)
    (distinct : Database.Distinct (· ∈ uses.flatMap Use.stored)) :
    Shelf.answers file ⟨d', .empty⟩ uses = .ok (MemoryStore.answers .empty uses) ∧
      ∀ a ∈ MemoryStore.answers .empty uses, ∀ path, a ≠ .error (.invalidPayload path) := by
  obtain ⟨l, held⟩ := Disk.holds_of_openDatabase opened
  have mirrors : (⟨d', .empty⟩ : Shelf).Mirrors (· ∈ uses.flatMap Use.stored) file l .empty :=
    ⟨held, Database.refines_empty⟩
  refine ⟨mirrors.answers distinct fun u hu as has => ?_, MemoryStore.answers_ne_invalidPayload _ _⟩
  exact List.mem_flatMap.2 ⟨u, hu, has⟩

def legacyDisk : Disk :=
  ⟨⟨[(["c"], .directory 0o755), (["c", "options.sqlite3"], .file [0x53, 0x51] 0o644)], []⟩,
    [(["c", "options.sqlite3"], ⟨none, true⟩)]⟩

def upgradedDisk : Disk :=
  ⟨⟨[(["c", "options.sqlite3"], .file [0x53, 0x51] 0o600), (["c"], .directory 0o700)], []⟩,
    [(["c", "options.sqlite3"], ⟨some .empty, false⟩)]⟩

def sharedUses : List Use :=
  [.update (.ofList [("/a", ["x"]), ("/b", ["\"é\n"])]) "App", .update (.ofList [("/a", ["x"])]) "Tests",
    .reopen, .update .empty "App", .reopen, .fetch "/a" "App", .fetch "/a" "Tests"]

theorem shared_list_survives :
    legacyDisk.opening "/c/options.sqlite3" = (.ok .empty, upgradedDisk) ∧
      Shelf.answers "/c/options.sqlite3" ⟨upgradedDisk, .empty⟩ sharedUses =
        .ok [.error (.notFound "/a" "App"), .ok ["x"]] := by
  have opened : legacyDisk.opening "/c/options.sqlite3" = (.ok .empty, upgradedDisk) := by
    decide +kernel
  have digests : ∀ as ∈ sharedUses.flatMap Use.stored, ∀ bs ∈ sharedUses.flatMap Use.stored,
      Database.digestOf as = Database.digestOf bs → Database.payloadOf as = Database.payloadOf bs := by
    decide +kernel
  have answered : MemoryStore.answers .empty sharedUses =
      [.error (.notFound "/a" "App"), .ok ["x"]] := by
    decide +kernel
  obtain ⟨same, -⟩ := answers_as_in_memory opened sharedUses fun as bs has hbs => digests as has bs hbs
  exact ⟨opened, same.trans (congrArg Except.ok answered)⟩

end BuildServer
