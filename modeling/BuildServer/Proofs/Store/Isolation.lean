import BuildServer.Proofs.Store.Sharing
import BuildServer.Store.Basic

namespace BuildServer

namespace Database

variable {db : Database} {scope updated path hash : String} {arguments : ArgumentsByPath}

def listed? (db : Database) (hash : String) : Option ArgumentSet :=
  db.sets.find? (·.hash == hash)

theorem payload?_eq (db : Database) (path scope : String) :
    db.payload? path scope =
      (db.hash? path scope).bind fun hash => (db.listed? hash).map ArgumentSet.payload := by
  rw [payload?, hash?]
  cases db.rows.find? fun r => r.scope == scope && r.path == path with
  | none => rfl
  | some row =>
    change (db.listed? row.hash).bind (fun set => some set.payload) =
      (db.listed? row.hash).map ArgumentSet.payload
    cases db.listed? row.hash <;> rfl

theorem Complete.exists_listed (h : db.Complete) (named : db.hash? path scope = some hash) :
    ∃ set, db.listed? hash = some set := by
  obtain ⟨row, hrow, rfl⟩ := Option.map_eq_some_iff.1 named
  obtain ⟨set, hset, hhash⟩ := h row (List.mem_of_find?_eq_some hrow)
  exact Option.isSome_iff_exists.1 (List.find?_isSome.2 ⟨set, hset, beq_iff_eq.2 hhash⟩)

theorem listed?_store {set : ArgumentSet} (h : db.listed? hash = some set) (stored : String)
    (entry : String × List String) : (db.store stored entry).listed? hash = some set := by
  change (db.insertSet _).listed? hash = some set
  rw [insertSet]
  split
  · exact h
  · rw [listed?, List.find?_append, ← listed?, h]
    rfl

theorem listed?_foldl_store {set : ArgumentSet} (h : db.listed? hash = some set) (stored : String)
    (es : List (String × List String)) : (es.foldl (store stored) db).listed? hash = some set := by
  induction es generalizing db with
  | nil => exact h
  | cons e es ih => exact ih (listed?_store h stored e)

theorem listed?_collect (named : db.hash? path scope = some hash) :
    db.collect.listed? hash = db.listed? hash := by
  obtain ⟨row, hrow, rfl⟩ := Option.map_eq_some_iff.1 named
  apply find?_filter_of_imp
  intro set hset
  rw [beq_iff_eq] at hset
  exact List.any_eq_true.2 ⟨row, List.mem_of_find?_eq_some hrow, beq_iff_eq.2 hset.symm⟩

theorem listed?_update (complete : db.Complete) (other : scope ≠ updated)
    (named : db.hash? path scope = some hash) :
    (db.update arguments updated).listed? hash = db.listed? hash := by
  obtain ⟨set, hset⟩ := complete.exists_listed named
  -- A row of the other scope still names the list when the lists are collected.
  have stored : (arguments.entries.foldl (store updated) (db.clearScope updated)).hash? path scope =
      some hash := by
    rw [hash?_foldl_store, if_neg other, hash?_clearScope, if_neg other, named]
  have cleared : (db.clearScope updated).listed? hash = some set := hset
  rw [update, listed?_collect stored, listed?_foldl_store cleared, hset]

theorem payload?_update (complete : db.Complete) (other : scope ≠ updated) :
    (db.update arguments updated).payload? path scope = db.payload? path scope := by
  rw [payload?_eq, payload?_eq, hash?_update, if_neg other]
  cases named : db.hash? path scope with
  | none => rfl
  | some hash => rw [Option.bind_some, Option.bind_some, listed?_update complete other named]

end Database

namespace Store

/-- No row of a database names a list that is missing. -/
def Sound : Store → Prop
  | .database db => db.Complete
  | _ => True

variable {store store' : Store} {arguments : ArgumentsByPath} {scope updated : String}

theorem Sound.update (h : store.Sound) (done : store.update arguments updated = .ok store') :
    store'.Sound := by
  cases store with
  | memory m =>
    obtain rfl := Except.ok.inj done
    trivial
  | database db =>
    obtain rfl := Except.ok.inj done
    exact Database.Complete.update h arguments updated
  | failing message => cases done

theorem fetch_update (h : store.Sound) (done : store.update arguments updated = .ok store')
    (other : scope ≠ updated) (path : String) : store'.fetch path scope = store.fetch path scope := by
  cases store with
  | memory m =>
    obtain rfl := Except.ok.inj done
    change (m.update arguments updated).fetch path scope = m.fetch path scope
    rw [MemoryStore.fetch, Database.scope_update, if_neg other, MemoryStore.fetch]
  | database db =>
    obtain rfl := Except.ok.inj done
    change (db.update arguments updated).fetch path scope = db.fetch path scope
    rw [Database.fetch, Database.payload?_update h other, Database.fetch]
  | failing message => cases done

end Store

end BuildServer
