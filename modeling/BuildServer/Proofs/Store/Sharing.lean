import BuildServer.Proofs.Json.Values
import BuildServer.Proofs.Table.Lookup
import BuildServer.Store.Database

namespace BuildServer

namespace Database

def digestOf (arguments : List String) : String :=
  hashOf (payloadOf arguments)

def hash? (db : Database) (path scope : String) : Option String :=
  (db.rows.find? fun r => r.scope == scope && r.path == path).map ArgumentRow.hash

def Complete (db : Database) : Prop :=
  ∀ r ∈ db.rows, ∃ s ∈ db.sets, s.hash = r.hash

def SetsFrom (Known : List String → Prop) (db : Database) : Prop :=
  ∀ s ∈ db.sets, ∃ arguments, Known arguments ∧ s = ⟨digestOf arguments, payloadOf arguments⟩

theorem find?_filter_of_imp {α : Type} {p q : α → Bool} (h : ∀ a, q a = true → p a = true)
    (as : List α) : (as.filter p).find? q = as.find? q := by
  rw [List.find?_filter]
  congr 1
  funext r
  by_cases hr : q r = true
  · simp [hr, h r hr]
  · simp [hr]

theorem find?_filter_of_not {p q : ArgumentRow → Bool} (h : ∀ r, q r = true → p r = false)
    (rows : List ArgumentRow) : (rows.filter p).find? q = none := by
  rw [List.find?_eq_none]
  intro r hr hq
  rw [List.mem_filter, h r hq] at hr
  exact Bool.false_ne_true hr.2

section Rows

variable (db : Database) (path scope : String)

theorem hash?_clearScope (cleared : String) :
    (db.clearScope cleared).hash? path scope =
      if scope = cleared then none else db.hash? path scope := by
  rw [hash?, clearScope]
  split
  · next h =>
    rw [find?_filter_of_not, Option.map_none]
    intro r hr
    simp only [Bool.and_eq_true, beq_iff_eq] at hr
    simp [hr.1, h]
  · next h =>
    rw [find?_filter_of_imp, hash?]
    intro r hr
    simp only [Bool.and_eq_true, beq_iff_eq] at hr
    simp [hr.1, h]

theorem hash?_putRow (row : ArgumentRow) :
    (db.putRow row).hash? path scope =
      if scope = row.scope ∧ path = row.path then some row.hash else db.hash? path scope := by
  rw [hash?, putRow, List.find?_append, List.find?_singleton]
  by_cases h : scope = row.scope ∧ path = row.path
  · rw [if_pos h, find?_filter_of_not, h.1, h.2, beq_self_eq_true, beq_self_eq_true]
    · rfl
    · intro r hr
      rw [← h.1, ← h.2, hr]
      rfl
  · have hrow : (row.scope == scope && row.path == path) = false := by
      rw [Bool.and_eq_false_imp, beq_iff_eq, beq_eq_false_iff_ne]
      intro hscope hpath
      exact h ⟨hscope.symm, hpath.symm⟩
    rw [if_neg h, find?_filter_of_imp, hrow, hash?]
    · simp
    · intro r hr
      simp only [Bool.and_eq_true, beq_iff_eq] at hr
      rw [hr.1, hr.2, Bool.not_eq_true', Bool.and_eq_false_imp, beq_iff_eq, beq_eq_false_iff_ne]
      intro hscope hpath
      exact h ⟨hscope, hpath⟩

theorem hash?_insertSet (set : ArgumentSet) :
    (db.insertSet set).hash? path scope = db.hash? path scope := by
  rw [insertSet]
  split <;> rfl

theorem hash?_store (stored : String) (entry : String × List String) :
    (db.store stored entry).hash? path scope =
      if scope = stored ∧ path = entry.1 then some (digestOf entry.2) else db.hash? path scope := by
  rw [store, hash?_putRow, hash?_insertSet]
  rfl

theorem hash?_collect : db.collect.hash? path scope = db.hash? path scope := rfl

theorem hash?_foldl_store (stored : String) (es : List (String × List String)) :
    (es.foldl (store stored) db).hash? path scope =
      if scope = stored then ((es.reverse.lookup path).map digestOf).or (db.hash? path scope)
      else db.hash? path scope := by
  induction es generalizing db with
  | nil =>
    rw [List.foldl_nil, List.reverse_nil, List.lookup_nil, Option.map_none, Option.none_or, ite_self]
  | cons e es ih =>
    rw [List.foldl_cons, ih, hash?_store, List.reverse_cons, List.lookup_append,
      Table.lookup_cons_eq]
    by_cases hs : scope = stored
    · by_cases hp : path = e.1
      · simp [hs, hp]
      · simp [hs, hp]
    · simp [hs]

theorem hash?_update (arguments : ArgumentsByPath) (updated : String) :
    (db.update arguments updated).hash? path scope =
      if scope = updated then (arguments.get? path).map digestOf else db.hash? path scope := by
  rw [update, hash?_collect, hash?_foldl_store, hash?_clearScope, Table.lookup_reverse]
  by_cases h : scope = updated
  · rw [if_pos h, if_pos h, if_pos h, Option.or_none]
  · rw [if_neg h, if_neg h, if_neg h]

end Rows

section Sets

variable {db : Database} {Known : List String → Prop}

theorem Complete.clearScope (h : db.Complete) (scope : String) : (db.clearScope scope).Complete :=
  fun r hr => h r (List.mem_filter.1 hr).1

theorem mem_insertSet {set s : ArgumentSet} (h : s ∈ db.sets) : s ∈ (db.insertSet set).sets := by
  rw [insertSet]
  split
  · exact h
  · exact List.mem_append_left _ h

theorem insertSet_has (db : Database) (set : ArgumentSet) :
    ∃ s ∈ (db.insertSet set).sets, s.hash = set.hash := by
  rw [insertSet]
  split
  · next h =>
    obtain ⟨s, hs, hhash⟩ := List.any_eq_true.1 h
    exact ⟨s, hs, eq_of_beq hhash⟩
  · exact ⟨set, List.mem_append_right _ (List.mem_singleton_self _), rfl⟩

theorem Complete.store (h : db.Complete) (scope : String) (entry : String × List String) :
    (db.store scope entry).Complete := by
  intro r hr
  rcases List.mem_append.1 hr with hr | hr
  · have hrow : r ∈ db.rows := by
      have hr := (List.mem_filter.1 hr).1
      rw [insertSet] at hr
      split at hr <;> exact hr
    obtain ⟨s, hs, hhash⟩ := h r hrow
    exact ⟨s, mem_insertSet hs, hhash⟩
  · rw [List.mem_singleton.1 hr]
    exact insertSet_has db _

theorem Complete.collect (h : db.Complete) : db.collect.Complete := by
  intro r hr
  obtain ⟨s, hs, hhash⟩ := h r hr
  refine ⟨s, List.mem_filter.2 ⟨hs, ?_⟩, hhash⟩
  exact List.any_eq_true.2 ⟨r, hr, beq_iff_eq.2 hhash.symm⟩

theorem Complete.foldl_store (h : db.Complete) (scope : String)
    (es : List (String × List String)) : (es.foldl (Database.store scope) db).Complete := by
  induction es generalizing db with
  | nil => exact h
  | cons e es ih => exact ih (h.store scope e)

theorem Complete.update (h : db.Complete) (arguments : ArgumentsByPath) (scope : String) :
    (db.update arguments scope).Complete := by
  exact ((h.clearScope scope).foldl_store scope arguments.entries).collect

theorem SetsFrom.store (h : db.SetsFrom Known) (scope : String) {entry : String × List String}
    (hentry : Known entry.2) : (db.store scope entry).SetsFrom Known := by
  intro s hs
  change s ∈ (db.insertSet _).sets at hs
  rw [insertSet] at hs
  split at hs
  · exact h s hs
  · rcases List.mem_append.1 hs with hs | hs
    · exact h s hs
    · exact ⟨entry.2, hentry, List.mem_singleton.1 hs⟩

theorem SetsFrom.foldl_store (h : db.SetsFrom Known) (scope : String)
    {es : List (String × List String)} (hknown : ∀ e ∈ es, Known e.2) :
    (es.foldl (Database.store scope) db).SetsFrom Known := by
  induction es generalizing db with
  | nil => exact h
  | cons e es ih =>
    exact ih (h.store scope (hknown e List.mem_cons_self)) fun e he =>
      hknown e (List.mem_cons_of_mem _ he)

theorem SetsFrom.update (h : db.SetsFrom Known) {arguments : ArgumentsByPath}
    (hknown : ∀ e ∈ arguments.entries, Known e.2) (scope : String) :
    (db.update arguments scope).SetsFrom Known := by
  have hcleared : (db.clearScope scope).SetsFrom Known := h
  have hfold := hcleared.foldl_store scope hknown
  intro s hs
  exact hfold s (List.mem_filter.1 hs).1

end Sets

/-- No two of the known lists share a digest without being the same text. -/
def Distinct (Known : List String → Prop) : Prop :=
  ∀ as bs, Known as → Known bs → digestOf as = digestOf bs → payloadOf as = payloadOf bs

structure Refines (Known : List String → Prop) (db : Database) (m : MemoryStore) : Prop where
  hashes : ∀ path scope, db.hash? path scope = ((m.scope scope).get? path).map digestOf
  complete : db.Complete
  sets : db.SetsFrom Known
  known : ∀ path scope arguments, (m.scope scope).get? path = some arguments → Known arguments

theorem scope_update (m : MemoryStore) (arguments : ArgumentsByPath) (updated scope : String) :
    (m.update arguments updated).scope scope =
      if scope = updated then arguments else m.scope scope := by
  rw [MemoryStore.scope, MemoryStore.update, Table.get?_insert]
  split <;> rfl

section Refinement

variable {db : Database} {m : MemoryStore} {Known : List String → Prop}

theorem refines_empty : Refines Known .empty .empty where
  hashes _ _ := rfl
  complete _ hr := nomatch hr
  sets _ hs := nomatch hs
  known _ _ _ h := nomatch h

theorem Refines.update (h : Refines Known db m) {arguments : ArgumentsByPath}
    (hknown : ∀ e ∈ arguments.entries, Known e.2) (updated : String) :
    Refines Known (db.update arguments updated) (m.update arguments updated) where
  hashes path scope := by
    rw [hash?_update, scope_update, h.hashes]
    split <;> rfl
  complete := h.complete.update arguments updated
  sets := h.sets.update hknown updated
  known path scope as hget := by
    rw [scope_update] at hget
    split at hget
    · exact hknown _ (Table.mem_entries.2 hget)
    · exact h.known path scope as hget

theorem Refines.payload? (h : Refines Known db m) (hdistinct : Distinct Known) (path scope : String) :
    db.payload? path scope = ((m.scope scope).get? path).map payloadOf := by
  have hhash := h.hashes path scope
  rw [hash?] at hhash
  rw [Database.payload?]
  cases hget : (m.scope scope).get? path with
  | none =>
    rw [hget, Option.map_none, Option.map_eq_none_iff] at hhash
    rw [hhash]
    rfl
  | some as =>
    rw [hget, Option.map_some, Option.map_eq_some_iff] at hhash
    obtain ⟨r, hr, hdigest⟩ := hhash
    obtain ⟨s, hs, hname⟩ := h.complete r (List.mem_of_find?_eq_some hr)
    have hfound : (db.sets.find? (·.hash == r.hash)).isSome :=
      List.find?_isSome.2 ⟨s, hs, beq_iff_eq.2 hname⟩
    obtain ⟨set, hset⟩ := Option.isSome_iff_exists.1 hfound
    have hsame := List.find?_some hset
    rw [beq_iff_eq] at hsame
    obtain ⟨bs, hbs, rfl⟩ := h.sets set (List.mem_of_find?_eq_some hset)
    have hpayload := hdistinct bs as hbs (h.known path scope as hget) (hsame.trans hdigest)
    simp only [hr, hset, bind, Option.bind, pure, Option.map_some, hpayload]

theorem Refines.fetch (h : Refines Known db m) (hdistinct : Distinct Known) (path scope : String) :
    db.fetch path scope = m.fetch path scope := by
  rw [Database.fetch, h.payload? hdistinct, MemoryStore.fetch]
  cases (m.scope scope).get? path with
  | none => rfl
  | some as =>
    have hdecode := Json.decodeText_strings as
    simp only [Option.map_some, payloadOf, hdecode]

end Refinement

end Database

end BuildServer
