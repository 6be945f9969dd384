import Mathlib.Data.List.Induction
import Mathlib.Data.List.Nodup
import BuildServer.Proofs.Store.Isolation

namespace BuildServer

namespace Database

variable {db : Database} {Known : List String → Prop} {scope path : String} {row : ArgumentRow}
  {set : ArgumentSet} {updates : List (ArgumentsByPath × String)}

structure Keyed (db : Database) : Prop where
  sets : (db.sets.map ArgumentSet.hash).Nodup
  rows : (db.rows.map fun r => (r.scope, r.path)).Nodup

/-- A database that known lists can be stored in. Every list lies under its own digest; only one that no row
names may lie elsewhere, where none of the known lists would be put. -/
structure Orderly (Known : List String → Prop) (db : Database) : Prop extends Keyed db where
  complete : db.Complete
  addressed : ∀ s ∈ db.sets, (∃ r ∈ db.rows, r.hash = s.hash) ∨ (∃ as, Known as ∧ digestOf as = s.hash) →
    s.hash = hashOf s.payload

structure Collected (db : Database) : Prop extends Keyed db where
  complete : db.Complete
  named : ∀ s ∈ db.sets, ∃ r ∈ db.rows, r.hash = s.hash
  addressed : ∀ s ∈ db.sets, s.hash = hashOf s.payload

theorem Collected.orderly (h : db.Collected) (Known : List String → Prop) : db.Orderly Known where
  toKeyed := h.toKeyed
  complete := h.complete
  addressed s hs _ := h.addressed s hs

theorem rows_insertSet (db : Database) (set : ArgumentSet) : (db.insertSet set).rows = db.rows := by
  rw [insertSet]
  split <;> rfl

theorem mem_sets_insertSet {s : ArgumentSet} (h : s ∈ (db.insertSet set).sets) : s ∈ db.sets ∨ s = set := by
  rw [insertSet] at h
  split at h
  · exact .inl h
  · exact (List.mem_append.mp h).imp_right List.mem_singleton.mp

theorem mem_rows_putRow {r : ArgumentRow} (h : r ∈ (db.putRow row).rows) : r ∈ db.rows ∨ r = row := by
  rcases List.mem_append.mp h with h | h
  · exact .inl (List.mem_filter.mp h).1
  · exact .inr (List.mem_singleton.mp h)

namespace Keyed

theorem clearScope (h : db.Keyed) (scope : String) : (db.clearScope scope).Keyed where
  sets := h.sets
  rows := h.rows.sublist (List.filter_sublist.map _)

theorem collect (h : db.Keyed) : db.collect.Keyed where
  sets := h.sets.sublist (List.filter_sublist.map _)
  rows := h.rows

theorem insertSet (h : db.Keyed) (set : ArgumentSet) : (db.insertSet set).Keyed where
  sets := by
    rw [Database.insertSet]
    split
    · exact h.sets
    · next unused =>
      rw [List.map_append, List.nodup_append]
      refine ⟨h.sets, List.nodup_singleton _, ?_⟩
      rintro hash hhash _ hset rfl
      obtain rfl := List.mem_singleton.mp hset
      obtain ⟨s, hs, heq⟩ := List.mem_map.mp hhash
      exact unused (List.any_eq_true.mpr ⟨s, hs, beq_iff_eq.mpr heq⟩)
  rows := by
    rw [rows_insertSet]
    exact h.rows

theorem putRow (h : db.Keyed) (row : ArgumentRow) : (db.putRow row).Keyed where
  sets := h.sets
  rows := by
    rw [Database.putRow, List.map_append, List.nodup_append]
    refine ⟨h.rows.sublist (List.filter_sublist.map _), List.nodup_singleton _, ?_⟩
    rintro key hkey _ hrow rfl
    obtain rfl := List.mem_singleton.mp hrow
    obtain ⟨r, hr, heq⟩ := List.mem_map.mp hkey
    obtain ⟨hscope, hpath⟩ := Prod.mk.inj heq
    simpa [hscope, hpath] using (List.mem_filter.mp hr).2

theorem hash?_of_mem (h : db.Keyed) (hrow : row ∈ db.rows) : db.hash? row.path row.scope = some row.hash := by
  have found : (db.rows.find? fun r => r.scope == row.scope && r.path == row.path).isSome :=
    List.find?_isSome.mpr ⟨row, hrow, by simp⟩
  obtain ⟨r, hr⟩ := Option.isSome_iff_exists.mp found
  have hkey := List.find?_some hr
  simp only [Bool.and_eq_true, beq_iff_eq] at hkey
  have hsame : r = row := List.inj_on_of_nodup_map h.rows (List.mem_of_find?_eq_some hr) hrow
    (Prod.ext hkey.1 hkey.2)
  rw [hash?, hr, hsame, Option.map_some]

end Keyed

theorem mem_of_hash? {hash : String} (h : db.hash? path scope = some hash) :
    ∃ r ∈ db.rows, r.scope = scope ∧ r.path = path ∧ r.hash = hash := by
  obtain ⟨r, hr, rfl⟩ := Option.map_eq_some_iff.mp h
  have hkey := List.find?_some hr
  simp only [Bool.and_eq_true, beq_iff_eq] at hkey
  exact ⟨r, List.mem_of_find?_eq_some hr, hkey.1, hkey.2, rfl⟩

namespace Orderly

theorem clearScope (h : db.Orderly Known) (scope : String) : (db.clearScope scope).Orderly Known where
  toKeyed := h.toKeyed.clearScope scope
  complete := h.complete.clearScope scope
  addressed s hs named := by
    refine h.addressed s hs (named.imp_left ?_)
    rintro ⟨r, hr, hhash⟩
    exact ⟨r, (List.mem_filter.mp hr).1, hhash⟩

theorem store (h : db.Orderly Known) (scope : String) {entry : String × List String} (known : Known entry.2) :
    (db.store scope entry).Orderly Known where
  toKeyed := (h.toKeyed.insertSet _).putRow _
  complete := h.complete.store scope entry
  addressed s hs named := by
    rcases mem_sets_insertSet hs with hs | rfl
    · refine h.addressed s hs ?_
      rcases named with ⟨r, hr, hhash⟩ | taken
      · rcases mem_rows_putRow hr with hr | rfl
        · rw [rows_insertSet] at hr
          exact .inl ⟨r, hr, hhash⟩
        · exact .inr ⟨entry.2, known, hhash⟩
      · exact .inr taken
    · rfl

theorem foldl_store (h : db.Orderly Known) (scope : String) {es : List (String × List String)}
    (known : ∀ e ∈ es, Known e.2) : (es.foldl (Database.store scope) db).Orderly Known := by
  induction es generalizing db with
  | nil => exact h
  | cons e es ih =>
    exact ih (h.store scope (known e List.mem_cons_self)) fun e he => known e (List.mem_cons_of_mem _ he)

theorem collect (h : db.Orderly Known) : db.collect.Collected := by
  have named : ∀ s ∈ db.collect.sets, ∃ r ∈ db.rows, r.hash = s.hash := by
    intro s hs
    obtain ⟨r, hr, hhash⟩ := List.any_eq_true.mp (List.mem_filter.mp hs).2
    exact ⟨r, hr, beq_iff_eq.mp hhash⟩
  exact {
    toKeyed := h.toKeyed.collect
    complete := h.complete.collect
    named := named
    addressed := fun s hs => h.addressed s (List.mem_filter.mp hs).1 (.inl (named s hs)) }

theorem update (h : db.Orderly Known) {arguments : ArgumentsByPath} (known : ∀ as ∈ arguments.values, Known as)
    (scope : String) : (db.update arguments scope).Collected :=
  ((h.clearScope scope).foldl_store scope fun e he => known e.2 (List.mem_map_of_mem he)).collect

end Orderly

def updateAll (db : Database) (updates : List (ArgumentsByPath × String)) : Database :=
  updates.foldl (fun db u => db.update u.1 u.2) db

def lastStored? (updates : List (ArgumentsByPath × String)) (scope path : String) : Option (List String) :=
  (updates.reverse.find? (·.2 == scope)).bind (·.1.get? path)

theorem updateAll_concat (db : Database) (updates : List (ArgumentsByPath × String))
    (u : ArgumentsByPath × String) : db.updateAll (updates ++ [u]) = (db.updateAll updates).update u.1 u.2 := by
  rw [updateAll, List.foldl_append]
  rfl

theorem lastStored?_concat (updates : List (ArgumentsByPath × String)) (u : ArgumentsByPath × String)
    (scope path : String) : lastStored? (updates ++ [u]) scope path =
      if scope = u.2 then u.1.get? path else lastStored? updates scope path := by
  rw [lastStored?, List.reverse_concat, List.find?_cons, lastStored?]
  by_cases h : scope = u.2
  · simp [h]
  · rw [if_neg h, beq_eq_false_iff_ne.mpr (Ne.symm h)]

theorem hash?_updateAll (db : Database) (updates : List (ArgumentsByPath × String)) (path scope : String) :
    (db.updateAll updates).hash? path scope =
      if scope ∈ updates.map Prod.snd then (lastStored? updates scope path).map digestOf
      else db.hash? path scope := by
  induction updates using List.reverseRecOn with
  | nil => rfl
  | append_singleton updates u ih =>
    rw [updateAll_concat, hash?_update, ih, lastStored?_concat]
    by_cases h : scope = u.2
    · simp [h]
    · have updated : scope ∈ (updates ++ [u]).map Prod.snd ↔ scope ∈ updates.map Prod.snd := by
        simp [List.map_append, h]
      simp only [h, updated, if_false]

theorem Orderly.updateAll (h : db.Orderly Known) (known : ∀ u ∈ updates, ∀ as ∈ u.1.values, Known as)
    (nonempty : updates ≠ []) : (db.updateAll updates).Collected := by
  -- All but the last update leave a database that is orderly, whether or not there are any.
  have orderly (us : List (ArgumentsByPath × String)) (known : ∀ u ∈ us, ∀ as ∈ u.1.values, Known as) :
      (db.updateAll us).Orderly Known := by
    induction us using List.reverseRecOn with
    | nil => exact h
    | append_singleton us u ih =>
      rw [updateAll_concat]
      exact ((ih fun v hv => known v (List.mem_append_left _ hv)).update (known u (by simp)) u.2).orderly Known
  obtain ⟨us, u, rfl⟩ := (List.eq_nil_or_concat' updates).resolve_left nonempty
  rw [updateAll_concat]
  exact (orderly us fun v hv => known v (List.mem_append_left _ hv)).update (known u (by simp)) u.2

theorem payloadOf_inj {as bs : List String} (h : payloadOf as = payloadOf bs) : as = bs := by
  have decoded := Json.decodeText_strings as
  rw [payloadOf] at h
  rw [h, payloadOf, Json.decodeText_strings bs] at decoded
  exact (Except.ok.inj decoded).symm

def Stored (updates : List (ArgumentsByPath × String)) (arguments : List String) : Prop :=
  ∃ u ∈ updates, arguments ∈ u.1.values

theorem stored_of_lastStored? {arguments : List String} (h : lastStored? updates scope path = some arguments) :
    Stored updates arguments := by
  obtain ⟨u, hu, hget⟩ := Option.bind_eq_some_iff.mp h
  exact ⟨u, List.mem_reverse.mp (List.mem_of_find?_eq_some hu), Table.mem_values.mpr ⟨path, hget⟩⟩

/-- Updates leave nothing to collect. The rows of the scopes that they concern are for what the last update of the
scope has, and two of them name the same list exactly if the same arguments were stored for them. -/
theorem updates_collected (start : db.Orderly (Stored updates)) (nonempty : updates ≠ [])
    (distinct : Distinct (Stored updates)) :
    (db.updateAll updates).Collected ∧
    (∀ scope ∈ updates.map Prod.snd, ∀ path, (∃ r ∈ (db.updateAll updates).rows, r.scope = scope ∧ r.path = path) ↔
      (lastStored? updates scope path).isSome) ∧
    ∀ r ∈ (db.updateAll updates).rows, r.scope ∈ updates.map Prod.snd →
      ∀ r' ∈ (db.updateAll updates).rows, r'.scope ∈ updates.map Prod.snd →
        (r.hash = r'.hash ↔ lastStored? updates r.scope r.path = lastStored? updates r'.scope r'.path) := by
  have collected := start.updateAll (fun u hu as has => ⟨u, hu, has⟩) nonempty
  have stored (r : ArgumentRow) (hr : r ∈ (db.updateAll updates).rows) (updated : r.scope ∈ updates.map Prod.snd) :
      ∃ as, lastStored? updates r.scope r.path = some as ∧ digestOf as = r.hash := by
    have hhash := collected.hash?_of_mem hr
    rwa [hash?_updateAll, if_pos updated, Option.map_eq_some_iff] at hhash
  refine ⟨collected, ?_, ?_⟩
  · intro scope updated path
    constructor
    · rintro ⟨r, hr, rfl, rfl⟩
      obtain ⟨as, has, -⟩ := stored r hr updated
      exact Option.isSome_of_eq_some has
    · intro has
      obtain ⟨as, has⟩ := Option.isSome_iff_exists.mp has
      have hhash : (db.updateAll updates).hash? path scope = some (digestOf as) := by
        rw [hash?_updateAll, if_pos updated, has, Option.map_some]
      obtain ⟨r, hr, hscope, hpath, -⟩ := mem_of_hash? hhash
      exact ⟨r, hr, hscope, hpath⟩
  · intro r hr updated r' hr' updated'
    obtain ⟨as, has, hhash⟩ := stored r hr updated
    obtain ⟨bs, hbs, hhash'⟩ := stored r' hr' updated'
    rw [← hhash, ← hhash', has, hbs, Option.some_inj]
    constructor
    · intro same
      exact payloadOf_inj (distinct as bs (stored_of_lastStored? has) (stored_of_lastStored? hbs) same)
    · rintro rfl
      rfl

def leftDatabase : Database :=
  ⟨[⟨digestOf ["-c"], payloadOf ["-c"]⟩, ⟨"left", "[]"⟩], [⟨"App", "/a", digestOf ["-c"]⟩]⟩

def movingUpdates : List (ArgumentsByPath × String) :=
  [(.ofList [("/a", ["-O"]), ("/b", ["-c"])], "App"), (.ofList [("/a", ["-c"])], "Tests")]

theorem moved_list_shared :
    (leftDatabase.updateAll movingUpdates).Collected ∧
      ∃ r ∈ (leftDatabase.updateAll movingUpdates).rows, ∃ r' ∈ (leftDatabase.updateAll movingUpdates).rows,
        (r.scope = "App" ∧ r.path = "/b") ∧ (r'.scope = "Tests" ∧ r'.path = "/a") ∧ r.hash = r'.hash := by
  have stored {as : List String} (h : Stored movingUpdates as) : as ∈ movingUpdates.flatMap (·.1.values) :=
    List.mem_flatMap.mpr h
  have digests : ∀ as ∈ movingUpdates.flatMap (·.1.values), ∀ bs ∈ movingUpdates.flatMap (·.1.values),
      digestOf as = digestOf bs → payloadOf as = payloadOf bs := by
    decide +kernel
  have addressed : ∀ s ∈ leftDatabase.sets, (∃ r ∈ leftDatabase.rows, r.hash = s.hash) ∨
      (∃ as ∈ movingUpdates.flatMap (·.1.values), digestOf as = s.hash) → s.hash = hashOf s.payload := by
    decide +kernel
  have start : leftDatabase.Orderly (Stored movingUpdates) := {
    sets := by decide +kernel
    rows := by decide +kernel
    complete := by
      rw [Complete]
      decide +kernel
    addressed := fun s hs named => addressed s hs
      (named.imp_right fun ⟨as, known, hash⟩ => ⟨as, stored known, hash⟩) }
  obtain ⟨collected, written, shared⟩ := updates_collected start (by decide)
    fun as bs has hbs => digests as (stored has) bs (stored hbs)
  obtain ⟨r, hr, hscope, hpath⟩ := (written "App" (by decide) "/b").mpr (by decide +kernel)
  obtain ⟨r', hr', hscope', hpath'⟩ := (written "Tests" (by decide) "/a").mpr (by decide +kernel)
  refine ⟨collected, r, hr, r', hr', ⟨hscope, hpath⟩, ⟨hscope', hpath'⟩, ?_⟩
  refine (shared r hr (by rw [hscope]; decide) r' hr' (by rw [hscope']; decide)).mpr ?_
  rw [hscope, hpath, hscope', hpath']
  decide +kernel

end Database

end BuildServer
