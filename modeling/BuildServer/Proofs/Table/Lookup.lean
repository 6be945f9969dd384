import BuildServer.Table.Basic

namespace BuildServer

theorem lookup_distinct {α : Type} {es : List (String × α)} (h : es.Pairwise (·.1 ≠ ·.1)) {k : String}
    {v : α} : es.lookup k = some v ↔ (k, v) ∈ es := by
  induction es with
  | nil => simp
  | cons e es ih =>
    obtain ⟨k', v'⟩ := e
    rw [List.pairwise_cons] at h
    rw [Table.lookup_cons_eq, List.mem_cons, ← ih h.2, Prod.mk.injEq]
    by_cases hk : k = k'
    · subst hk
      rw [if_pos rfl]
      have hrest : es.lookup k ≠ some v := fun hl => h.1 _ ((ih h.2).1 hl) rfl
      simp [hrest, eq_comm]
    · simp [hk]

theorem nodup_of_increasing {α : Type} {key : α → String} {xs : List α} (h : xs.Pairwise (key · < key ·)) :
    xs.Nodup := by
  apply h.imp
  rintro x _ hlt rfl
  exact String.lt_irrefl _ hlt

namespace Table

variable {α β : Type} {t u : Table α} {k : String} {v : α}

theorem distinct (t : Table α) : t.entries.Pairwise (·.1 ≠ ·.1) := by
  apply t.ordered.imp
  intro e e' h he
  exact String.lt_irrefl _ (he ▸ h)

theorem mem_entries : (k, v) ∈ t.entries ↔ t.get? k = some v :=
  (lookup_distinct t.distinct).symm

theorem mem_keys : k ∈ t.keys ↔ ∃ v, t.get? k = some v := by
  simp only [keys, List.mem_map, ← mem_entries]
  constructor
  · rintro ⟨e, he, rfl⟩
    exact ⟨e.2, he⟩
  · rintro ⟨v, h⟩
    exact ⟨(k, v), h, rfl⟩

theorem mem_values : v ∈ t.values ↔ ∃ k, t.get? k = some v := by
  simp only [values, List.mem_map, ← mem_entries]
  constructor
  · rintro ⟨e, he, rfl⟩
    exact ⟨e.1, he⟩
  · rintro ⟨k, h⟩
    exact ⟨(k, v), h, rfl⟩

theorem keys_increasing (t : Table α) : t.keys.Pairwise (· < ·) :=
  List.pairwise_map.2 t.ordered

theorem nodup_keys (t : Table α) : t.keys.Nodup :=
  nodup_of_increasing t.keys_increasing

theorem get?_map (f : String → α → β) (t : Table α) (k : String) :
    (t.map f).get? k = (t.get? k).map (f k) := by
  obtain ⟨es, h⟩ := t
  simp only [map, get?]
  clear h
  induction es with
  | nil => rfl
  | cons e es ih =>
    rw [List.map_cons, lookup_cons_eq, lookup_cons_eq, ih]
    split
    · rename_i hk
      rw [hk, Option.map_some]
    · rfl

theorem get?_filter (p : String → α → Bool) (t : Table α) (k : String) :
    (t.filter p).get? k = (t.get? k).filter (p k) := by
  apply Option.ext
  intro v
  rw [Option.filter_eq_some_iff, ← mem_entries, ← mem_entries, filter, List.mem_filter]

theorem get?_update (t : Table α) (k : String) (start : α) (f : α → α) (k' : String) :
    (t.update k start f).get? k' =
      if k' = k then some (f ((t.get? k).getD start)) else t.get? k' :=
  get?_insert t k _ k'

theorem get?_foldl_insert (es : List (String × α)) (t : Table α) (k : String) :
    (es.foldl (fun t e => t.insert e.1 e.2) t).get? k = (es.reverse.lookup k).or (t.get? k) := by
  induction es generalizing t with
  | nil => rfl
  | cons e es ih =>
    rw [List.foldl_cons, ih, get?_insert, List.reverse_cons, List.lookup_append, lookup_cons_eq,
      Option.or_assoc]
    congr 1
    split <;> rfl

theorem get?_ofList (es : List (String × α)) (k : String) :
    (ofList es).get? k = es.reverse.lookup k := by
  rw [ofList, get?_foldl_insert, get?_empty, Option.or_none]

theorem lookup_reverse (t : Table α) (k : String) : t.entries.reverse.lookup k = t.get? k := by
  have hreverse : t.entries.reverse.Pairwise (·.1 ≠ ·.1) :=
    List.pairwise_reverse.2 (t.distinct.imp Ne.symm)
  apply Option.ext
  intro v
  rw [lookup_distinct hreverse, List.mem_reverse, mem_entries]

theorem find?_reverse_entries {p : String → Bool} {e : String × α}
    (h : t.entries.reverse.find? (fun e => p e.1) = some e) :
    t.get? e.1 = some e.2 ∧ p e.1 ∧ ∀ k ∈ t.keys, p k → k ≤ e.1 := by
  obtain ⟨hp, before, after, hsplit, hbefore⟩ := List.find?_eq_some_iff_append.mp h
  have hmem : e ∈ t.entries := by
    rw [← List.mem_reverse, hsplit]
    simp
  refine ⟨mem_entries.mp hmem, hp, fun k hk hpk => ?_⟩
  obtain ⟨v, hv⟩ := mem_keys.mp hk
  have hreverse : t.entries.reverse.Pairwise fun e f => f.1 < e.1 := List.pairwise_reverse.mpr t.ordered
  have hentry : (k, v) ∈ t.entries.reverse := List.mem_reverse.mpr (mem_entries.mpr hv)
  rw [hsplit] at hentry hreverse
  rcases List.mem_append.mp hentry with hentry | hentry
  · have hnot := hbefore _ hentry
    simp [hpk] at hnot
  · rcases List.mem_cons.mp hentry with rfl | hentry
    · exact String.le_refl _
    · have hlt := (List.pairwise_cons.mp (List.pairwise_append.mp hreverse).2.1).1 _ hentry
      exact String.not_lt.mp (String.lt_asymm hlt)

theorem get?_union (t u : Table α) (k : String) :
    (t.union u).get? k = (u.get? k).or (t.get? k) := by
  rw [union, get?_foldl_insert, lookup_reverse]

theorem get?_ofList_map {γ : Type} (key : γ → String) (f : γ → α) (xs : List γ) (k : String) :
    (ofList (xs.map fun x => (key x, f x))).get? k =
      (xs.reverse.find? fun x => key x == k).map f := by
  rw [get?_ofList, ← List.map_reverse]
  induction xs.reverse with
  | nil => rfl
  | cons x xs ih =>
    rw [List.map_cons, lookup_cons_eq, List.find?_cons, ih]
    by_cases h : k = key x
    · simp [h]
    · rw [if_neg h, beq_eq_false_iff_ne.2 (Ne.symm h)]

theorem get?_foldl_union (ts : List (Table α)) (t : Table α) (k : String) :
    (ts.foldl (fun found u => u.union found) t).get? k = (t.get? k).or (ts.findSome? (·.get? k)) := by
  induction ts generalizing t with
  | nil => rw [List.foldl_nil, List.findSome?_nil, Option.or_none]
  | cons u ts ih =>
    rw [List.foldl_cons, ih, get?_union, List.findSome?_cons, Option.or_assoc]
    cases u.get? k <;> rfl

end Table

namespace Names

theorem mem_add {s : Names} {n m : String} : n ∈ (s.add m).keys ↔ n = m ∨ n ∈ s.keys := by
  simp only [Table.mem_keys, add, Table.get?_insert]
  by_cases h : n = m <;> simp [h]

theorem mem_foldl_add {names : List String} {s : Names} {n : String} :
    n ∈ (names.foldl .add s).keys ↔ n ∈ names ∨ n ∈ s.keys := by
  induction names generalizing s with
  | nil => simp
  | cons m names ih =>
    rw [List.foldl_cons, ih, mem_add, List.mem_cons, or_left_comm, or_assoc]

theorem mem_sorted {ns : List String} {n : String} : n ∈ Names.sorted ns ↔ n ∈ ns := by
  rw [sorted, ofList, Table.mem_keys]
  simp only [Table.get?_ofList_map (fun n => n) (fun _ => ()), Option.map_eq_some_iff]
  constructor
  · rintro ⟨_, m, hm, -⟩
    have hmem := List.mem_reverse.mp (List.mem_of_find?_eq_some hm)
    have hkey : m = n := by simpa using List.find?_some hm
    exact hkey ▸ hmem
  · intro hn
    have hfound : (ns.reverse.find? (· == n)).isSome := by
      rw [List.find?_isSome]
      exact ⟨n, List.mem_reverse.mpr hn, beq_self_eq_true n⟩
    obtain ⟨m, hm⟩ := Option.isSome_iff_exists.mp hfound
    exact ⟨(), m, hm, trivial⟩

end Names

end BuildServer
