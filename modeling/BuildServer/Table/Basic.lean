namespace BuildServer

def insertEntry {α : Type} (k : String) (v : α) : List (String × α) → List (String × α)
  | [] => [(k, v)]
  | e :: rest =>
    if k < e.1 then (k, v) :: e :: rest
    else if e.1 < k then e :: insertEntry k v rest
    else (k, v) :: rest

theorem key_insertEntry {α : Type} {k : String} {v : α} {es : List (String × α)}
    {e : String × α} (h : e ∈ insertEntry k v es) : e.1 = k ∨ e ∈ es := by
  induction es with
  | nil => simp_all [insertEntry]
  | cons x es ih =>
    simp only [insertEntry] at h
    split at h
    · rcases List.mem_cons.1 h with rfl | h
      · exact .inl rfl
      · exact .inr h
    · split at h
      · rcases List.mem_cons.1 h with rfl | h
        · exact .inr (by simp)
        · exact (ih h).imp id (List.mem_cons_of_mem _)
      · rcases List.mem_cons.1 h with rfl | h
        · exact .inl rfl
        · exact .inr (List.mem_cons_of_mem _ h)

theorem eq_of_not_lt {s t : String} (h : ¬s < t) (h' : ¬t < s) : s = t :=
  String.le_antisymm (String.not_lt.1 h') (String.not_lt.1 h)

theorem ordered_insertEntry {α : Type} (k : String) (v : α) {es : List (String × α)}
    (h : es.Pairwise (·.1 < ·.1)) : (insertEntry k v es).Pairwise (·.1 < ·.1) := by
  induction es with
  | nil => simp [insertEntry]
  | cons x es ih =>
    rw [List.pairwise_cons] at h
    simp only [insertEntry]
    split
    · rename_i hk
      refine List.pairwise_cons.2 ⟨fun e he => ?_, List.pairwise_cons.2 h⟩
      rcases List.mem_cons.1 he with rfl | he
      · exact hk
      · exact String.lt_trans hk (h.1 e he)
    · split
      · rename_i hk
        refine List.pairwise_cons.2 ⟨fun e he => ?_, ih h.2⟩
        rcases key_insertEntry he with he | he
        · exact he ▸ hk
        · exact h.1 e he
      · rename_i h1 h2
        have hx := eq_of_not_lt h1 h2
        exact List.pairwise_cons.2 ⟨fun e he => hx ▸ h.1 e he, h.2⟩

structure Table (α : Type) where
  entries : List (String × α)
  ordered : entries.Pairwise (·.1 < ·.1)
  deriving DecidableEq

namespace Table

variable {α β : Type}

def empty : Table α := ⟨[], .nil⟩

instance : Inhabited (Table α) := ⟨empty⟩

def insert (t : Table α) (k : String) (v : α) : Table α :=
  ⟨insertEntry k v t.entries, ordered_insertEntry k v t.ordered⟩

def get? (t : Table α) (k : String) : Option α :=
  t.entries.lookup k

def keys (t : Table α) : List String :=
  t.entries.map (·.1)

def values (t : Table α) : List α :=
  t.entries.map (·.2)

def isEmpty (t : Table α) : Bool :=
  t.entries.isEmpty

def contains (t : Table α) (k : String) : Bool :=
  (t.get? k).isSome

def filter (p : String → α → Bool) (t : Table α) : Table α :=
  ⟨t.entries.filter fun e => p e.1 e.2, t.ordered.filter _⟩

def erase (t : Table α) (k : String) : Table α :=
  t.filter fun k' _ => k' != k

def map (f : String → α → β) (t : Table α) : Table β :=
  ⟨t.entries.map fun e => (e.1, f e.1 e.2),
    List.pairwise_map.2 t.ordered⟩

def ofList (es : List (String × α)) : Table α :=
  es.foldl (fun t e => t.insert e.1 e.2) empty

def union (t u : Table α) : Table α :=
  u.entries.foldl (fun t e => t.insert e.1 e.2) t

def update (t : Table α) (k : String) (start : α) (f : α → α) : Table α :=
  t.insert k (f ((t.get? k).getD start))

@[simp] theorem get?_empty (k : String) : (empty : Table α).get? k = none := rfl

theorem lookup_cons_eq (k : String) (e : String × α) (es : List (String × α)) :
    (e :: es).lookup k = if k = e.1 then some e.2 else es.lookup k := by
  rw [List.lookup_cons]
  by_cases h : k = e.1
  · simp [h]
  · rw [if_neg h, beq_eq_false_iff_ne.2 h]

theorem lookup_insertEntry (k : String) (v : α) (k' : String) (es : List (String × α)) :
    (insertEntry k v es).lookup k' = if k' = k then some v else es.lookup k' := by
  induction es with
  | nil => simp [insertEntry, lookup_cons_eq]
  | cons e es ih =>
    simp only [insertEntry]
    split
    · rw [lookup_cons_eq]
    · split
      · rename_i hk
        have hne : e.1 ≠ k := fun he => String.lt_irrefl k (he ▸ hk)
        by_cases h : k' = e.1 <;> simp [lookup_cons_eq, h, ih, hne]
      · rename_i h1 h2
        have he := eq_of_not_lt h1 h2
        simp only [lookup_cons_eq, ← he]
        split <;> rfl

theorem get?_insert (t : Table α) (k : String) (v : α) (k' : String) :
    (t.insert k v).get? k' = if k' = k then some v else t.get? k' :=
  lookup_insertEntry k v k' t.entries

end Table

abbrev Names := Table Unit

namespace Names

def ofList (ns : List String) : Names :=
  Table.ofList (ns.map fun n => (n, ()))

def add (s : Names) (n : String) : Names :=
  s.insert n ()

def sorted (ns : List String) : List String :=
  (ofList ns).keys

end Names

end BuildServer
