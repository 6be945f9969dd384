import BuildServer.Json.Decode

namespace BuildServer.Json

def keyed (ms : List (String × Doc)) : List (Except Fault String × Doc) :=
  ms.map fun m => (.ok m.1, m.2)

theorem fill_field {σ β : Type} {name : String} {r : Reader β} {get : σ → Option β} {put : σ → β → σ}
    {dflt : Bool} {d d' : σ} {doc : Doc} :
    (field name r get put dflt).fill d doc = .ok d' ↔ ∃ b, r doc = .ok b ∧ put d b = d' := by
  cases hb : r doc with
  | error e => simp [field, hb, bind, Except.bind]
  | ok b => simp [field, hb, bind, Except.bind, pure, Except.pure]

section Members

variable {σ α : Type} {s : Shape σ α} {ms ms' : List (String × Doc)} {k : String} {d : Doc} {r r' : σ}

def Shape.knows (s : Shape σ α) (name : String) : Bool := s.fields.any (·.name == name)

theorem find?_name {f : Field σ} (hf : s.fields.find? (·.name == k) = some f) : f ∈ s.fields ∧ f.name = k :=
  ⟨List.mem_of_find?_eq_some hf, by simpa using List.find?_some hf⟩

theorem readMembers_found {f : Field σ} {r₁ : σ} (hf : s.fields.find? (·.name == k) = some f)
    (hempty : f.filled r = false) (hfill : f.fill r d = .ok r₁) :
    s.readMembers r (keyed ((k, d) :: ms)) = s.readMembers r₁ (keyed ms) := by
  simp [keyed, Shape.readMembers, lift, hf, hempty, hfill, bind, Except.bind]

theorem readMembers_skipped (hf : s.fields.find? (·.name == k) = none) (hd : d.skip = .ok ()) :
    s.readMembers r (keyed ((k, d) :: ms)) = s.readMembers r (keyed ms) := by
  simp [keyed, Shape.readMembers, lift, hf, hd, bind, Except.bind]

theorem readMembers_cons_ok (h : s.readMembers r (keyed ((k, d) :: ms)) = .ok r') :
    (∃ f r₁, s.fields.find? (·.name == k) = some f ∧ f.filled r = false ∧ f.fill r d = .ok r₁ ∧
      s.readMembers r₁ (keyed ms) = .ok r') ∨
    (s.fields.find? (·.name == k) = none ∧ d.skip = .ok () ∧ s.readMembers r (keyed ms) = .ok r') := by
  simp only [keyed, List.map_cons, Shape.readMembers, lift, bind, Except.bind] at h
  cases hf : s.fields.find? (·.name == k) with
  | none =>
    simp only [hf] at h
    cases hd : d.skip with
    | error e => simp [hd] at h
    | ok _ => exact .inr ⟨rfl, rfl, by simpa [keyed, hd] using h⟩
  | some f =>
    simp only [hf] at h
    cases hempty : f.filled r with
    | true => simp [hempty, raise] at h
    | false =>
      cases hfill : f.fill r d with
      | error e => simp [hempty, hfill] at h
      | ok r₁ => exact .inl ⟨f, r₁, rfl, hempty, hfill, by simpa [keyed, hempty, hfill] using h⟩

theorem readMembers_filter (h : ∀ m ∈ ms, m.2.skip = .ok ()) :
    s.readMembers r (keyed ms) = s.readMembers r (keyed (ms.filter fun m => s.knows m.1)) := by
  induction ms generalizing r with
  | nil => rfl
  | cons m ms ih =>
    obtain ⟨k, d⟩ := m
    have hrest := fun r => ih (r := r) fun m hm => h m (List.mem_cons_of_mem _ hm)
    cases hf : s.fields.find? (·.name == k) with
    | none =>
      have hk : s.knows k = false := by
        simpa [Shape.knows] using hf
      rw [readMembers_skipped hf (h _ List.mem_cons_self), List.filter_cons_of_neg (by simp [hk]), hrest]
    | some f =>
      have hk : s.knows k = true := by
        obtain ⟨hmem, hname⟩ := find?_name hf
        simp only [Shape.knows, List.any_eq_true]
        exact ⟨f, hmem, by simpa using hname⟩
      rw [List.filter_cons_of_pos (by simp [hk])]
      simp only [keyed, List.map_cons, Shape.readMembers, lift, hf, bind, Except.bind]
      split
      · rfl
      · cases f.fill r d with
        | error e => rfl
        | ok r₁ => exact hrest r₁

structure Shape.Independent (s : Shape σ α) : Prop where
  fills : ∀ f ∈ s.fields, ∀ r d r', f.fill r d = .ok r' → f.filled r' = true
  filled : ∀ f ∈ s.fields, ∀ g ∈ s.fields, f.name ≠ g.name → ∀ r d r', f.fill r d = .ok r' →
    g.filled r' = g.filled r
  comm : ∀ f ∈ s.fields, ∀ g ∈ s.fields, f.name ≠ g.name → ∀ r d e r₁ r₂, f.fill r d = .ok r₁ →
    g.fill r₁ e = .ok r₂ → ∃ r₁', g.fill r e = .ok r₁' ∧ f.fill r₁' d = .ok r₂

theorem Shape.Independent.readMembers_swap (hs : s.Independent) {k' : String} {d' : Doc}
    (h : s.readMembers r (keyed ((k, d) :: (k', d') :: ms)) = .ok r') :
    s.readMembers r (keyed ((k', d') :: (k, d) :: ms)) = .ok r' := by
  rcases readMembers_cons_ok h with ⟨f, r₁, hf, hempty, hfill, h₁⟩ | ⟨hf, hd, h₁⟩
  · rcases readMembers_cons_ok h₁ with ⟨g, r₂, hg, hempty', hfill', h₂⟩ | ⟨hg, hd', h₂⟩
    · obtain ⟨hfm, rfl⟩ := find?_name hf
      obtain ⟨hgm, rfl⟩ := find?_name hg
      by_cases hname : f.name = g.name
      · -- The second of two members with one name is refused.
        obtain rfl : f = g := Option.some.inj (hf.symm.trans (hname ▸ hg))
        rw [hs.fills f hfm _ _ _ hfill] at hempty'
        cases hempty'
      · obtain ⟨r₁', hfill₁, hfill₂⟩ := hs.comm f hfm g hgm hname _ _ _ _ _ hfill hfill'
        have hempty₁ := hs.filled f hfm g hgm hname _ _ _ hfill
        have hempty₂ := hs.filled g hgm f hfm (Ne.symm hname) _ _ _ hfill₁
        rw [readMembers_found hg (hempty₁ ▸ hempty') hfill₁,
          readMembers_found hf (hempty₂.trans hempty) hfill₂, h₂]
    · rw [readMembers_skipped hg hd', readMembers_found hf hempty hfill, h₂]
  · rcases readMembers_cons_ok h₁ with ⟨g, r₂, hg, hempty', hfill', h₂⟩ | ⟨hg, hd', h₂⟩
    · rw [readMembers_found hg hempty' hfill', readMembers_skipped hf hd, h₂]
    · rw [readMembers_skipped hg hd', readMembers_skipped hf hd, h₂]

theorem Shape.Independent.readMembers_perm (hs : s.Independent) (hperm : ms.Perm ms')
    (h : s.readMembers r (keyed ms) = .ok r') : s.readMembers r (keyed ms') = .ok r' := by
  induction hperm generalizing r with
  | nil => exact h
  | cons m _ ih =>
    obtain ⟨k, d⟩ := m
    rcases readMembers_cons_ok h with ⟨f, r₁, hf, hempty, hfill, h₁⟩ | ⟨hf, hd, h₁⟩
    · rw [readMembers_found hf hempty hfill, ih h₁]
    · rw [readMembers_skipped hf hd, ih h₁]
  | swap m m' ms => exact hs.readMembers_swap h
  | trans _ _ ih ih' => exact ih' (ih h)

end Members

end BuildServer.Json
