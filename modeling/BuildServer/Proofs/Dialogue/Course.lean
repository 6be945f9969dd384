import BuildServer.Proofs.Dialogue.Hearing

namespace BuildServer.Dialogue

variable {Q R σ : Type} {A : Q → Type} {B : R → Type} {α β : Type}

/-- With some answers, the questions lead from one dialogue to the other. -/
inductive Leads : Dialogue A α → List Q → Dialogue A α → Prop
  | stay {d : Dialogue A α} : Leads d [] d
  | ask {q : Q} {f : A q → Dialogue A α} {qs : List Q} {d : Dialogue A α} (a : A q)
    (rest : Leads (f a) qs d) : Leads (ask q f) (q :: qs) d

def Asks (P : Q → Prop) : Dialogue A α → Prop
  | done _ => True
  | ask q f => P q ∧ ∀ a, (f a).Asks P

variable {P P' : Q → Prop} {d d' : Dialogue A α} {qs : List Q}

theorem leads_iff : d.Leads qs d' ↔ ∃ xs, d.Hears xs d' ∧ xs.map Sigma.fst = qs := by
  constructor
  · intro h
    induction h with
    | stay => exact ⟨[], .stay, rfl⟩
    | ask a _ ih =>
      obtain ⟨xs, heard, rfl⟩ := ih
      exact ⟨_ :: xs, .ask a heard, rfl⟩
  · rintro ⟨xs, heard, rfl⟩
    induction heard with
    | stay => exact .stay
    | ask a _ ih => exact .ask a ih

theorem Leads.snoc {q : Q} {f : A q → Dialogue A α} (h : d.Leads qs (.ask q f)) (a : A q) :
    d.Leads (qs ++ [q]) (f a) := by
  obtain ⟨xs, heard, rfl⟩ := leads_iff.mp h
  exact leads_iff.mpr ⟨_, heard.snoc a, List.map_append⟩

theorem Leads.bind_cases {f : α → Dialogue A β} {d' : Dialogue A β} (h : (d.bind f).Leads qs d') :
    (∃ e, d.Leads qs e ∧ e.bind f = d') ∨
      ∃ us vs a, qs = us ++ vs ∧ d.Leads us (.done a) ∧ (f a).Leads vs d' := by
  obtain ⟨xs, heard, rfl⟩ := leads_iff.mp h
  rcases heard.bind_cases with ⟨e, he, hd⟩ | ⟨us, vs, a, rfl, first, second⟩
  · exact .inl ⟨e, leads_iff.mpr ⟨xs, he, rfl⟩, hd⟩
  · exact .inr ⟨_, _, a, List.map_append, leads_iff.mpr ⟨us, first, rfl⟩, leads_iff.mpr ⟨vs, second, rfl⟩⟩

theorem Leads.of_bind {f : α → Dialogue A β} {b : β} (h : (d.bind f).Leads qs (.done b)) :
    ∃ us vs a, qs = us ++ vs ∧ d.Leads us (.done a) ∧ (f a).Leads vs (.done b) := by
  obtain ⟨xs, heard, rfl⟩ := leads_iff.mp h
  obtain ⟨us, vs, a, rfl, first, second⟩ := heard.of_bind
  exact ⟨_, _, a, List.map_append, leads_iff.mpr ⟨us, first, rfl⟩, leads_iff.mpr ⟨vs, second, rfl⟩⟩

theorem Leads.of_bind_ask {f : α → Dialogue A β} {q : Q} {g : A q → Dialogue A β}
    (h : (d.bind f).Leads qs (.ask q g)) :
    (∃ g', d.Leads qs (.ask q g') ∧ g = fun a => (g' a).bind f) ∨
      ∃ us vs a, qs = us ++ vs ∧ d.Leads us (.done a) ∧ (f a).Leads vs (.ask q g) := by
  rcases h.bind_cases with ⟨e, he, hask⟩ | h
  · cases e with
    | done a => exact .inr ⟨qs, [], a, by simp, he, hask ▸ .stay⟩
    | ask q' g' =>
      cases hask
      exact .inl ⟨g', he, rfl⟩
  · exact .inr h

theorem Leads.of_done {a b : α} (h : (done a : Dialogue A α).Leads qs (.done b)) : qs = [] ∧ a = b := by
  cases h
  exact ⟨rfl, rfl⟩

theorem Leads.of_ask_done {q : Q} {f : A q → Dialogue A α} {a b : α}
    (h : Leads (.ask q f) qs (.done b)) (hf : ∀ x, f x = .done a) : qs = [q] := by
  cases h with
  | ask x h =>
    rw [hf] at h
    rw [h.of_done.1]

theorem Leads.of_two {a b : Q} {c : α} (h : Leads (.ask a fun _ => .ask b fun _ => .done c) qs d) :
    (∀ q ∈ qs, q = a ∨ q = b) ∧ (∀ c', d = .done c' → qs = [a, b]) := by
  cases h with
  | stay => exact ⟨by simp, by rintro _ ⟨⟩⟩
  | ask _ h =>
    cases h with
    | stay => exact ⟨by simp, by rintro _ ⟨⟩⟩
    | ask _ h =>
      cases h
      exact ⟨by simp, fun _ _ => rfl⟩

theorem Asks.mono (h : ∀ q, P q → P' q) (hd : d.Asks P) : d.Asks P' := by
  induction d with
  | done a => trivial
  | ask q f ih => exact ⟨h q hd.1, fun a => ih a (hd.2 a)⟩

theorem asks_of_forall (d : Dialogue A α) (h : ∀ q, P q) : d.Asks P := by
  induction d with
  | done a => trivial
  | ask q f ih => exact ⟨h q, ih⟩

theorem Asks.bind {f : α → Dialogue A β} (hd : d.Asks P) (hf : ∀ a, (f a).Asks P) :
    (d.bind f).Asks P := by
  induction d with
  | done a => exact hf a
  | ask q g ih => exact ⟨hd.1, fun a => ih a (hd.2 a)⟩

theorem Asks.via {P : R → Prop} {P' : Q → Prop} {f : (r : R) → Dialogue A (B r)} {d : Dialogue B α}
    (h : d.Asks P) (hf : ∀ r, P r → (f r).Asks P') : (d.via f).Asks P' := by
  induction d with
  | done a => trivial
  | ask r g ih => exact (hf r h.1).bind fun x => ih x (h.2 x)

theorem asks_via {f : (r : R) → Dialogue A (B r)} (hf : ∀ r, (f r).Asks P) (d : Dialogue B α) :
    (d.via f).Asks P :=
  (asks_of_forall (P := fun _ => True) d fun _ => trivial).via fun r _ => hf r

theorem Asks.leads (h : d.Asks P) (leads : d.Leads qs d') : (∀ q ∈ qs, P q) ∧ d'.Asks P := by
  induction leads with
  | stay => exact ⟨by simp, h⟩
  | ask a _ ih => exact ⟨List.forall_mem_cons.2 ⟨h.1, (ih (h.2 a)).1⟩, (ih (h.2 a)).2⟩

theorem Asks.keeps {next : σ → Q → Option σ} {s : σ} (h : d.Asks P)
    (stays : ∀ q, P q → next s q = some s) : d.Keeps next (fun s' _ => s' = s) s := by
  induction d with
  | done a => rfl
  | ask q f ih => exact ⟨s, stays q h.1, fun a => ih a (h.2 a)⟩

end BuildServer.Dialogue
