import BuildServer.Proofs.Dialogue.Discipline
import BuildServer.Proofs.Dialogue.Ensures

namespace BuildServer.Dialogue

variable {Q σ : Type} {A : Q → Type} {α β : Type}

inductive Hears : Dialogue A α → List ((q : Q) × A q) → Dialogue A α → Prop
  | stay {d : Dialogue A α} : Hears d [] d
  | ask {q : Q} {f : A q → Dialogue A α} {xs : List ((q : Q) × A q)} {d : Dialogue A α} (a : A q)
    (rest : Hears (f a) xs d) : Hears (ask q f) (⟨q, a⟩ :: xs) d

variable {d d' : Dialogue A α} {xs : List ((q : Q) × A q)} {next : σ → Q → Option σ}
  {fit : σ → α → Prop} {st : σ}

theorem Hears.snoc {q : Q} {f : A q → Dialogue A α} (h : d.Hears xs (.ask q f)) (a : A q) :
    d.Hears (xs ++ [⟨q, a⟩]) (f a) := by
  generalize hd : Dialogue.ask q f = d' at h
  induction h with
  | stay =>
    subst hd
    exact .ask a .stay
  | ask b _ ih => exact .ask b (ih hd)

theorem Hears.bind_cases {f : α → Dialogue A β} {d' : Dialogue A β} (h : (d.bind f).Hears xs d') :
    (∃ e, d.Hears xs e ∧ e.bind f = d') ∨
      ∃ us vs a, xs = us ++ vs ∧ d.Hears us (.done a) ∧ (f a).Hears vs d' := by
  induction d generalizing xs with
  | done a => exact .inr ⟨[], xs, a, rfl, .stay, h⟩
  | ask q g ih =>
    cases h with
    | stay => exact .inl ⟨.ask q g, .stay, rfl⟩
    | ask a h =>
      rcases ih a h with ⟨e, he, rfl⟩ | ⟨us, vs, b, rfl, hd, hf⟩
      · exact .inl ⟨e, .ask a he, rfl⟩
      · exact .inr ⟨⟨q, a⟩ :: us, vs, b, rfl, .ask a hd, hf⟩

theorem Hears.of_done {a b : α} (h : (done a : Dialogue A α).Hears xs (.done b)) : xs = [] ∧ a = b := by
  cases h
  exact ⟨rfl, rfl⟩

theorem Hears.of_bind {f : α → Dialogue A β} {b : β} (h : (d.bind f).Hears xs (.done b)) :
    ∃ us vs a, xs = us ++ vs ∧ d.Hears us (.done a) ∧ (f a).Hears vs (.done b) := by
  rcases h.bind_cases with ⟨e, he, hb⟩ | h
  · cases e with
    | done a => exact ⟨xs, [], a, by simp, he, hb ▸ .stay⟩
    | ask q g => cases hb
  · exact h

theorem Hears.of_bind_done {g : α → β} {e : Dialogue A β} (h : (d.bind fun a => done (g a)).Hears xs e) :
    ∃ d', d.Hears xs d' ∧ e = d'.bind fun a => done (g a) := by
  rcases h.bind_cases with ⟨d', hd, rfl⟩ | ⟨us, vs, a, rfl, hd, hdone⟩
  · exact ⟨d', hd, rfl⟩
  · cases hdone
    exact ⟨done a, by rwa [List.append_nil], rfl⟩

theorem Hears.split {us vs : List ((q : Q) × A q)} {q : Q} {a : A q} (h : d.Hears (us ++ ⟨q, a⟩ :: vs) d') :
    ∃ f, d.Hears us (.ask q f) ∧ (f a).Hears vs d' := by
  induction us generalizing d with
  | nil =>
    cases h with
    | ask _ h => exact ⟨_, .stay, h⟩
  | cons u us ih =>
    cases h with
    | ask b h =>
      obtain ⟨f, hf, hd⟩ := ih h
      exact ⟨f, .ask b hf, hd⟩

theorem Keeps.hears (keeps : d.Keeps next fit st) (h : d.Hears xs d') :
    ∃ st', (xs.map Sigma.fst).foldlM next st = some st' ∧ d'.Keeps next fit st' := by
  induction h generalizing st with
  | stay => exact ⟨st, rfl, keeps⟩
  | ask a _ ih =>
    obtain ⟨st₁, hnext, hf⟩ := keeps
    obtain ⟨st', hrest, hd⟩ := ih (hf a)
    refine ⟨st', ?_, hd⟩
    rw [List.map_cons, List.foldlM_cons, hnext]
    exact hrest

theorem Ensures.hears {P : α → Prop} {a : α} (h : d.Ensures P) (heard : d.Hears xs (.done a)) : P a := by
  generalize hd : Dialogue.done a = d' at heard
  induction heard with
  | stay =>
    subst hd
    exact h
  | ask b _ ih => exact ih (h b) hd

def transcript (answer : (q : Q) → σ → Option (A q × σ)) : Dialogue A α → σ → List ((q : Q) × A q)
  | done _, _ => []
  | ask q next, s =>
    match answer q s with
    | none => []
    | some (a, s') => ⟨q, a⟩ :: (next a).transcript answer s'

theorem hears_transcript {answer : (q : Q) → σ → Option (A q × σ)} {s s' : σ} {a : α}
    (h : d.runIfAnswered answer s = some (a, s')) : d.Hears (d.transcript answer s) (.done a) := by
  induction d generalizing s with
  | done b =>
    obtain ⟨rfl, -⟩ := Prod.mk.inj (Option.some.inj h)
    exact .stay
  | ask q f ih =>
    obtain ⟨⟨b, u⟩, hanswer, h⟩ := Option.bind_eq_some_iff.mp h
    rw [transcript, hanswer]
    exact .ask b (ih b h)

end BuildServer.Dialogue
