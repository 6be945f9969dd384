import BuildServer.Dialogue.Basic

namespace BuildServer.Dialogue

variable {Q R σ : Type} {A : Q → Type} {B : R → Type} {α β : Type}

def question? : Dialogue A α → Option Q
  | done _ => none
  | ask q _ => some q

def Keeps (next : σ → Q → Option σ) (fit : σ → α → Prop) : Dialogue A α → σ → Prop
  | done a, s => fit s a
  | ask q f, s => ∃ s', next s q = some s' ∧ ∀ a, (f a).Keeps next fit s'

variable {next : σ → Q → Option σ} {fit fit' : σ → α → Prop} {s : σ}

theorem Keeps.mono (h : ∀ s a, fit s a → fit' s a) {d : Dialogue A α} (hd : d.Keeps next fit s) :
    d.Keeps next fit' s := by
  induction d generalizing s with
  | done a => exact h s a hd
  | ask q f ih =>
    obtain ⟨s', hq, hf⟩ := hd
    exact ⟨s', hq, fun a => ih a (hf a)⟩

theorem keeps_bind {fit : σ → β → Prop} (d : Dialogue A α) (f : α → Dialogue A β) :
    (d.bind f).Keeps next fit s ↔ d.Keeps next (fun s a => (f a).Keeps next fit s) s := by
  induction d generalizing s with
  | done a => rfl
  | ask q g ih => simp only [bind, Keeps, ih]

theorem keeps_via {f : (r : R) → Dialogue A (B r)} (hf : ∀ r, (f r).Keeps next (fun s' _ => s' = s) s)
    (d : Dialogue B α) : (d.via f).Keeps next (fun s' _ => s' = s) s := by
  induction d with
  | done a => rfl
  | ask r g ih =>
    rw [via, keeps_bind]
    apply (hf r).mono
    rintro s' a rfl
    exact ih a

end BuildServer.Dialogue
