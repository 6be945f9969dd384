import BuildServer.Graph.Build

namespace BuildServer

namespace Dialogue

variable {Q : Type} {A : Q → Type} {α β : Type}

instance : LawfulMonad (Dialogue A) :=
  LawfulMonad.mk' (Dialogue A) bind_done (fun _ _ => rfl) bind_assoc

def Ensures (P : α → Prop) : Dialogue A α → Prop
  | done a => P a
  | ask _ f => ∀ a, (f a).Ensures P

variable {P : α → Prop} {R : β → Prop}

theorem Ensures.bind {d : Dialogue A α} {f : α → Dialogue A β} (hd : d.Ensures P)
    (hf : ∀ a, P a → (f a).Ensures R) : (d.bind f).Ensures R := by
  induction d with
  | done a => exact hf a hd
  | ask q g ih => exact fun a => ih a (hd a)

theorem ensures_of_forall (d : Dialogue A α) (h : ∀ a, P a) : d.Ensures P := by
  induction d with
  | done a => exact h a
  | ask q f ih => exact fun a => ih a

theorem Ensures.runIfAnswered {σ : Type} {d : Dialogue A α} {answer : (q : Q) → σ → Option (A q × σ)}
    {s s' : σ} {a : α} (h : d.Ensures P) (hrun : d.runIfAnswered answer s = some (a, s')) : P a := by
  induction d generalizing s with
  | done b =>
    obtain ⟨rfl, -⟩ := Prod.mk.inj (Option.some.inj hrun)
    exact h
  | ask q f ih =>
    rw [Dialogue.runIfAnswered, Option.bind_eq_some_iff] at hrun
    obtain ⟨⟨b, u⟩, -, hrun⟩ := hrun
    exact ih b (h b) hrun

theorem Ensures.via {R : Type} {B : R → Type} {d : Dialogue A α} {f : (q : Q) → Dialogue B (A q)}
    (h : d.Ensures P) : (d.via f).Ensures P := by
  induction d with
  | done a => exact h
  | ask q g ih => exact Ensures.bind (ensures_of_forall (f q) fun _ => trivial) fun a _ => ih a (h a)

end Dialogue

namespace Attempt

variable {α β : Type} {P : α → Prop} {R : β → Prop}

def Ensures (P : α → Prop) (x : Attempt α) : Prop :=
  x.run.Ensures fun r => ∀ a, r = .ok a → P a

theorem ensures_pure {a : α} (h : P a) : Ensures P (pure a : Attempt α) := by
  rintro _ ⟨⟩
  exact h

theorem Ensures.bind {x : Attempt α} {f : α → Attempt β} (hx : Ensures P x)
    (hf : ∀ a, P a → Ensures R (f a)) : Ensures R (x >>= f) := by
  apply Dialogue.Ensures.bind hx
  intro r hr
  cases r with
  | error e => rintro _ ⟨⟩
  | ok a => exact hf a (hr a rfl)

theorem ensures_of_forall (x : Attempt α) (h : ∀ a, P a) : Ensures P x :=
  Dialogue.ensures_of_forall x.run fun _ a _ => h a

theorem ensures_mapM {f : α → Attempt β} (hf : ∀ a, Ensures R (f a)) (as : List α) :
    Ensures (fun bs => ∀ b ∈ bs, R b) (as.mapM f) := by
  induction as with
  | nil => exact ensures_pure (by simp)
  | cons a as ih =>
    rw [List.mapM_cons]
    refine (hf a).bind fun b hb => ih.bind fun bs hbs => ensures_pure ?_
    exact List.forall_mem_cons.2 ⟨hb, hbs⟩

end Attempt

end BuildServer
