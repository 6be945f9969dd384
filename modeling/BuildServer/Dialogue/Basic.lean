/-!
Dialogues: computations that ask questions and go on with the answers. Who answers is left open, and
so is what happens between a question and its answer: one dialogue can be run alone, or in turns
with others.
-/

namespace BuildServer

/-- A computation that may ask a question `q` and then gets an `A q`. -/
inductive Dialogue {Q : Type} (A : Q → Type) (α : Type) where
  | done (a : α)
  | ask (q : Q) (next : A q → Dialogue A α)

namespace Dialogue

variable {Q R : Type} {A : Q → Type} {B : R → Type} {α β γ : Type}

def bind : Dialogue A α → (α → Dialogue A β) → Dialogue A β
  | done a, f => f a
  | ask q next, f => ask q fun a => (next a).bind f

instance : Monad (Dialogue A) where
  pure := done
  bind := bind

def question (q : Q) : Dialogue A (A q) :=
  ask q done

def run {σ : Type} (answer : (q : Q) → σ → A q × σ) : Dialogue A α → σ → α × σ
  | done a, s => (a, s)
  | ask q next, s => (next (answer q s).1).run answer (answer q s).2

def asked {σ : Type} (answer : (q : Q) → σ → A q × σ) : Dialogue A α → σ → List Q
  | done _, _ => []
  | ask q next, s => q :: (next (answer q s).1).asked answer (answer q s).2

def step {σ : Type} (answer : (q : Q) → σ → Option (A q × σ)) :
    Dialogue A α → σ → Option (Dialogue A α × σ)
  | done _, _ => none
  | ask q next, s => (answer q s).map fun (a, s) => (next a, s)

def advance {σ : Type} (answer : (q : Q) → σ → Option (A q × σ)) (among : Q → Bool) :
    Dialogue A α → σ → Dialogue A α × σ
  | done a, s => (done a, s)
  | ask q next, s =>
    if among q then
      match answer q s with
      | some (a, s) => (next a).advance answer among s
      | none => (ask q next, s)
    else (ask q next, s)

def runIfAnswered {σ : Type} (answer : (q : Q) → σ → Option (A q × σ)) :
    Dialogue A α → σ → Option (α × σ)
  | done a, s => some (a, s)
  | ask q next, s => (answer q s).bind fun (a, s) => (next a).runIfAnswered answer s

def result? : Dialogue A α → Option α
  | done a => some a
  | ask _ _ => none

/-- Asks each question by way of another dialogue. -/
def via (f : (q : Q) → Dialogue B (A q)) : Dialogue A α → Dialogue B α
  | done a => done a
  | ask q next => (f q).bind fun a => (next a).via f

@[simp] theorem done_bind (a : α) (f : α → Dialogue A β) : (done a : Dialogue A α).bind f = f a := rfl

theorem bind_done (d : Dialogue A α) : d.bind done = d := by
  induction d with
  | done a => rfl
  | ask q next ih => simp [bind, ih]

theorem bind_assoc (d : Dialogue A α) (f : α → Dialogue A β) (g : β → Dialogue A γ) :
    (d.bind f).bind g = d.bind fun a => (f a).bind g := by
  induction d with
  | done a => rfl
  | ask q next ih => simp [bind, ih]

theorem run_bind {σ : Type} (answer : (q : Q) → σ → A q × σ) (d : Dialogue A α)
    (f : α → Dialogue A β) (s : σ) :
    (d.bind f).run answer s = (f (d.run answer s).1).run answer (d.run answer s).2 := by
  induction d generalizing s with
  | done a => rfl
  | ask q next ih => simp [bind, run, ih]

end Dialogue

end BuildServer
