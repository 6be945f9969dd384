import BuildServer.Proofs.Graph.Consistency
import BuildServer.Proofs.Server.Records

namespace BuildServer

open Dialogue (heardBy mem_heardBy)

inductive StateCall where
  | register (r : Params.Registration)
  | record (c : Changes)
  | emit

def StateCall.program (service : Service) : StateCall → Program Unit
  | .register r => Program.act (.register r)
  | .record c => Program.act (.record c)
  | .emit => discard service.announce

/-- The announcement is of what had been recorded since the last drain before, and of the documents that were
registered when it looked. -/
structure Announcement.Fits (on : Bool) (files : FileView) (before looked : List StateTurn) (a : Announcement) :
    Prop where
  targets_increasing : a.targets.Pairwise (· < ·)
  targets : ∀ uri, uri ∈ a.targets ↔ ∃ c ∈ recordedSince before, uri ∈ c.targets
  documents_increasing : a.documents.Pairwise (·.1 < ·.1)
  documents : ∀ document o, (document, o) ∈ a.documents ↔ on = true ∧ Registered looked document ∧
    ∃ path, documentPath? document = some path ∧
      (lastRecorded before path).or (lastRecorded before (files.resolve path)) = some o

namespace Announcement

variable {κ : Type} {client : Client κ} {site : κ} {before looked : List StateTurn} {s s' : Shared κ} {on : Bool}

end Announcement

abbrev CallTurns {κ : Type} (client : Client κ) (service : Service) (calls : List StateCall) (site : κ)
    (store : Store) : List StateTurn → List (Program Unit) → Shared κ → Prop :=
  Dialogue.TakeTurns (Shared.perform client) (calls.map (StateCall.program service)) (.initial site store)

namespace StateCall

theorem program_emit (service : Service) : program service .emit =
    .ask .drain fun changes => (service.tell changes).bind fun _ => .done () :=
  rfl

theorem isStatePart_of_telling (a : Action) (h : a.isLook = true ∨ a.isNotification = true) :
    a.isStatePart = true := by
  cases a with
  | hasDocuments | documents | send _ => rfl
  | probe p =>
    cases p with
    | files => rfl
    | call c => rcases h with h | h <;> cases h
  | _ => rcases h with h | h <;> cases h

theorem asks_program (service : Service) (c : StateCall) : (c.program service).Asks (·.isStatePart = true) := by
  cases c with
  | register r => exact ⟨rfl, fun _ => trivial⟩
  | record c => exact ⟨rfl, fun _ => trivial⟩
  | emit =>
    rw [program_emit]
    exact ⟨rfl, fun changes => ((service.telling_tell changes).mono isStatePart_of_telling).bind fun _ => trivial⟩

theorem not_drain_of_telling (a : Action) (h : a.isLook = true ∨ a.isNotification = true) : a ≠ .drain := by
  rintro rfl
  rcases h with h | h <;> cases h

theorem drains {service : Service} {c : StateCall} {xs : List ((a : Action) × a.Answer)}
    {f : Changes → Program Unit} (h : (c.program service).Hears xs (.ask .drain f)) :
    c = .emit ∧ xs = [] ∧ f = fun changes => (service.tell changes).bind fun _ => .done () := by
  cases c with
  | register r => cases h with | ask _ h => cases h
  | record c => cases h with | ask _ h => cases h
  | emit =>
    rw [program_emit] at h
    cases h with
    | stay => exact ⟨rfl, rfl, rfl⟩
    | ask changes h =>
      have quiet : ((service.tell changes).bind fun _ => .done ()).Asks (· ≠ .drain) :=
        ((service.telling_tell changes).mono not_drain_of_telling).bind fun _ => trivial
      exact absurd rfl (quiet.leads (Dialogue.leads_iff.mpr ⟨_, h, rfl⟩)).2.1

theorem silent_until_drain {service : Service} {c : StateCall} {xs : List ((a : Action) × a.Answer)}
    {d : Program Unit} (h : (c.program service).Hears xs d) (undrained : ∀ changes, ⟨.drain, changes⟩ ∉ xs) :
    sentIn xs = [] := by
  cases c with
  | register r =>
    cases h with
    | stay => rfl
    | ask _ h =>
      cases h
      rfl
  | record c =>
    cases h with
    | stay => rfl
    | ask _ h =>
      cases h
      rfl
  | emit =>
    rw [program_emit] at h
    cases h with
    | stay => rfl
    | ask changes h => exact absurd List.mem_cons_self (undrained changes)

end StateCall

namespace CallTurns

variable {κ : Type} {client : Client κ} {service : Service} {calls : List StateCall} {site : κ} {store : Store}
  {ts before after : List StateTurn} {now : List (Program Unit)} {s : Shared κ} {i : Nat} {changes : Changes}

theorem asks_calls (service : Service) (calls : List StateCall) :
    ∀ d ∈ calls.map (StateCall.program service), d.Asks (·.isStatePart = true) := by
  intro d hd
  obtain ⟨c, -, rfl⟩ := List.mem_map.mp hd
  exact c.asks_program service

theorem reflects (run : CallTurns client service calls site store ts now s) : Reflects client site ts s := by
  induction run with
  | start => exact .initial client site store
  | turn before here answered ih =>
    have part := (before.asks (asks_calls service calls)).2 _ (List.mem_of_getElem? here)
    exact ih.turn answered part.1

theorem silent (run : CallTurns client service calls site store ts now s)
    (undrained : ∀ changes, ⟨i, .drain, changes⟩ ∉ ts) : sentIn (heardBy i ts) = [] := by
  cases hp : (calls.map (StateCall.program service))[i]? with
  | none => rw [run.heardBy_of_absent hp, sentIn, List.filterMap_nil]
  | some p =>
    obtain ⟨d', -, heard⟩ := run.hears hp
    rw [List.getElem?_map, Option.map_eq_some_iff] at hp
    obtain ⟨c, -, rfl⟩ := hp
    exact StateCall.silent_until_drain heard fun changes h => undrained changes (mem_heardBy.mp h)

section

variable (run : CallTurns client service calls site store (before ++ ⟨i, .drain, changes⟩ :: after) now s)

include run

theorem drained : ∃ s₁, Reflects client site before s₁ ∧ changes = s₁.state.pending := by
  obtain ⟨_, s₁, _, _, hbefore, -, answered⟩ := run.at_turn
  exact ⟨s₁, CallTurns.reflects hbefore, Shared.perform_drain answered⟩

theorem looks {q : Action} {x : q.Answer} (heard : ⟨q, x⟩ ∈ heardBy i after) :
    ∃ looked s₂ s₃, before ++ [⟨i, .drain, changes⟩] <+: looked ∧
      looked <+: before ++ ⟨i, .drain, changes⟩ :: after ∧ Reflects client site looked s₂ ∧
      Shared.perform client q s₂ = some (x, s₃) := by
  obtain ⟨between, rest, rfl⟩ := List.append_of_mem (mem_heardBy.mp heard)
  rw [← List.cons_append, ← List.append_assoc] at run
  obtain ⟨_, s₂, _, s₃, hlooked, -, answered⟩ := run.at_turn
  exact ⟨_, s₂, s₃, ⟨between, by simp⟩, ⟨⟨i, q, x⟩ :: rest, by simp⟩, CallTurns.reflects hlooked, answered⟩

end

variable {j k : Nat} {c : Changes} {between : List StateTurn} {uri : String}

theorem finish (run : CallTurns client service calls site store ts now s) : ∃ more last s',
    CallTurns client service calls site store (ts ++ more) last s' ∧ ∀ d ∈ last, d = .done () := by
  obtain ⟨more, last, s', h, ended⟩ :=
    Dialogue.TakeTurns.finish (fun _ s part => Shared.exists_perform part s) run (asks_calls service calls)
  refine ⟨more, last, s', h, fun d hd => ?_⟩
  obtain ⟨_, rfl⟩ := ended d hd
  rfl

end CallTurns

end BuildServer
