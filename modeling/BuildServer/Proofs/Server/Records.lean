import Mathlib.Data.List.Induction
import BuildServer.Proofs.Dialogue.Turns
import BuildServer.Proofs.Server.Effects
import BuildServer.Proofs.Server.Notices
import BuildServer.Proofs.Table.Lookup

namespace BuildServer

open Dialogue (heardBy mem_heardBy)

namespace Action

def isStatePart : Action → Bool
  | .register _ => true
  | .record _ => true
  | .drain => true
  | .hasDocuments => true
  | .documents => true
  | .probe .files => true
  | .send _ => true
  | _ => false

def isDrain : Action → Bool
  | .drain => true
  | _ => false

end Action

abbrev StateTurn := Dialogue.Turn Action.Answer

section History

def noteRecord (recorded : List Changes) (t : StateTurn) : List Changes :=
  match t.question with
  | .record c => recorded ++ [c]
  | .drain => []
  | _ => recorded

def recordedSince (ts : List StateTurn) : List Changes := ts.foldl noteRecord []

def lastRecorded (ts : List StateTurn) (file : String) : Option CompilerOptions :=
  (recordedSince ts).reverse.findSome? fun c => c.options.get? file

def registration? (document : String) (t : StateTurn) : Option Bool :=
  match t.question with
  | .register r => if r.uri = some document then some (!BuildState.isUnregister r.action) else none
  | _ => none

def Registered (ts : List StateTurn) (document : String) : Prop :=
  ts.reverse.findSome? (registration? document) = some true

variable {ts us : List StateTurn} {t : StateTurn} {c : Changes} {i : Nat} {file document : String}

theorem recordedSince_concat : recordedSince (ts ++ [t]) = noteRecord (recordedSince ts) t :=
  List.foldl_append

theorem lastRecorded_concat : lastRecorded (ts ++ [t]) file =
    match t.question with
    | .record c => (c.options.get? file).or (lastRecorded ts file)
    | .drain => none
    | _ => lastRecorded ts file := by
  rw [lastRecorded, recordedSince_concat, noteRecord]
  split
  · rw [List.reverse_append, List.reverse_singleton, List.singleton_append, List.findSome?_cons, lastRecorded]
    cases Table.get? _ file <;> rfl
  · rfl
  · rfl

theorem registered_concat : Registered (ts ++ [t]) document ↔
    registration? document t = some true ∨ registration? document t = none ∧ Registered ts document := by
  unfold Registered
  rw [List.reverse_append, List.reverse_singleton, List.singleton_append, List.findSome?_cons]
  cases registration? document t with
  | none => simp
  | some r => cases r <;> simp

end History

namespace BuildState

variable {s : BuildState} {document : String}

theorem mem_registered_register (r : Params.Registration) : document ∈ (s.register r).registered.keys ↔
    if r.uri = some document then isUnregister r.action = false else document ∈ s.registered.keys := by
  unfold register
  split
  · next uri hunregister huri =>
    rw [huri, hunregister, Table.erase, Table.mem_keys]
    simp only [Table.get?_filter, Option.filter_eq_some_iff, bne_iff_ne]
    by_cases h : uri = document
    · simp [h]
    · simp [h, Ne.symm h, Table.mem_keys]
  · next huri =>
    rw [huri]
    simp
  · next uri hregister huri =>
    rw [huri, hregister]
    simp only [Names.mem_add, Option.some.injEq]
    by_cases h : uri = document
    · simp [h]
    · simp [h, Ne.symm h]
  · next huri =>
    rw [huri]
    simp

end BuildState

namespace Shared

variable {κ : Type} {client : Client κ} {s s' : Shared κ} {a : Action} {answer : a.Answer}

theorem exists_perform (h : a.isStatePart = true) (s : Shared κ) :
    ∃ answer s', perform client a s = some (answer, s') := by
  cases a <;> first | exact ⟨_, _, rfl⟩ | cases h

end Shared

structure Reflects {κ : Type} (client : Client κ) (site : κ) (ts : List StateTurn) (s : Shared κ) : Prop where
  unmoved : s.site = site
  untroubled : s.writer.trouble = none
  targets : ∀ uri, uri ∈ s.state.targets.keys ↔ ∃ c ∈ recordedSince ts, uri ∈ c.targets
  options : ∀ file, s.state.options.get? file = lastRecorded ts file
  registered : ∀ document, document ∈ s.state.registered.keys ↔ Registered ts document
  sent : ∀ i m r, ⟨i, .send m, r⟩ ∈ ts → r = .ok ()
  seen : ∀ i view, ⟨i, .probe .files, view⟩ ∈ ts → view = client.view site

namespace Reflects

variable {κ : Type} {client : Client κ} {site : κ} {ts : List StateTurn} {s s' : Shared κ} {i : Nat} {a : Action}
  {answer : a.Answer}

theorem initial (client : Client κ) (site : κ) (store : Store) :
    Reflects client site [] (.initial site store) where
  unmoved := rfl
  untroubled := rfl
  targets _ := ⟨nofun, nofun⟩
  options _ := rfl
  registered _ := ⟨nofun, nofun⟩
  sent := nofun
  seen := nofun

section

variable (h : Reflects client site ts s) (answered : Shared.perform client a s = some (answer, s'))

include h answered

theorem targets_turn (uri : String) :
    uri ∈ s'.state.targets.keys ↔ ∃ c ∈ recordedSince (ts ++ [⟨i, a, answer⟩]), uri ∈ c.targets := by
  obtain ⟨htargets, -⟩ := Prod.mk.inj (Shared.perform_pending answered)
  rw [recordedSince_concat]
  cases a with
  | record c =>
    have hrecord : s'.state.targets = c.targets.foldl .add s.state.targets := htargets
    rw [hrecord, Names.mem_foldl_add, h.targets]
    simp [noteRecord, or_and_right, exists_or, or_comm]
  | drain =>
    have hdrain : s'.state.targets = .empty := htargets
    rw [hdrain]
    exact ⟨nofun, nofun⟩
  | _ =>
    have hsame : s'.state.targets = s.state.targets := htargets
    rw [hsame]
    exact h.targets uri

theorem options_turn (file : String) :
    s'.state.options.get? file = lastRecorded (ts ++ [⟨i, a, answer⟩]) file := by
  obtain ⟨-, hoptions⟩ := Prod.mk.inj (Shared.perform_pending answered)
  rw [lastRecorded_concat]
  cases a with
  | record c =>
    have hrecord : s'.state.options = s.state.options.union c.options := hoptions
    rw [hrecord, Table.get?_union, h.options]
  | drain =>
    have hdrain : s'.state.options = .empty := hoptions
    rw [hdrain, Table.get?_empty]
  | _ =>
    have hsame : s'.state.options = s.state.options := hoptions
    rw [hsame]
    exact h.options file

theorem registered_turn (document : String) :
    document ∈ s'.state.registered.keys ↔ Registered (ts ++ [⟨i, a, answer⟩]) document := by
  have hregistered := Shared.perform_registered answered
  rw [registered_concat]
  cases a with
  | register r =>
    have hregister : s'.state.registered = (s.state.register r).registered := hregistered
    rw [hregister, BuildState.mem_registered_register, h.registered, registration?]
    by_cases huri : r.uri = some document
    · simp [huri]
    · simp [huri]
  | _ =>
    have hsame : s'.state.registered = s.state.registered := hregistered
    rw [hsame, h.registered]
    simp [registration?]

theorem untroubled_turn : s'.writer.trouble = none := by
  have hwriter := Shared.perform_writer answered
  cases a with
  | send m =>
    have hsend : s'.writer = (s.writer.send m).2 := hwriter
    rw [hsend, Writer.send, h.untroubled]
    exact h.untroubled
  | _ =>
    have hsame : s'.writer = s.writer := hwriter
    rw [hsame]
    exact h.untroubled

theorem turn (part : a.isStatePart = true) : Reflects client site (ts ++ [⟨i, a, answer⟩]) s' where
  unmoved := by
    rw [Shared.perform_site answered, ← h.unmoved]
    cases a with
    | probe p =>
      cases p with
      | files => rfl
      | call c => cases part
    | _ => rfl
  untroubled := h.untroubled_turn answered
  targets := h.targets_turn answered
  options := h.options_turn answered
  registered := h.registered_turn answered
  sent j m r hr := by
    rcases List.mem_append.mp hr with hr | hr
    · exact h.sent j m r hr
    · cases List.mem_singleton.mp hr
      rw [Shared.perform, Writer.send, h.untroubled] at answered
      cases answered
      rfl
  seen j view hview := by
    rcases List.mem_append.mp hview with hview | hview
    · exact h.seen j view hview
    · cases List.mem_singleton.mp hview
      rw [← h.unmoved]
      cases answered
      rfl

end

end Reflects

end BuildServer
