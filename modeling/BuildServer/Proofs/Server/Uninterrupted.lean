import BuildServer.Proofs.Server.SingleFlight

namespace BuildServer

namespace RefreshStage

variable {role : Role} {st st' : RefreshStage} {q : Action}

theorem outside_of_finishRefresh (h : next role st .finishRefresh = some st') : st'.isInside = false := by
  cases passes_of_next h <;> rfl

theorem isInside_next (h : next role st q = some st') (begins : q ≠ .beginRefresh)
    (finishes : q ≠ .finishRefresh) : st'.isInside = st.isInside := by
  cases passes_of_next h with
  | begin => exact absurd rfl begins
  | fail | finish => exact absurd rfl finishes
  | _ => rfl

end RefreshStage

namespace Shared

open Dialogue (Leads)

variable {κ α β : Type} {client : Client κ} {p : Program α} {a : α} {b : β} {s s' : Shared κ}
  {actions : List Action}

inductive Runs (client : Client κ) : Program α → Shared κ → List Action → α → Shared κ → Prop
  | done {a : α} {s : Shared κ} : Runs client (.done a) s [] a s
  | ask {q : Action} {f : q.Answer → Program α} {x : q.Answer} {s u s' : Shared κ} {actions : List Action}
    {a : α} (answered : perform client q s = some (x, u)) (rest : Runs client (f x) u actions a s') :
    Runs client (.ask q f) s (q :: actions) a s'

theorem Runs.run (h : Runs client p s actions a s') : s.run client p = some (a, s') := by
  induction h with
  | done => rfl
  | ask answered _ ih =>
    rw [Shared.run, Dialogue.runIfAnswered, answered]
    exact ih

theorem Runs.leads (h : Runs client p s actions a s') : p.Leads actions (.done a) := by
  induction h with
  | done => exact .stay
  | ask _ _ ih => exact .ask _ ih

theorem Runs.of_bind {f : α → Program β} (h : Runs client (p.bind f) s actions b s') :
    ∃ us vs a u, actions = us ++ vs ∧ Runs client p s us a u ∧ Runs client (f a) u vs b s' := by
  induction p generalizing s actions with
  | done a => exact ⟨[], actions, a, s, rfl, .done, h⟩
  | ask q g ih =>
    cases h with
    | ask answered h =>
      obtain ⟨us, vs, a, u, rfl, hg, hf⟩ := ih _ h
      exact ⟨q :: us, vs, a, u, rfl, .ask answered hg, hf⟩

theorem isSome_perform (client : Client κ) {q : Action} (s : Shared κ) (begins : q ≠ .beginRefresh)
    (waits : q ≠ .awaitIdle) : (perform client q s).isSome := by
  cases q with
  | beginRefresh => exact absurd rfl begins
  | awaitIdle => exact absurd rfl waits
  | requestRefresh reason | store arguments scope =>
    rw [perform]
    split <;> rfl
  | _ => rfl

theorem exists_answer {role : Role} {st st' : RefreshStage} {q : Action}
    (h : RefreshStage.next role st q = some st') (patient : q ≠ .awaitIdle) (free : s.refreshing = st.isInside) :
    ∃ x u, perform client q s = some (x, u) ∧ u.refreshing = st'.isInside := by
  by_cases begins : q = .beginRefresh
  · subst begins
    rw [RefreshStage.inside_of_beginRefresh h] at free
    refine ⟨(), { s with refreshing := true }, by rw [perform, free]; rfl, ?_⟩
    rw [RefreshStage.next_beginRefresh h]
    rfl
  · obtain ⟨⟨x, u⟩, answered⟩ := Option.isSome_iff_exists.mp (isSome_perform client s begins patient)
    refine ⟨x, u, answered, ?_⟩
    have after := perform_refreshing answered
    by_cases finishes : q = .finishRefresh
    · subst finishes
      rw [after, RefreshStage.outside_of_finishRefresh h]
    · rw [RefreshStage.isInside_next h begins finishes, ← free]
      cases q <;> first | exact after | contradiction

theorem exists_runs_of_keeps {role : Role} {fit : RefreshStage → α → Prop} {st : RefreshStage}
    (keeps : p.Keeps (RefreshStage.next role) fit st) (patient : p.Asks (· ≠ .awaitIdle))
    (free : s.refreshing = st.isInside) :
    ∃ actions a s' st', Runs client p s actions a s' ∧ fit st' a ∧ s'.refreshing = st'.isInside := by
  induction p generalizing s st with
  | done a => exact ⟨[], a, s, st, .done, keeps, free⟩
  | ask q f ih =>
    obtain ⟨st', hnext, hf⟩ := keeps
    obtain ⟨x, u, answered, here⟩ := exists_answer hnext patient.1 free
    obtain ⟨actions, a, s', st'', hrest, hfit, hend⟩ := ih x (hf x) (patient.2 x) here
    exact ⟨q :: actions, a, s', st'', .ask answered hrest, hfit, hend⟩

end Shared

namespace Service

open Dialogue (Asks)

variable {service : Service}

def Patient {α : Type} (p : Program α) : Prop := p.Asks (· ≠ .awaitIdle)

theorem Telling.patient {α : Type} {p : Program α} (h : Telling p) : Patient p := by
  apply h.mono
  rintro _ (looks | notifies) rfl
  · cases looks
  · cases notifies

theorem patient_prepare (service : Service) (uris : List String) : Patient (service.prepare uris) := by
  rw [prepare_eq]
  refine ⟨nofun, fun _ => ?_⟩
  refine Asks.bind (asks_prepareTargets (fun _ _ h => h) (fun _ => nofun) service uris) fun _ => ?_
  refine ⟨nofun, fun _ => ⟨nofun, fun changes => ?_⟩⟩
  exact Asks.bind (telling_tell service changes).patient fun _ => trivial

theorem patient_backgroundRefresh (service : Service) : Patient service.backgroundRefresh := by
  rw [backgroundRefresh_eq]
  refine Asks.bind (asks_recordedRefresh (fun _ _ h => h) (fun _ => nofun) service false) fun _ => ?_
  refine ⟨nofun, fun changes => Asks.bind (telling_tell service changes).patient fun _ => ?_⟩
  exact ⟨nofun, fun _ => ⟨nofun, fun _ => trivial⟩⟩

theorem patient_handle (asks : service.AsksForRefresh) (m : Incoming) {r : Request} (h : r ≠ .wait) :
    Patient (service.handle m r) := by
  by_cases prepares : r = .prepare
  · subst prepares
    refine asks_withParams fun uris => Asks.bind (patient_prepare service uris) fun result => ?_
    cases result <;> trivial
  by_cases shutsDown : r = .shutdown
  · subst shutsDown
    exact asks_finishing (asks_act nofun)
  exact asks_handle (fun _ _ ha => ha) asks m prepares shutsDown fun waits => absurd waits h

theorem patient_respond (asks : service.AsksForRefresh) (m : Incoming) {r : Option Request}
    (h : r ≠ some .wait) : Patient (service.respond r m) := by
  cases hid : m.id with
  | none =>
    rw [respond_anonymous hid]
    trivial
  | some id =>
    cases r with
    | none =>
      rw [respond_unknown hid]
      exact ⟨nofun, fun _ => trivial⟩
    | some r =>
      rw [respond_request hid]
      have patient := patient_handle asks m fun waits => h (congrArg some waits)
      exact Asks.bind patient fun _ => ⟨nofun, fun _ => trivial⟩

end Service

end BuildServer
