import BuildServer.Server.Shared

namespace BuildServer.Shared

variable {κ : Type} {client : Client κ} {a : Action} {answer : a.Answer} {s s' : Shared κ}

theorem perform_beginRefresh {answer : Unit} (h : perform client .beginRefresh s = some (answer, s')) :
    s.refreshing = false := by
  simp only [perform] at h
  split at h
  · cases h
  · exact Bool.eq_false_iff.2 ‹_›

theorem perform_refreshing (h : perform client a s = some (answer, s')) :
    s'.refreshing = match a with
      | .beginRefresh => true
      | .finishRefresh => false
      | _ => s.refreshing := by
  cases a <;> simp only [perform, onState] at h <;> (try split at h) <;> cases h <;> rfl

theorem perform_snapshot (h : perform client a s = some (answer, s')) :
    s'.snapshot = match a with
      | .replaceSnapshot new => some new
      | .invalidate => none
      | _ => s.snapshot := by
  cases a <;> simp only [perform, onState] at h <;> (try split at h) <;> cases h <;> rfl

theorem register_eq (s : BuildState) (r : Params.Registration) :
    ∃ registered anonymous,
      s.register r = { s with registered := registered, anonymous := anonymous } := by
  unfold BuildState.register
  split
  · exact ⟨s.registered.erase _, s.anonymous, rfl⟩
  · exact ⟨s.registered, s.anonymous - 1, rfl⟩
  · exact ⟨s.registered.add _, s.anonymous, rfl⟩
  · exact ⟨s.registered, s.anonymous + 1, rfl⟩

theorem perform_requestRefresh {reason : String} {answer : Unit}
    (h : perform client (.requestRefresh reason) s = some (answer, s')) :
    s.state.inFlight = true ∧ s' = s ∨
      s.state.inFlight = false ∧ s' = { s with
        state := { s.state.enterUpdate with inFlight := true }
        accepted := s.accepted ++ [reason] } := by
  simp only [perform, BuildState.acceptRefresh?] at h
  by_cases hf : s.state.inFlight = true
  · rw [if_pos hf] at h
    cases h
    exact .inl ⟨hf, rfl⟩
  · rw [if_neg hf] at h
    cases h
    exact .inr ⟨Bool.eq_false_iff.2 hf, rfl⟩

theorem perform_inFlight (h : perform client a s = some (answer, s')) :
    s'.state.inFlight = match a with
      | .requestRefresh _ => true
      | .landRefresh => false
      | _ => s.state.inFlight := by
  cases a with
  | register r =>
    cases h
    obtain ⟨_, _, hr⟩ := register_eq s.state r
    change (s.state.register r).inFlight = s.state.inFlight
    rw [hr]
  | requestRefresh reason =>
    rcases perform_requestRefresh h with ⟨hf, rfl⟩ | ⟨-, rfl⟩
    · exact hf
    · rfl
  | _ => simp only [perform, onState] at h <;> (try split at h) <;> cases h <;> rfl

theorem perform_depth (h : perform client a s = some (answer, s')) :
    s'.state.depth = match a with
      | .enterUpdate => s.state.depth + 1
      | .leaveUpdate => s.state.depth - 1
      | .requestRefresh _ => if s.state.inFlight then s.state.depth else s.state.depth + 1
      | _ => s.state.depth := by
  cases a with
  | register r =>
    cases h
    obtain ⟨_, _, hr⟩ := register_eq s.state r
    change (s.state.register r).depth = s.state.depth
    rw [hr]
  | requestRefresh reason =>
    rcases perform_requestRefresh h with ⟨hf, rfl⟩ | ⟨hf, rfl⟩ <;> simp [hf, BuildState.enterUpdate]
  | _ => simp only [perform, onState] at h <;> (try split at h) <;> cases h <;> rfl

theorem perform_pending (h : perform client a s = some (answer, s')) :
    (s'.state.targets, s'.state.options) = match a with
      | .record c => ((s.state.record c).targets, (s.state.record c).options)
      | .drain => (.empty, .empty)
      | _ => (s.state.targets, s.state.options) := by
  cases a with
  | register r =>
    cases h
    obtain ⟨_, _, hr⟩ := register_eq s.state r
    change ((s.state.register r).targets, (s.state.register r).options) = _
    rw [hr]
  | requestRefresh reason => rcases perform_requestRefresh h with ⟨-, rfl⟩ | ⟨-, rfl⟩ <;> rfl
  | _ => simp only [perform, onState] at h <;> (try split at h) <;> cases h <;> rfl

theorem perform_registered (h : perform client a s = some (answer, s')) :
    s'.state.registered = match a with
      | .register r => (s.state.register r).registered
      | _ => s.state.registered := by
  cases a with
  | requestRefresh reason => rcases perform_requestRefresh h with ⟨-, rfl⟩ | ⟨-, rfl⟩ <;> rfl
  | _ => simp only [perform, onState] at h <;> (try split at h) <;> cases h <;> rfl

theorem perform_drain {answer : Changes} (h : perform client .drain s = some (answer, s')) :
    answer = s.state.pending := by
  cases h
  rfl

theorem perform_awaitIdle {answer : Unit} (h : perform client .awaitIdle s = some (answer, s')) :
    s.state.depth = 0 := by
  simp only [perform, Option.ite_none_right_eq_some, BuildState.isIdle, beq_iff_eq] at h
  exact h.1

theorem perform_accepted (h : perform client a s = some (answer, s')) :
    s'.accepted = match a with
      | .requestRefresh reason => if s.state.inFlight then s.accepted else s.accepted ++ [reason]
      | _ => s.accepted := by
  cases a with
  | requestRefresh reason =>
    rcases perform_requestRefresh h with ⟨hf, rfl⟩ | ⟨hf, rfl⟩ <;> simp [hf]
  | _ => simp only [perform, onState] at h <;> (try split at h) <;> cases h <;> rfl

theorem perform_site (h : perform client a s = some (answer, s')) :
    s'.site = match a with
      | .probe p => (client.probe p s.site).2
      | _ => s.site := by
  cases a <;> simp only [perform, onState] at h <;> (try split at h) <;> cases h <;> rfl

theorem perform_store (h : perform client a s = some (answer, s')) :
    s'.store = match a with
      | .store arguments scope => (s.store.update arguments scope).toOption.getD s.store
      | _ => s.store := by
  cases a with
  | store arguments scope =>
    change s'.store = (s.store.update arguments scope).toOption.getD s.store
    simp only [perform] at h
    split at h
    · rename_i updated
      cases h
      rw [updated]
      rfl
    · rename_i refused
      cases h
      rw [refused]
      rfl
  | _ => simp only [perform, onState] at h <;> (try split at h) <;> cases h <;> rfl

theorem perform_fetch {path scope : String} {answer : Except StoreError (List String)}
    (h : perform client (.fetch path scope) s = some (answer, s')) : answer = s.store.fetch path scope := by
  cases h
  rfl

theorem perform_writer (h : perform client a s = some (answer, s')) :
    s'.writer = match a with
      | .send m => (s.writer.send m).2
      | _ => s.writer := by
  cases a <;> simp only [perform, onState] at h <;> (try split at h) <;> cases h <;> rfl

theorem perform_send {m : Outgoing} {answer : Except WriteError Unit}
    (h : perform client (.send m) s = some (answer, s')) : s' = { s with writer := s'.writer } := by
  cases h
  rfl

theorem perform_shutdown (h : perform client a s = some (answer, s')) :
    s'.state.shutdown = match a with
      | .markShutdown => true
      | _ => s.state.shutdown := by
  cases a with
  | register r =>
    cases h
    obtain ⟨_, _, hr⟩ := register_eq s.state r
    change (s.state.register r).shutdown = s.state.shutdown
    rw [hr]
  | requestRefresh reason => rcases perform_requestRefresh h with ⟨-, rfl⟩ | ⟨-, rfl⟩ <;> rfl
  | _ => simp only [perform, onState] at h <;> (try split at h) <;> cases h <;> rfl

theorem perform_exit (h : perform client a s = some (answer, s')) :
    s'.exit = match a with
      | .exit => s.exit.or (some s.state.exitCode)
      | _ => s.exit := by
  cases a <;> simp only [perform, onState] at h <;> (try split at h) <;> cases h <;> rfl

end BuildServer.Shared
