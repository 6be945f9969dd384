import BuildServer.Launch
import BuildServer.Proofs.Server.Run

namespace BuildServer

namespace Server

variable {κ : Type} {client : Client κ} {service : Service} {s : Server κ} {i : Nat} {kind : TaskKind}
  {p p' : Program Unit} {shared : Shared κ}

theorem run_advance {among : Action → Bool} (here : s.tasks[i]? = some ⟨kind, p⟩)
    (h : p.advance (Shared.perform client) among s.shared = (p', shared)) :
    ∃ es, Run client service s es { s with tasks := s.tasks.set i ⟨kind, p'⟩, shared := shared } := by
  induction p generalizing s with
  | done a =>
    obtain ⟨rfl, rfl⟩ := Prod.mk.inj h
    rw [set_same here]
    exact ⟨[], .start⟩
  | ask a next ih =>
    have stays (h : (.ask a next, s.shared) = (p', shared)) :
        ∃ es, Run client service s es { s with tasks := s.tasks.set i ⟨kind, p'⟩, shared := shared } := by
      obtain ⟨rfl, rfl⟩ := Prod.mk.inj h
      rw [set_same here]
      exact ⟨[], .start⟩
    rw [Dialogue.advance] at h
    split at h
    · cases answered : Shared.perform client a s.shared with
      | none =>
        rw [answered] at h
        exact stays h
      | some answer =>
        rw [answered] at h
        let went : Server κ := { s with tasks := s.tasks.set i ⟨kind, next answer.1⟩, shared := answer.2 }
        have moved : s.move client service (.step i) = some went := move_step here answered
        have hi := (List.getElem?_eq_some_iff.mp here).1
        obtain ⟨es, rest⟩ := ih answer.1 (s := went) (List.getElem?_set_self hi) h
        rw [List.set_set] at rest
        exact ⟨_, (Run.start.move _ moved).trans rest⟩
    · exact stays h

theorem run_giveTurn (i : Nat) (s : Server κ) : ∃ es, Run client service s es (giveTurn client i s) := by
  rw [giveTurn]
  split
  · exact ⟨[], .start⟩
  · rename_i t here
    have hi := (List.getElem?_eq_some_iff.mp here).1
    let begun := t.program.advance (Shared.perform client) isWork s.shared
    let worked : Server κ := { s with tasks := s.tasks.set i ⟨t.kind, begun.1⟩, shared := begun.2 }
    let rest := begun.1.advance (Shared.perform client) (!·.isSlow) begun.2
    obtain ⟨es, first⟩ : ∃ es, Run client service s es worked := run_advance here rfl
    obtain ⟨fs, second⟩ : ∃ fs, Run client service worked fs
        { worked with tasks := worked.tasks.set i ⟨t.kind, rest.1⟩, shared := rest.2 } :=
      run_advance (List.getElem?_set_self hi) rfl
    rw [List.set_set] at second
    exact ⟨_, first.trans second⟩

theorem run_tryMove (m : Move) (s : Server κ) :
    ∃ es, Run client service s es (s.tryMove client service m) := by
  rw [tryMove]
  cases h : s.move client service m with
  | none => exact ⟨[], .start⟩
  | some s' => exact ⟨_, Run.start.move m h⟩

theorem run_takeTurns {give : Nat → Server κ → Server κ}
    (gives : ∀ i s, ∃ es, Run client service s es (give i s)) (ended : Server κ → Bool) (fuel : Nat)
    (queue : List Nat) (s : Server κ) :
    ∃ es, Run client service s es (takeTurns client service give ended fuel queue s) := by
  induction fuel generalizing queue s with
  | zero => exact ⟨[], .start⟩
  | succ fuel ih =>
    rw [takeTurns]
    split
    · rename_i s' found
      obtain ⟨m, -, moved⟩ := List.exists_of_findSome?_eq_some found
      obtain ⟨es, rest⟩ := ih (queue ++ List.range' s.tasks.length (s'.tasks.length - s.tasks.length)) s'
      exact ⟨_, (Run.start.move m moved).trans rest⟩
    · split
      · rename_i i _
        obtain ⟨es, turn⟩ := gives i s
        obtain ⟨fs, rest⟩ := ih (queue.erase i ++ [i]) (give i s)
        exact ⟨_, turn.trans rest⟩
      · exact run_tryMove .finish s

theorem run_settle (fuel : Nat) (s : Server κ) :
    ∃ es, Run client service s es (s.settle client service fuel) :=
  run_takeTurns run_giveTurn _ fuel _ s

theorem run_respondTo (fuel : Nat) (m : Move) (s : Server κ) :
    ∃ es, Run client service s es (s.respondTo client service fuel m) := by
  obtain ⟨es, moved⟩ : ∃ es, Run client service s es _ := run_tryMove m s
  obtain ⟨fs, settled⟩ := run_settle fuel (s.tryMove client service m)
  exact ⟨_, moved.trans settled⟩

theorem run_attendTo (fuel : Nat) (m : Move) (s : Server κ) :
    ∃ es, Run client service s es (s.attendTo client service fuel m) := by
  obtain ⟨es, moved⟩ : ∃ es, Run client service s es _ := run_tryMove m s
  obtain ⟨fs, attended⟩ := run_takeTurns (fun i => run_tryMove (.step i))
    (fun s => s.requestsDone || s.outcome.isSome) fuel
    (List.range (s.tryMove client service m).tasks.length) (s.tryMove client service m)
  exact ⟨_, moved.trans attended⟩

end Server

theorem Launched.run_move (l : Launched) (fuel : Nat) (m : Move) :
    ∃ es, Server.Run l.builder.client l.service l.server es (l.move fuel m).server :=
  Server.run_attendTo fuel m l.server

theorem Launched.run_rest (l : Launched) (fuel : Nat) :
    ∃ es, Server.Run l.builder.client l.service l.server es (l.rest fuel).server :=
  Server.run_settle fuel l.server

end BuildServer
