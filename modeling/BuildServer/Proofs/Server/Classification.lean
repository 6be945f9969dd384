import BuildServer.Proofs.Server.Answers
import BuildServer.Proofs.Server.Rest

namespace BuildServer

theorem Incoming.isNotice_iff (m : Incoming) : m.isNotice = true ↔ m.method ∈ Notice.all.map Notice.name := by
  constructor
  · intro h
    rw [isNotice] at h
    split at h
    · next n known =>
      have hname := List.find?_some known
      rw [← beq_iff_eq.mp hname]
      cases n <;> decide
    · cases h
  · intro h
    obtain ⟨n, -, hname⟩ := List.mem_map.mp h
    rw [isNotice, ← hname]
    cases n <;> rfl

theorem Service.Answers.answers_iff {service : Service} {m : Incoming} {actions : List Action}
    (h : service.Answers m actions) :
    (∃ id, m.id = some id ∧ ∃ a ∈ actions, a.answers? = some id) ↔ m.isNotification = false := by
  rw [Incoming.isNotification, Option.isNone_eq_false_iff, Option.isSome_iff_exists]
  constructor
  · rintro ⟨id, hid, -⟩
    exact ⟨id, hid⟩
  · rintro ⟨id, hid⟩
    have hmem : id ∈ actions.filterMap Action.answers? := by
      rw [h.ids, hid]
      exact List.mem_singleton_self id
    exact ⟨id, hid, List.mem_filterMap.mp hmem⟩

namespace Server

variable {κ : Type} {client : Client κ} {service : Service} {site : κ} {store : Store}
  {es fs : List Event} {s s' : Server κ} {i : Nat} {m : Incoming}

def answered (s : Server κ) : List RequestId := s.shared.writer.written.filterMap Outgoing.answers?

def requestIds (es : List Event) : List RequestId :=
  ((messages es).filter fun m => !m.isNotice).filterMap Incoming.id

theorem requestIds_append (silent : messages fs = []) : requestIds (es ++ fs) = requestIds es := by
  rw [requestIds, messages_append, silent, List.append_nil]
  rfl

theorem worksOn_of_append (silent : messages fs = []) (h : WorksOn (es ++ fs) i m) : WorksOn es i m := by
  rw [WorksOn, purposes_append] at h
  rcases Nat.lt_or_ge i (purposes es).length with hi | hi
  · rwa [List.getElem?_append_left hi] at h
  · rw [List.getElem?_append_right hi] at h
    have hm : m ∈ (purposes fs).filterMap id := List.mem_filterMap.mpr ⟨_, List.mem_of_getElem? h, rfl⟩
    rw [purposes_messages, silent] at hm
    cases hm

theorem answered_append (run : Run client service (.initial site store) es s)
    (run' : Run client service (.initial site store) (es ++ fs) s') : (answered s).Sublist (answered s') := by
  rw [answered, answered, written run, written run', List.filterMap_append, List.filterMap_append]
  exact List.sublist_append_left _ _

/-- When the tasks have come to rest, exactly the requests are answered; before, no more than these. They can
always come to rest. -/
theorem answers_are_to_requests (asks : service.AsksForRefresh)
    (run : Run client service (.initial site store) es s) :
    (∀ m : Incoming, m.isNotice = true ↔ m.method ∈ Notice.all.map Notice.name) ∧
    (purposes es).filterMap id = (messages es).filter (fun m => !m.isNotice) ∧
    (answered s).Subperm (requestIds es) ∧
    (∀ who a id, .did who a ∈ es → a.answers? = some id →
      ∃ i m, who = .task i ∧ WorksOn es i m ∧ m.id = some id) ∧
    (AtRest client service s → (answered s).Perm (requestIds es) ∧
      ∀ i m, WorksOn es i m → service.Answers m (actionsOf (.task i) es) ∧
        ((∃ id, m.id = some id ∧ ∃ a ∈ actionsOf (.task i) es, a.answers? = some id) ↔
          m.isNotification = false)) ∧
    ∃ fs s', TaskRun client service s fs s' ∧ messages fs = [] ∧ AtRest client service s' := by
  obtain ⟨fs, s', moves, rest⟩ := exists_rest asks run
  have silent := moves.messages
  have run' := run.trans moves.run
  have done := ((atRest_iff asks run').mp rest).2
  refine ⟨Incoming.isNotice_iff, purposes_messages es, ?_, ?_, ?_, fs, s', moves, silent, rest⟩
  · have all := perm_answered_ids asks run' fun t ht _ => done t ht
    rw [← requestIds, requestIds_append silent] at all
    exact (answered_append run run').subperm.trans all.subperm
  · intro who a id ha hid
    obtain ⟨i, m, hwho, works, hm⟩ :=
      answered_message asks run' (fun t ht _ => done t ht) (List.mem_append_left fs ha) hid
    exact ⟨i, m, hwho, worksOn_of_append silent works, hm⟩
  · intro here
    have done := ((atRest_iff asks run).mp here).2
    refine ⟨perm_answered_ids asks run fun t ht _ => done t ht, fun i m works => ?_⟩
    have answers := task_answers asks run (fun t ht _ => done t ht) works
    exact ⟨answers, answers.answers_iff⟩

section

def numberedNotice : Incoming :=
  { method := "build/initialized", id := some (.int 1)
    body := Utf8.encode "\x7b\"id\":1,\"method\":\"build/initialized\"\x7d" }

def bothTaken : List Event × Server Unit :=
  play emptyProject emptyService
    [.receive (Frame.wrap numberedNotice.body ++ Frame.wrap strangeRequest.body), .handle, .handle]
    (.initial () (.memory .empty))

theorem run_bothTaken : Run emptyProject emptyService (.initial () (.memory .empty)) bothTaken.1 bothTaken.2 :=
  run_play _ _

theorem strange_request_answered : ∃ fs s', TaskRun emptyProject emptyService bothTaken.2 fs s' ∧
    AtRest emptyProject emptyService s' ∧ (answered s').Perm [.int 7] := by
  have asks : emptyService.AsksForRefresh := fun _ => rfl
  obtain ⟨-, -, -, -, -, fs, s', moves, silent, rest⟩ := answers_are_to_requests asks run_bothTaken
  obtain ⟨-, -, -, -, complete, -⟩ := answers_are_to_requests asks (run_bothTaken.trans moves.run)
  have all := (complete rest).1
  have ids : requestIds bothTaken.1 = [.int 7] := by decide +kernel
  rw [requestIds_append silent, ids] at all
  exact ⟨fs, s', moves, rest, all⟩

def AnswersAllIdentifiers (client : Client κ) (service : Service) (site : κ) (store : Store) : Prop :=
  ∀ es s, Run client service (.initial site store) es s → AtRest client service s →
    (answered s).Perm ((messages es).filterMap Incoming.id)

theorem numbered_notice_not_answered :
    ¬AnswersAllIdentifiers emptyProject emptyService () (.memory .empty) := by
  intro h
  let taken := play emptyProject emptyService [.receive (Frame.wrap numberedNotice.body), .handle]
    (.initial () (.memory .empty))
  have run : Run emptyProject emptyService (.initial () (.memory .empty)) taken.1 taken.2 := run_play _ _
  have nobody : taken.2.tasks.isEmpty = true := by decide +kernel
  have nothing : taken.2.shared.accepted = [] := by decide +kernel
  have rest : AtRest emptyProject emptyService taken.2 := by
    refine (atRest_iff (fun _ => rfl) run).mpr ⟨nothing, fun t ht => ?_⟩
    rw [List.isEmpty_iff.mp nobody] at ht
    cases ht
  have ids : (messages taken.1).filterMap Incoming.id = [.int 1] := by decide +kernel
  have none : answered taken.2 = [] := by decide +kernel
  have all := h _ _ run rest
  rw [ids, none] at all
  exact absurd all.length_eq (by decide)

end

end Server

end BuildServer
