import BuildServer.Proofs.Graph.Consistency
import BuildServer.Proofs.Server.Provenance
import BuildServer.Proofs.Server.Session
import BuildServer.Proofs.Server.Updates

/-!
Changes when no update is in progress. Those that have not been drained are from preparations that have
left their update and drain next, for the announcement of a preparation comes behind its update.
-/

namespace BuildServer

namespace UpdateStage

def isHolding : UpdateStage → Bool
  | .inside => true
  | .left => true
  | .recorded => true
  | _ => false

variable {role : Role} {st st' : UpdateStage} {a : Action} {c : Changes}

theorem holding_of_record (h : next role st (.record c) = some st') : st'.isHolding = true := by
  cases passes_of_next h with
  | build | refresh => rfl
  | stay _ _ _ quiet => cases quiet

theorem drains_or_holding (h : next role st a = some st') (hs : st.isHolding = true) :
    a = .drain ∨ st'.isHolding = true := by
  cases passes_of_next h with
  | tell | drain => exact .inl rfl
  | build | leave => exact .inr rfl
  | stay => exact .inr hs
  | _ => cases hs

theorem next_of_left (h : next role .left a = some st') : a = .drain := by
  cases passes_of_next h with
  | tell => rfl
  | stay _ _ free => cases free

theorem next_left (h : next role st a = some .left) : a = .leaveUpdate := by
  cases passes_of_next h with
  | leave => rfl
  | stay _ _ free => cases free

end UpdateStage

theorem Service.awaits_first {s : Service} {w : Incoming} {actions : List Action} {a : Action}
    {go : a.Answer → Program Unit} (leads : (s.respond (some .wait) w).Leads actions (.ask a go))
    (answers : a.answers?.isSome = true) : actions = [.awaitIdle] := by
  cases hid : w.id with
  | none =>
    rw [respond_anonymous hid] at leads
    cases leads
  | some id =>
    rw [respond_wait hid] at leads
    cases leads with
    | stay => cases answers
    | ask _ rest =>
      cases rest with
      | stay => rfl
      | ask _ rest => cases rest

namespace Server

open UpdateStage (discipline)

variable {κ : Type} {client : Client κ} {service : Service} {site : κ} {store : Store}
  {es : List Event} {e : Option Event} {s s' : Server κ} {who : Actor}

def remains (recorded : List (Actor × Changes)) : Event → List (Actor × Changes)
  | .did who (.record c) => recorded ++ [(who, c)]
  | .did _ .drain => []
  | _ => recorded

/-- The changes that have been recorded and not drained, and who recorded them. -/
def undrained (es : List Event) : List (Actor × Changes) := es.foldl remains []

def collected (recorded : List (Actor × Changes)) : BuildState :=
  recorded.foldl (fun s r => s.record r.2) .initial

theorem undrained_append (es : List Event) (e : Event) :
    undrained (es ++ [e]) = remains (undrained es) e := by
  simp [undrained]

theorem collected_append (recorded : List (Actor × Changes)) (r : Actor × Changes) :
    collected (recorded ++ [r]) = (collected recorded).record r.2 := by
  simp [collected]

theorem accumulated (run : Run client service (.initial site store) es s) :
    (s.shared.state.targets, s.shared.state.options) =
      ((collected (undrained es)).targets, (collected (undrained es)).options) := by
  induction run with
  | start => rfl
  | @move es u v before m hm ih =>
    have step := step_of_move hm
    generalize u.event? m = e at step ⊢
    rcases step.effect with ⟨other, accepted, shared⟩ | ⟨who, _, a, _, answer, rfl, -, answered⟩
    · have same : undrained (es ++ e.toList) = undrained es := by
        rcases e with _ | (_ | _ | ⟨who, a⟩)
        · rw [Option.toList, List.append_nil]
        · rw [Option.toList, undrained_append, remains]
          rintro _ _ ⟨⟩
          rintro _ ⟨⟩
        · rw [Option.toList, undrained_append, remains]
          rintro _ _ ⟨⟩
          rintro _ ⟨⟩
        · exact absurd rfl (other who a)
      rw [same, shared]
      exact ih
    · rw [Shared.perform_pending answered, Option.toList, undrained_append]
      obtain ⟨targets, options⟩ := Prod.mk.inj ih
      cases a with
      | record c =>
        rw [remains, collected_append]
        simp [BuildState.record, targets, options]
      | drain => rfl
      | _ => exact ih

theorem mem_undrained_step {r : Actor × Changes} (h : r ∈ undrained (es ++ e.toList)) :
    e = some (.did r.1 (.record r.2)) ∨ r ∈ undrained es ∧ ∀ w, e ≠ some (.did w .drain) := by
  rcases e with _ | (_ | _ | ⟨who, a⟩)
  · exact .inr ⟨by simpa using h, by simp⟩
  · rw [Option.toList, undrained_append] at h
    exact .inr ⟨h, by simp⟩
  · rw [Option.toList, undrained_append] at h
    exact .inr ⟨h, by simp⟩
  · rw [Option.toList, undrained_append] at h
    cases a with
    | record c =>
      rcases List.mem_append.1 h with h | h
      · exact .inr ⟨h, by simp⟩
      · rw [List.mem_singleton.1 h]
        exact .inl rfl
    | drain => cases h
    | _ => exact .inr ⟨h, by simp⟩

theorem holding (asks : service.AsksForRefresh)
    (run : Run client service (.initial site store) es s) {r : Actor × Changes}
    (hr : r ∈ undrained es) : ∃ st, discipline.At es s r.1 st ∧ st.isHolding = true := by
  have kept := UpdateStage.kept asks
  induction run with
  | start => cases hr
  | move before m hm ih =>
    have step := step_of_move hm
    have tracks := Discipline.tracks kept before
    have after := tracks.step kept step
    rcases mem_undrained_step hr with he | ⟨hr, hd⟩
    · rw [he] at step after ⊢
      obtain ⟨role, st, _, h, -⟩ := tracks.acted step
      rcases h.step step after with ⟨-, hn⟩ | ⟨a, st', role, he, hn, h⟩
      · exact absurd rfl (hn _)
      · obtain rfl : .record r.2 = a := by simpa using he
        exact ⟨st', h, UpdateStage.holding_of_record hn⟩
    · obtain ⟨st, h, hs⟩ := ih hr
      rcases h.step step after with ⟨h, -⟩ | ⟨a, st', role, he, hn, h⟩
      · exact ⟨st, h, hs⟩
      · rcases UpdateStage.drains_or_holding hn hs with rfl | hs'
        · exact absurd he (hd r.1)
        · exact ⟨st', h, hs'⟩

/-- An actor prepares targets, has just left its update and is about to drain. -/
def Leaving (es : List Event) (s : Server κ) (who : Actor) : Prop :=
  ∃ i m go, who = .task i ∧ WorksOn es i m ∧ m.request? = some .prepare ∧
    (actionsOf who es).getLast? = some .leaveUpdate ∧
    s.thread? who = some (.task .request, .ask .drain go)

theorem leaving_of_left (asks : service.AsksForRefresh)
    (run : Run client service (.initial site store) es s) (h : discipline.At es s who .left) :
    Leaving es s who := by
  obtain ⟨role, p, hp, hst⟩ := h
  obtain rfl : role = .task .request := UpdateStage.suits_of_stage hst
  obtain ⟨before, a, st₀, hactions, hn⟩ := Discipline.last_action hst (by rintro ⟨⟩)
  obtain rfl := UpdateStage.next_left hn
  cases who with
  | reader => cases hp
  | task i =>
    obtain ⟨m, works⟩ := (origins run).request hp
    obtain ⟨d, hd, leads⟩ := (origins run).course i _ works
    rw [hp] at hd
    obtain ⟨-, rfl⟩ := Prod.mk.inj (Option.some.inj hd)
    have prepares : m.request? = some .prepare := by
      by_contra hm
      apply (((Service.updates_nothing asks hm).leads leads).1 .leaveUpdate _).2 rfl
      simp [hactions]
    have keeps := (Discipline.tracks (UpdateStage.kept asks) run).keeps hp hst
    cases p with
    | done u => cases keeps
    | ask a go =>
      obtain ⟨st', hn, -⟩ := keeps
      obtain rfl := UpdateStage.next_of_left hn
      exact ⟨i, m, go, rfl, works, prepares, by simp [hactions], hp⟩

theorem leaving_of_idle (asks : service.AsksForRefresh)
    (run : Run client service (.initial site store) es s) (zero : s.shared.state.depth = 0)
    {r : Actor × Changes} (hr : r ∈ undrained es) : Leaving es s r.1 := by
  -- At depth zero nobody is in an update or in flight, which leaves one stage to hold a change.
  obtain ⟨idle, outside, -⟩ := idle_of_depth asks run zero
  obtain ⟨st, h, hs⟩ := holding asks run hr
  cases st with
  | inside => exact absurd h (outside r.1)
  | left => exact leaving_of_left asks run h
  | recorded =>
    obtain ⟨role, p, hp, hst⟩ := h
    obtain rfl : role = .task .refresh := UpdateStage.suits_of_stage hst
    rcases r with ⟨_ | i, c⟩
    · cases hp
    · have begun := ((Discipline.tracks (UpdateStage.kept asks) run).begun i _ p hp).1 rfl
      have going : .did (.task i) .landRefresh ∉ es := by
        rw [← UpdateStage.isLanded_iff hst]
        nofun
      exact absurd ⟨begun, going⟩ (((singleFlight asks run).idle idle).2 i)
  | _ => cases hs

theorem awaited {x y : List Event} {j : Nat} {w : Incoming} {a : Action}
    (run : Run client service (.initial site store) (x ++ .did (.task j) a :: y) s)
    (works : WorksOn x j w) (waits : w.request? = some .wait) (answers : a.answers?.isSome = true) :
    actionsOf (.task j) x = [.awaitIdle] := by
  obtain ⟨u, v, hu, step, -⟩ := run.at
  obtain ⟨d, hd, leads⟩ := (origins hu).course j _ works
  cases step with
  | act _ _ _ go _ here =>
    rw [here] at hd
    obtain ⟨-, rfl⟩ := Prod.mk.inj (Option.some.inj hd)
    rw [Purpose.program, waits] at leads
    exact Service.awaits_first leads answers

theorem idle_of_awaited {x y : List Event}
    (run : Run client service (.initial site store) (x ++ .did who .awaitIdle :: y) s) :
    ∃ u, Run client service (.initial site store) x u ∧ u.shared.state.depth = 0 := by
  obtain ⟨u, v, hu, step, -⟩ := run.at
  cases step with
  | act _ _ _ _ _ _ answered => exact ⟨u, hu, Shared.perform_awaitIdle answered⟩

/-- What waits to be announced when no update is in progress was recorded by preparations that drain next.
So a wait leaves nothing to be drained but what such preparations hold when it finds the depth at zero. -/
theorem idle_changes_leaving (asks : service.AsksForRefresh)
    (run : Run client service (.initial site store) es s) :
    (s.shared.state.targets, s.shared.state.options) =
      ((collected (undrained es)).targets, (collected (undrained es)).options) ∧
    (s.shared.state.depth = 0 → (∀ r ∈ undrained es, Leaving es s r.1) ∧
      ((∀ who, ¬Leaving es s who) →
        s.shared.state.targets = .empty ∧ s.shared.state.options = .empty)) ∧
    ∀ x y j w a, es = x ++ .did (.task j) a :: y → WorksOn x j w → w.request? = some .wait →
      a.answers?.isSome = true → ∃ x₁ x₂ u, x = x₁ ++ .did (.task j) .awaitIdle :: x₂ ∧
        Run client service (.initial site store) x₁ u ∧ ∀ r ∈ undrained x₁, Leaving x₁ u r.1 := by
  refine ⟨accumulated run, fun zero => ⟨fun r => leaving_of_idle asks run zero, fun hnone => ?_⟩, ?_⟩
  · have nothing : undrained es = [] := by
      apply List.eq_nil_iff_forall_not_mem.2
      intro r hr
      exact hnone r.1 (leaving_of_idle asks run zero hr)
    have kept := accumulated run
    rw [nothing] at kept
    exact Prod.mk.inj kept
  · rintro x y j w a rfl works waits answers
    have asked : actionsOf (.task j) x = [] ++ .awaitIdle :: [] := awaited run works waits answers
    obtain ⟨x₁, x₂, rfl, -⟩ := split_actionsOf asked
    rw [List.append_assoc, List.cons_append] at run
    obtain ⟨u, hu, zero⟩ := idle_of_awaited run
    exact ⟨x₁, x₂, u, rfl, hu, fun r => leaving_of_idle asks hu zero⟩

def DrainedWhenIdle (client : Client κ) (service : Service) (site : κ) (store : Store) : Prop :=
  ∀ es s, Run client service (.initial site store) es s → s.shared.state.depth = 0 →
    s.shared.state.targets = .empty ∧ s.shared.state.options = .empty

/-- Whenever a wait is answered, what was recorded while it waited has been drained. -/
def DrainedWhenAnswered (client : Client κ) (service : Service) (site : κ) (store : Store) : Prop :=
  ∀ x y z s j w, Run client service (.initial site store) (x ++ y ++ z) s →
    WorksOn x j w → w.request? = some .wait → .did (.task j) .awaitIdle ∉ x ++ y →
    (∃ who c, .did who (.record c) ∈ y) →
    (∃ a, a.answers?.isSome = true ∧ .did (.task j) a ∈ z) → ∃ who, .did who .drain ∈ y ++ z

section

def prepareRequest : Incoming :=
  { method := "buildTarget/prepare", id := some (.int 1)
    body := Utf8.encode ("\x7b\"id\":1,\"method\":\"buildTarget/prepare\"," ++
      "\"params\":\x7b\"targets\":[]\x7d\x7d") }

def waitRequest : Incoming :=
  { method := "workspace/waitForBuildSystemUpdates", id := some (.int 2)
    body := Utf8.encode "\x7b\"id\":2,\"method\":\"workspace/waitForBuildSystemUpdates\"\x7d" }

def bothAsked : Server Unit :=
  { Server.initial () (.memory .empty) with inbox := [prepareRequest, waitRequest] }

theorem feed_bothAsked :
    Incoming.feed .empty (Frame.wrap prepareRequest.body ++ Frame.wrap waitRequest.body) =
      ([prepareRequest, waitRequest], .empty) := by
  decide +kernel

theorem run_bothAsked : Run appClient appService (.initial () (.memory .empty)) [] bothAsked := by
  have received : (Server.initial () (.memory .empty)).move appClient appService
      (.receive (Frame.wrap prepareRequest.body ++ Frame.wrap waitRequest.body)) = some bothAsked := by
    have reading : (Server.initial () (.memory .empty) : Server Unit).isReading = true := rfl
    have feed : Incoming.feed (Server.initial () (.memory .empty) : Server Unit).decoder
        (Frame.wrap prepareRequest.body ++ Frame.wrap waitRequest.body) =
          ([prepareRequest, waitRequest], .empty) := feed_bothAsked
    simp only [move, reading, feed, bothAsked]
    simp [Server.initial]
  exact Run.start.move _ received

def waiting : List Event × Server Unit :=
  play appClient appService [.handle, .step 0, .handle] bothAsked

def leaving : List Event × Server Unit :=
  play appClient appService (List.replicate 10 (.step 0)) waiting.2

def answering : List Event × Server Unit :=
  play appClient appService [.step 1, .step 1] leaving.2

def isAwaitIdle : Event → Bool
  | .did _ .awaitIdle => true
  | _ => false

def isDrain : Event → Bool
  | .did _ .drain => true
  | _ => false

theorem run_leaving :
    Run appClient appService (.initial () (.memory .empty)) (waiting.1 ++ leaving.1) leaving.2 := by
  have first : Run appClient appService bothAsked waiting.1 waiting.2 := run_play _ _
  have second : Run appClient appService waiting.2 leaving.1 leaving.2 := run_play _ _
  rw [← List.nil_append (waiting.1 ++ leaving.1)]
  exact run_bothAsked.trans (first.trans second)

theorem leaving_with_changes : leaving.2.shared.state.depth = 0 ∧
    leaving.2.shared.state.options ≠ .empty ∧ (undrained (waiting.1 ++ leaving.1)).isEmpty = false := by
  decide +kernel

theorem answered_undrained : purposes waiting.1 = [some prepareRequest, some waitRequest] ∧
    waitRequest.request? = some .wait ∧ (waiting.1 ++ leaving.1).any isAwaitIdle = false ∧
    (actionsOf (.task 0) leaving.1).any Action.isRecord = true ∧
    (actionsOf (.task 1) answering.1).any (·.answers?.isSome) = true ∧
    (leaving.1 ++ answering.1).any isDrain = false := by
  decide +kernel

theorem changes_left_when_idle :
    ¬DrainedWhenIdle appClient appService () (.memory .empty) ∧
      ¬DrainedWhenAnswered appClient appService () (.memory .empty) := by
  constructor
  · intro h
    obtain ⟨zero, left, -⟩ := leaving_with_changes
    exact left (h _ _ run_leaving zero).2
  · intro h
    obtain ⟨started, waits, unanswered, recorded, answered, undrained⟩ := answered_undrained
    have works : WorksOn waiting.1 1 waitRequest := by
      rw [WorksOn, started]
      rfl
    have idle : .did (.task 1) .awaitIdle ∉ waiting.1 ++ leaving.1 := fun hmem =>
      List.any_eq_false.1 unanswered _ hmem rfl
    have records : ∃ who c, .did who (.record c) ∈ leaving.1 := by
      obtain ⟨b, hb, hrecord⟩ := List.any_eq_true.1 recorded
      cases b with
      | record c => exact ⟨_, c, mem_actionsOf.1 hb⟩
      | _ => cases hrecord
    obtain ⟨a, ha, answers⟩ := List.any_eq_true.1 answered
    have rest : Run appClient appService leaving.2 answering.1 answering.2 := run_play _ _
    obtain ⟨who, hd⟩ := h _ _ _ _ 1 _ (run_leaving.trans rest) works waits idle records
      ⟨a, answers, mem_actionsOf.1 ha⟩
    exact List.any_eq_false.1 undrained _ hd rfl

theorem left_changes_leaving :
    leaving.2.shared.state.depth = 0 ∧ ∃ who, Leaving (waiting.1 ++ leaving.1) leaving.2 who := by
  obtain ⟨zero, -, held⟩ := leaving_with_changes
  obtain ⟨-, idle, -⟩ := idle_changes_leaving (fun _ => rfl) run_leaving
  cases h : undrained (waiting.1 ++ leaving.1) with
  | nil => simp [h] at held
  | cons r rest => exact ⟨zero, r.1, (idle zero).1 r (by simp [h])⟩

end

end Server

end BuildServer
