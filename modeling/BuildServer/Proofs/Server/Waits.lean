import BuildServer.Proofs.Server.IdleChanges
import BuildServer.Proofs.Server.WatchedFiles

/-!
What a wait waits for. A change of watched files that comes before a wait has a background refresh in
flight, and the wait goes through only when this refresh has recorded, drained, announced what it drained,
and ended. A preparation that has left its update may drain before it, and announce behind the wait.
-/

namespace BuildServer.Server

variable {κ : Type} {client : Client κ} {service : Service} {site : κ} {store : Store}
  {es past after : List Event} {e : Option Event} {s s' u : Server κ} {k : Nat}

/-- The background refresh that is in flight behind `past` is the task `k`: it runs, or none does and it is
the next to begin. -/
inductive InFlight (past after : List Event) (k : Nat) : Prop
  | running (running : Running past k)
  | accepted (x y : List Event) (next : after = x ++ .begun k :: y) (first : ∀ i, .begun i ∉ x)
    (nobody : ∀ i, ¬Running past i)

/-- A preparation that has left its update has drained what a task recorded. -/
def TakenOver (es : List Event) (k : Nat) (c : Changes) : Prop :=
  ∃ before after i m, es = before ++ .did (.task i) .drain :: after ∧ (.task k, c) ∈ undrained before ∧
    WorksOn before i m ∧ m.request? = some .prepare ∧
    (actionsOf (.task i) before).getLast? = some .leaveUpdate

/-- A background refresh has gone to its end: it has drained behind its refresh, and told all that it
drained before it landed and left its update. What it recorded has been drained, by itself or before by a
preparation. -/
structure Ended (service : Service) (es : List Event) (k : Nat) : Prop where
  course : ∃ x y told refreshed sent, es = x ++ .did (.task k) .drain :: y ∧
    (service.recordedRefresh false).Leads (actionsOf (.task k) x) (.done refreshed) ∧
    (service.tell (collected (undrained x)).pending).Leads told (.done sent) ∧
    actionsOf (.task k) y = told ++ [.landRefresh, .leaveUpdate] ∧
    ∀ c, .did (.task k) (.record c) ∈ es → (.task k, c) ∈ undrained x ∨ TakenOver x k c
  drained : ∀ c, (Actor.task k, c) ∉ undrained es

theorem InFlight.begun (h : InFlight past after k) : .begun k ∈ past ++ after := by
  cases h with
  | running running => exact List.mem_append_left _ running.1
  | accepted x y next => simp [next]

theorem accepted_or_begun (run : Run client service s es s') (h : s.shared.accepted ≠ []) :
    s'.shared.accepted ≠ [] ∨ ∃ i, .begun i ∈ es := by
  induction run with
  | start => exact .inl h
  | @move es u v before m hm ih =>
    rcases ih with ih | ⟨i, hi⟩
    · have step := step_of_move hm
      generalize u.event? m = e at step ⊢
      cases step with
      | quiet shared => exact .inl (by rwa [shared])
      | notice _ _ _ _ shared => exact .inl (by rwa [shared])
      | request _ _ _ _ _ _ shared => exact .inl (by rwa [shared])
      | begun i => exact .inr ⟨i, by simp⟩
      | act who role a go answer here answered =>
        left
        rw [Shared.perform_accepted answered]
        cases a with
        | requestRefresh reason =>
          dsimp only
          split
          · exact ih
          · simp
        | _ => exact ih
    · exact .inr ⟨i, List.mem_append_left _ hi⟩

theorem first_begun (h : ∃ i, .begun i ∈ es) :
    ∃ x k y, es = x ++ .begun k :: y ∧ ∀ i, .begun i ∉ x := by
  induction es with
  | nil => simp at h
  | cons e es ih =>
    by_cases he : ∃ k, e = .begun k
    · obtain ⟨k, rfl⟩ := he
      exact ⟨[], k, es, rfl, by simp⟩
    · obtain ⟨i, hi⟩ := h
      have hi : .begun i ∈ es := (List.mem_cons.1 hi).resolve_left fun h => he ⟨i, h.symm⟩
      obtain ⟨x, k, y, rfl, hx⟩ := ih ⟨i, hi⟩
      refine ⟨e :: x, k, y, rfl, fun j hj => ?_⟩
      rcases List.mem_cons.1 hj with rfl | hj
      · exact he ⟨j, rfl⟩
      · exact hx j hj

theorem tells_drained {work : List Action} {go : Changes → Program Unit}
    (recorded : ∀ a ∈ work, a.isPlain = true ∨ a.isRecord = true)
    (leads : service.backgroundRefresh.Leads work (.ask .drain go)) :
    (∃ refreshed, (service.recordedRefresh false).Leads work (.done refreshed)) ∧
      go = fun changes => (service.tell changes).bind fun _ =>
        .ask .landRefresh fun _ => .ask .leaveUpdate .done := by
  rw [Service.backgroundRefresh_eq] at leads
  rcases leads.bind_cases with ⟨p, hp, here⟩ | ⟨us, vs, refreshed, rfl, hus, hvs⟩
  · cases p with
    | done refreshed =>
      cases here
      exact ⟨⟨refreshed, hp⟩, rfl⟩
    | ask a f =>
      cases here
      have building := ((Service.building_recordedRefresh service false).leads hp).2.1
      simp [Action.isPlain, Action.isRecord] at building
  · cases hvs with
    | stay => exact ⟨⟨refreshed, by simpa using hus⟩, rfl⟩
    | ask changes => simpa [Action.isPlain, Action.isRecord] using recorded .drain (by simp)

theorem drained_pending {shared : Shared κ} {drained : Changes}
    (run : Run client service (.initial site store) es s)
    (answered : Shared.perform client .drain s.shared = some (drained, shared)) :
    drained = (collected (undrained es)).pending := by
  obtain ⟨targets, options⟩ := Prod.mk.inj (accumulated run)
  rw [Shared.perform_drain answered, BuildState.pending, targets, options]
  rfl

theorem undrained_or_drained {who : Actor} {c : Changes} (recorded : .did who (.record c) ∈ es) :
    (who, c) ∈ undrained es ∨
      ∃ before after w, es = before ++ .did w .drain :: after ∧ (who, c) ∈ undrained before := by
  induction es using List.reverseRecOn with
  | nil => cases recorded
  | append_singleton es e ih =>
    rcases List.mem_append.1 recorded with earlier | now
    · rcases ih earlier with here | ⟨before, after, w, rfl, here⟩
      · rw [undrained_append]
        rcases e with _ | _ | ⟨w, a⟩
        · exact .inl here
        · exact .inl here
        · cases a with
          | record c' => exact .inl (List.mem_append_left _ here)
          | drain => exact .inr ⟨es, [], w, rfl, here⟩
          | _ => exact .inl here
      · exact .inr ⟨before, after ++ [e], w, by simp, here⟩
    · obtain rfl := List.mem_singleton.1 now
      rw [undrained_append]
      exact .inl (by simp [remains])

theorem recorded_of_undrained {r : Actor × Changes} (h : r ∈ undrained es) :
    .did r.1 (.record r.2) ∈ es := by
  induction es using List.reverseRecOn with
  | nil => cases h
  | append_singleton es e ih =>
    rcases mem_undrained_step (e := some e) h with now | ⟨h, -⟩
    · simp [Option.some.inj now]
    · exact List.mem_append_left _ (ih h)

section

variable (asks : service.AsksForRefresh)

include asks

theorem begun_of_acted {x y : List Event} {a : Action}
    (run : Run client service (.initial site store) (x ++ y) s) (begun : .begun k ∈ x ++ y)
    (acted : .did (.task k) a ∈ x) : .begun k ∈ x := by
  rcases List.mem_append.1 begun with begun | begun
  · exact begun
  · obtain ⟨y₁, y₂, rfl⟩ := List.append_of_mem begun
    rw [← List.append_assoc] at run
    obtain ⟨v, _, hv, step, -⟩ := run.at
    cases step with
    | begun _ _ _ _ fresh =>
      have tracks := Discipline.tracks (RefreshStage.kept_of_asksForRefresh asks) hv
      have nothing := (tracks.unborn k fresh).1
      have some_action := mem_actionsOf.2 (List.mem_append_left y₁ acted)
      rw [nothing] at some_action
      cases some_action

theorem done_of_idle (run : Run client service (.initial site store) es s)
    (zero : s.shared.state.depth = 0) (begun : .begun k ∈ es) :
    s.thread? (.task k) = some (.task .refresh, .done ()) := by
  obtain ⟨idle, -, left⟩ := idle_of_depth asks run zero
  have tracks := Discipline.tracks (UpdateStage.kept asks) run
  cases hk : s.thread? (.task k) with
  | none => exact absurd begun (tracks.unborn k hk).2
  | some thread =>
    obtain ⟨role, p⟩ := thread
    obtain rfl := (tracks.begun k role p hk).2 begun
    obtain ⟨st, hst, keeps⟩ := tracks.staged _ _ _ hk
    have landed : st.isLanded = true := by
      rw [UpdateStage.isLanded_iff hst]
      by_contra going
      exact ((singleFlight asks run).idle idle).2 k ⟨begun, going⟩
    cases st with
    | landed => exact absurd ⟨_, p, hk, hst⟩ (left (.task k))
    | ended =>
      cases p with
      | done u => rfl
      | ask a go =>
        obtain ⟨_, hn, -⟩ := keeps
        cases hn
    | _ => cases landed

theorem exists_inFlight (opening : Run client service (.initial site store) past u)
    (flying : u.shared.state.inFlight = true) (run : Run client service u after s)
    (idle : s.shared.accepted = []) : ∃ k, InFlight past after k := by
  rcases (singleFlight asks opening).busy flying with ⟨⟨reason, accepted⟩, nobody⟩ | ⟨-, k, running, -⟩
  · have later := (accepted_or_begun run (by simp [accepted])).resolve_left fun h => h idle
    obtain ⟨x, k, y, next, first⟩ := first_begun later
    exact ⟨k, .accepted x y next first nobody⟩
  · exact ⟨k, .running running⟩

theorem undrained_or_takenOver {x y : List Event} {c : Changes}
    (run : Run client service (.initial site store) (x ++ y) s) (begun : .begun k ∈ x ++ y)
    (undrained_yet : .did (.task k) .drain ∉ x) (going : .did (.task k) .landRefresh ∉ x)
    (recorded : .did (.task k) (.record c) ∈ x) : (.task k, c) ∈ undrained x ∨ TakenOver x k c := by
  rcases undrained_or_drained recorded with here | ⟨before, after, w, rfl, here⟩
  · exact .inl here
  · right
    rw [List.append_assoc] at run begun
    have running : Running before k :=
      ⟨begun_of_acted asks run begun (recorded_of_undrained here), fun h => going (by simp [h])⟩
    obtain ⟨v, _, hv, step, -⟩ := run.at
    have tracks := Discipline.tracks (UpdateStage.kept asks) hv
    cases step with
    | act _ role _ _ _ acts =>
      obtain ⟨st, hst, st', hn, -⟩ := tracks.staged w role _ acts
      by_cases left : st = .left
      · subst left
        obtain ⟨i, m, _, rfl, works, prepares, last, -⟩ := leaving_of_left asks hv ⟨role, _, acts, hst⟩
        exact ⟨before, after, i, m, rfl, here, works, prepares, last⟩
      · -- Whoever drains elsewhere is a background refresh that has not landed, and so it is this one.
        exfalso
        obtain ⟨rfl, notLanded⟩ := UpdateStage.next_drain (UpdateStage.suits_of_stage hst) hn left
        cases w with
        | reader => cases acts
        | task j =>
          have drains : Running before j := by
            refine ⟨(tracks.begun j _ _ acts).1 rfl, fun landed => ?_⟩
            rw [(UpdateStage.isLanded_iff hst).2 landed] at notLanded
            cases notLanded
          obtain rfl := (singleFlight asks hv).alone drains running
          exact undrained_yet (by simp)

theorem ended_of_idle (run : Run client service (.initial site store) es s)
    (zero : s.shared.state.depth = 0) (begun : .begun k ∈ es) : Ended service es k where
  drained c hc := by
    obtain ⟨i, m, go, -, -, -, -, here⟩ := leaving_of_idle asks run zero hc
    have tracks := Discipline.tracks (RefreshStage.kept_of_asksForRefresh asks) run
    cases (tracks.begun k _ _ here).2 begun
  course := by
    have hk := done_of_idle asks run zero begun
    -- The actions of the whole program show where the drain is, and the run from there on shows that
    -- what is told is what was drained.
    have leads := (origins run).refresh hk
    rw [Service.backgroundRefresh_eq] at leads
    obtain ⟨work, rest, _, hactions, hwork, hrest⟩ := leads.of_bind
    have building := ((Service.building_recordedRefresh service false).leads hwork).1
    cases hrest with
    | ask _ hrest =>
      obtain ⟨x, y, rfl, rfl, rfl⟩ := split_actionsOf hactions
      obtain ⟨v, v', hv, step, -, hy⟩ := run.at
      cases step with
      | act _ role _ go drained here answered threads =>
        obtain ⟨d, hd, told⟩ := hy.leads (by rw [threads, Function.update_self])
        rw [hk] at hd
        obtain ⟨rfl, rfl⟩ := Prod.mk.inj (Option.some.inj hd)
        obtain ⟨⟨refreshed, hrefresh⟩, rfl⟩ := tells_drained building ((origins hv).refresh here)
        obtain ⟨told, last, sent, hy, htold, hlast⟩ := told.of_bind
        have telling := ((Service.telling_tell service drained).leads htold).1
        rw [drained_pending hv answered] at htold
        obtain rfl : last = [.landRefresh, .leaveUpdate] :=
          (Dialogue.Leads.of_two (a := Action.landRefresh) (b := Action.leaveUpdate) (c := ()) hlast).2 _ rfl
        refine ⟨x, y, told, refreshed, sent, rfl, hrefresh, htold, hy, fun c hc => ?_⟩
        have fresh (a : Action) (plain : a.isPlain = false) (records : a.isRecord = false) :
            .did (.task k) a ∉ x := fun ha => by
          simpa [plain, records] using building a (mem_actionsOf.2 ha)
        apply undrained_or_takenOver asks run begun (fresh .drain rfl rfl) (fresh .landRefresh rfl rfl)
        -- Behind its drain it only tells.
        rcases List.mem_append.1 hc with hc | hc
        · exact hc
        · have later : .record c ∈ told ++ [.landRefresh, .leaveUpdate] := by
            rw [← hy]
            exact mem_actionsOf.2 (List.mem_of_ne_of_mem (by simp) hc)
          rcases List.mem_append.1 later with h | h
          · simpa [Action.isLook, Action.isNotification] using telling _ h
          · simp at h

theorem covered_of_idle {who : Actor} {reason : String}
    (opening : Run client service (.initial site store) past u)
    (step : Step client service s (some (.did who (.requestRefresh reason))) u)
    (run : Run client service u after s') (zero : s'.shared.state.depth = 0) :
    (∃ k, InFlight past after k) ∧ ∀ k, InFlight past after k → Ended service (past ++ after) k := by
  have whole := opening.trans run
  have flying : u.shared.state.inFlight = true := by
    cases step with
    | act _ _ _ _ _ _ answered => exact Shared.perform_inFlight answered
  have nothing := ((singleFlight asks whole).idle (idle_of_depth asks whole zero).1).1
  exact ⟨exists_inFlight asks opening flying run nothing, fun k h =>
    ended_of_idle asks whole zero h.begun⟩

end

theorem worksOn_taken {w : Incoming} {r : Request} (known : w.request? = some r) (later : List Event) :
    WorksOn (es ++ .taken w :: later) (purposes es).length w := by
  have started : started? (.taken w) = some (some w) := by
    unfold Incoming.request? at known
    split at known
    · rename_i method
      simp [started?, Incoming.isNotice, method]
    · cases known
  have hpurposes : purposes (es ++ .taken w :: later) = purposes es ++ some w :: purposes later := by
    rw [purposes_append, purposes, purposes, List.filterMap_cons, started]
    rfl
  rw [WorksOn, hpurposes, List.getElem?_append_right (Nat.le_refl _), Nat.sub_self]
  rfl

theorem wait_goes_through {later rest : List Event} {j : Nat} {w : Incoming} {a : Action}
    (run : Run client service (.initial site store) (es ++ .taken w :: later ++ .did (.task j) a :: rest) s)
    (hj : j = (purposes es).length) (waits : w.request? = some .wait)
    (answers : a.answers?.isSome = true) :
    (∃ v, Run client service (.initial site store) es v ∧ v.handling.result?.isSome = true) ∧
      ∃ x₁ x₂ t, later = x₁ ++ .did (.task j) .awaitIdle :: x₂ ∧
        Run client service (.initial site store) (es ++ .taken w :: x₁) t ∧
        t.shared.state.depth = 0 := by
  subst hj
  have waited := awaited run (worksOn_taken waits later) waits answers
  rw [List.append_assoc, List.cons_append] at run
  obtain ⟨v, _, hv, taken, -⟩ := run.at
  have reader := taken.idle
  simp only [thread?, Option.some.injEq, Prod.mk.injEq, true_and] at reader
  refine ⟨⟨v, hv, by rw [reader]; rfl⟩, ?_⟩
  -- A task does nothing before its message is taken.
  rw [actionsOf_append, (origins hv).unborn _ (Nat.le_refl _), List.nil_append] at waited
  have asked : actionsOf (.task (purposes es).length) later = [] ++ .awaitIdle :: [] := waited
  obtain ⟨x₁, x₂, rfl, -⟩ := split_actionsOf asked
  rw [List.append_assoc, List.cons_append, ← List.cons_append, ← List.append_assoc] at run
  obtain ⟨t, ht, zero⟩ := idle_of_awaited run
  exact ⟨x₁, x₂, t, rfl, ht, zero⟩

def refreshAsked : Event := .did .reader (.requestRefresh "didChangeWatchedFiles")

/-- A wait is answered behind the end of the background refresh that a relevant change before it has
started or found in flight. -/
theorem wait_covers_refresh (asks : service.AsksForRefresh) {m w : Incoming} {a : Action} {j : Nat}
    {mid later rest : List Event} (relevant : m.isRelevantChange = true) (waits : w.request? = some .wait)
    (run : Run client service (.initial site store)
      (past ++ .taken m :: mid ++ .taken w :: later ++ .did (.task j) a :: rest) s)
    (hj : j = (purposes (past ++ .taken m :: mid)).length) (answers : a.answers?.isSome = true) :
    ∃ during after x₁ x₂, mid = during ++ refreshAsked :: after ∧
      later = x₁ ++ .did (.task j) .awaitIdle :: x₂ ∧
      (∃ k, InFlight (past ++ .taken m :: during ++ [refreshAsked]) (after ++ .taken w :: x₁) k) ∧
      ∀ k, InFlight (past ++ .taken m :: during ++ [refreshAsked]) (after ++ .taken w :: x₁) k →
        Ended service (past ++ .taken m :: mid ++ .taken w :: x₁) k := by
  obtain ⟨⟨v, hv, idle⟩, x₁, x₂, t, rfl, ht, zero⟩ := wait_goes_through run hj waits answers
  obtain ⟨_, -, hchange⟩ := hv.split
  obtain ⟨during, after, rfl, -, -⟩ := change_handled asks relevant hchange (.inl idle)
  have requests : Run client service (.initial site store)
      (past ++ .taken m :: during ++ refreshAsked :: (after ++ .taken w :: x₁)) t := by
    simpa [refreshAsked] using ht
  obtain ⟨_, _, -, requested, opening, hrest⟩ := requests.at
  have covered := covered_of_idle asks opening requested hrest zero
  exact ⟨during, after, x₁, x₂, rfl, rfl, by simpa [refreshAsked] using covered⟩

section

def heeded (client : Client κ) (service : Service) (s : Server κ) : Server κ :=
  (play client service [.goOn, .goOn] (told s)).2

theorem run_heeded (s : Server κ) :
    Run client service (told s) [.did .reader .invalidate, refreshAsked] (heeded client service s) := by
  have events : (play client service [.goOn, .goOn] (told s)).1 =
      [.did .reader .invalidate, refreshAsked] := by
    cases h : s.shared.state.acceptRefresh? <;>
      simp [play, move, told, event?, refreshAsked, Dialogue.step, Dialogue.question?, Shared.perform, h]
  rw [← events]
  exact run_play [.goOn, .goOn] (told s)

def changed : List Event × Server Unit :=
  play emptyProject emptyService [.goOn, .goOn] (told (.initial () (.memory .empty)))

theorem run_changed : Run emptyProject emptyService (.initial () (.memory .empty))
    ([.taken someChange] ++ changed.1) changed.2 := by
  have change : Run emptyProject emptyService (.initial () (.memory .empty)) [.taken someChange] _ :=
    run_told (fun _ => rfl) rfl rfl rfl
  exact change.trans (run_play _ _)

def waited : List Event × Server Unit :=
  play emptyProject emptyService (.beginRefresh :: List.replicate 8 (.step 1) ++ [.step 0, .step 0])
    (dispatch emptyService waitRequest { changed.2 with inbox := [] })

theorem feed_waitRequest :
    Incoming.feed .empty (Frame.wrap waitRequest.body) = ([waitRequest], .empty) := by decide +kernel

theorem change_covered : ∃ k x₁ x₂, waited.1 = x₁ ++ .did (.task 0) .awaitIdle :: x₂ ∧
    Ended emptyService (.taken someChange :: changed.1 ++ .taken waitRequest :: x₁) k := by
  have wait : Run emptyProject emptyService changed.2 [.taken waitRequest] _ :=
    run_taken feed_waitRequest (by decide +kernel) (by decide +kernel) (by decide +kernel)
  have rest : Run emptyProject emptyService _ waited.1 waited.2 := run_play _ _
  have answered : (actionsOf (.task 0) waited.1).any (·.answers?.isSome) = true := by decide +kernel
  obtain ⟨a, ha, answers⟩ := List.any_eq_true.1 answered
  obtain ⟨later, last, hlater⟩ := List.append_of_mem (mem_actionsOf.1 ha)
  have run : Run emptyProject emptyService (.initial () (.memory .empty)) ([] ++ .taken someChange ::
      changed.1 ++ .taken waitRequest :: later ++ .did (.task 0) a :: last) waited.2 := by
    simpa [hlater] using (run_changed.trans wait).trans rest
  obtain ⟨_, _, x₁, x₂, -, hx, ⟨k, flying⟩, ended⟩ := wait_covers_refresh (fun _ => rfl)
    someChange_relevant (by decide +kernel) run (by decide +kernel) answers
  exact ⟨k, x₁, x₂ ++ .did (.task 0) a :: last, by rw [hlater, hx]; simp, ended k flying⟩

end

/-- Whenever a wait is answered, the targets are announced that have been recorded as changed by the
background refresh that a change before the wait has started or found in flight. -/
def AnnouncedWhenAnswered (client : Client κ) (service : Service) (site : κ) (store : Store) : Prop :=
  ∀ past during after later rest m w j k a s, m.isRelevantChange = true → w.request? = some .wait →
    Run client service (.initial site store) (past ++ .taken m :: during ++ refreshAsked :: after ++
      .taken w :: later ++ .did (.task j) a :: rest) s →
    j = (purposes (past ++ .taken m :: during ++ refreshAsked :: after)).length →
    a.answers?.isSome = true →
    InFlight (past ++ .taken m :: during ++ [refreshAsked]) (after ++ .taken w :: later) k →
    ∀ x y c, after ++ .taken w :: later = x ++ .did (.task k) (.record c) :: y → c.targets ≠ [] →
      ∃ who targets, .did who (.send (.notification "buildTarget/didChange"
        (some (Results.targetsChanged targets)))) ∈ y ∧ c.targets ⊆ targets

section

def isBegun : Event → Bool
  | .begun _ => true
  | _ => false

def isSending : Event → Bool
  | .did _ (.send _) => true
  | _ => false

def begins (i : Nat) : Event → Bool
  | .begun j => j == i
  | _ => false

def changesTargets : Action → Bool
  | .record c => !c.targets.isEmpty
  | _ => false

def oneScheme : Service := { emptyService with active := ["App"] }

def prepared : List Event × Server Unit :=
  play emptyProject oneScheme (List.replicate 11 (.step 0))
    (dispatch oneScheme prepareRequest { Server.initial () (.memory .empty) with inbox := [] })

def takingOver : List Event × Server Unit :=
  play emptyProject oneScheme (.beginRefresh :: List.replicate 7 (.step 1) ++ [.step 0])
    (heeded emptyProject oneScheme prepared.2)

def answeredEarly : List Event × Server Unit :=
  play emptyProject oneScheme (List.replicate 3 (.step 1) ++ List.replicate 2 (.step 2))
    (dispatch oneScheme waitRequest { takingOver.2 with inbox := [] })

theorem feed_prepareRequest :
    Incoming.feed .empty (Frame.wrap prepareRequest.body) = ([prepareRequest], .empty) := by
  decide +kernel

theorem run_answeredEarly : Run emptyProject oneScheme (.initial () (.memory .empty))
    (.taken prepareRequest :: prepared.1 ++ .taken someChange :: [.did .reader .invalidate] ++
      refreshAsked :: takingOver.1 ++ .taken waitRequest :: answeredEarly.1) answeredEarly.2 := by
  have prepare : Run emptyProject oneScheme (.initial () (.memory .empty)) [.taken prepareRequest] _ :=
    run_taken feed_prepareRequest rfl rfl rfl
  have preparing : Run emptyProject oneScheme _ prepared.1 prepared.2 := run_play _ _
  have change : Run emptyProject oneScheme prepared.2 [.taken someChange] _ :=
    run_told (fun _ => rfl) (by decide +kernel) (by decide +kernel) (by decide +kernel)
  have handling : Run emptyProject oneScheme _ [.did .reader .invalidate, refreshAsked] _ :=
    run_heeded prepared.2
  have taking : Run emptyProject oneScheme _ takingOver.1 takingOver.2 := run_play _ _
  have wait : Run emptyProject oneScheme takingOver.2 [.taken waitRequest] _ :=
    run_taken feed_waitRequest (by decide +kernel) (by decide +kernel) (by decide +kernel)
  have answering : Run emptyProject oneScheme _ answeredEarly.1 answeredEarly.2 := run_play _ _
  have whole := (((((prepare.trans preparing).trans change).trans handling).trans taking).trans wait).trans
    answering
  simp only [List.append_assoc, List.cons_append, List.nil_append] at whole ⊢
  exact whole

theorem takingOver_refreshes : (∀ i, ¬Running (.taken prepareRequest :: prepared.1 ++
      .taken someChange :: [.did .reader .invalidate] ++ [refreshAsked]) i) ∧
    (∃ rest, takingOver.1 = .begun 1 :: rest) ∧
    ∃ x y c, takingOver.1 = x ++ .did (.task 1) (.record c) :: y ∧ c.targets ≠ [] := by
  refine ⟨fun i running => ?_, ?_, ?_⟩
  · have nobody : prepared.1.any isBegun = false := by decide +kernel
    have begun : .begun i ∈ prepared.1 := by
      have begun := running.1
      simp only [refreshAsked, List.mem_append, List.mem_cons, List.not_mem_nil, reduceCtorEq] at begun
      simpa only [or_false, false_or] using begun
    exact List.any_eq_false.1 nobody _ begun rfl
  · have first : takingOver.1.head?.any (begins 1) = true := by decide +kernel
    cases h : takingOver.1 with
    | nil => simp [h] at first
    | cons e rest =>
      rw [h] at first
      cases e with
      | begun j =>
        obtain rfl : j = 1 := by simpa [begins] using first
        exact ⟨rest, rfl⟩
      | _ => cases first
  · have records : (actionsOf (.task 1) takingOver.1).any changesTargets = true := by decide +kernel
    obtain ⟨a, ha, changes⟩ := List.any_eq_true.1 records
    cases a with
    | record c =>
      obtain ⟨x, y, h⟩ := List.append_of_mem (mem_actionsOf.1 ha)
      exact ⟨x, y, c, h, by simpa [changesTargets] using changes⟩
    | _ => cases changes

theorem change_not_announced : ¬AnnouncedWhenAnswered emptyProject oneScheme () (.memory .empty) := by
  intro announced
  have answered : (actionsOf (.task 2) answeredEarly.1).any (·.answers?.isSome) = true := by
    decide +kernel
  obtain ⟨a, ha, answers⟩ := List.any_eq_true.1 answered
  obtain ⟨later, last, hlater⟩ := List.append_of_mem (mem_actionsOf.1 ha)
  -- The answer is all that is sent.
  have answer : isSending (.did (.task 2) a) = true := by
    cases a with
    | send m => rfl
    | _ => cases answers
  have once : answeredEarly.1.countP isSending = 1 := by decide +kernel
  rw [hlater, List.countP_append, List.countP_cons, if_pos answer] at once
  have silent : later.countP isSending = 0 := by omega
  have before : takingOver.1.countP isSending = 0 := by decide +kernel
  obtain ⟨nobody, ⟨rest, first⟩, x, y, c, recorded, changes⟩ := takingOver_refreshes
  have run := run_answeredEarly
  rw [hlater, ← List.cons_append, ← List.append_assoc] at run
  have flying : InFlight (.taken prepareRequest :: prepared.1 ++
      .taken someChange :: [.did .reader .invalidate] ++ [refreshAsked])
      (takingOver.1 ++ .taken waitRequest :: later) 1 :=
    .accepted [] (rest ++ .taken waitRequest :: later) (by rw [first]; rfl) (by simp) nobody
  obtain ⟨who, targets, sent, -⟩ := announced _ _ _ _ _ _ _ _ _ _ _ someChange_relevant
    (by decide +kernel) run (by decide +kernel) answers flying x (y ++ .taken waitRequest :: later) c
    (by rw [recorded]; simp) changes
  rcases List.mem_append.1 sent with sent | sent
  · have sending := List.mem_append_right x (List.mem_cons_of_mem (.did (.task 1) (.record c)) sent)
    rw [← recorded] at sending
    exact List.countP_eq_zero.1 before _ sending rfl
  · exact List.countP_eq_zero.1 silent _ (List.mem_of_ne_of_mem (by simp) sent) rfl

end

end BuildServer.Server
