import BuildServer.Proofs.Server.Accounts
import BuildServer.Proofs.Server.Uninterrupted

namespace BuildServer

def Move.isOfTasks : Move → Bool
  | .beginRefresh => true
  | .step _ => true
  | _ => false

namespace Shared

variable {κ α : Type} {client : Client κ} {p : Program α} {s s' : Shared κ} {actions : List Action}

def Waits (p : Program α) : Prop := p.Asks fun a => a = .awaitIdle ∨ ∃ m, a = .send m

theorem exists_runs_of_waits (waits : Waits p) (idle : s.state.depth = 0) :
    ∃ actions a s', Runs client p s actions a s' := by
  induction p generalizing s with
  | done a => exact ⟨[], a, s, .done⟩
  | ask q f ih =>
    have hidle : s.state.isIdle = true := beq_iff_eq.mpr idle
    rcases waits with ⟨rfl | ⟨m, rfl⟩, rest⟩
    · obtain ⟨actions, a, s', hrest⟩ := ih () (rest ()) idle
      exact ⟨_, a, s', .ask (by rw [perform, if_pos hidle]) hrest⟩
    · let sent : Shared κ := { s with writer := (s.writer.send m).2 }
      obtain ⟨actions, a, s', hrest⟩ := ih (s.writer.send m).1 (rest _) (s := sent) idle
      exact ⟨_, a, s', .ask rfl hrest⟩

end Shared

namespace Service

open Shared (Runs Waits)

variable {κ : Type} {client : Client κ} {service : Service} {s s' : Shared κ} {actions : List Action}

theorem waits_respond (service : Service) (m : Incoming) : Waits (service.respond (some .wait) m) := by
  cases hid : m.id with
  | none =>
    rw [respond_anonymous hid]
    trivial
  | some id =>
    rw [respond_wait hid]
    exact ⟨.inl rfl, fun _ => ⟨.inr ⟨_, rfl⟩, fun _ => trivial⟩⟩

theorem inFlight_of_backgroundRefresh (h : Runs client service.backgroundRefresh s actions () s') :
    s'.state.inFlight = false := by
  obtain ⟨_, _, _, _, rfl, -, h⟩ := h.of_bind
  obtain ⟨_, _, _, _, rfl, -, h⟩ := h.of_bind
  cases h with
  | ask landed h =>
    cases h with
    | ask left h =>
      cases h
      rw [Shared.perform_inFlight left]
      exact Shared.perform_inFlight landed

theorem apart_notice (asks : service.AsksForRefresh) (m : Incoming) (n : Notice) :
    (service.notice m n).Asks (RefreshStage.concerns · = false) := by
  cases n with
  | initialized => trivial
  | exit => exact asks_act rfl
  | filesChanged =>
    dsimp only [notice]
    split
    · trivial
    · unfold filesChanged
      split
      · refine Dialogue.Asks.bind (asks_act rfl) fun _ => ?_
        rw [asks]
        exact asks_act rfl
      · trivial

end Service

namespace RefreshStage

theorem stage_of_apart {role : Role} {actions : List Action} {renewed : Bool} {st : RefreshStage}
    (apart : ∀ a ∈ actions, concerns a = false)
    (h : actions.foldlM (next role) (.outside renewed) = some st) : st = .outside renewed := by
  induction actions with
  | nil => exact (Option.some.inj h).symm
  | cons a actions ih =>
    obtain ⟨ha, hrest⟩ := List.forall_mem_cons.mp apart
    rw [List.foldlM_cons, next_aside ha] at h
    exact ih hrest h

end RefreshStage

namespace Server

open RefreshStage (discipline)
open Shared (Runs Waits)

variable {κ : Type} {client : Client κ} {service : Service} {site : κ} {store : Store}
  {es fs : List Event} {s s' : Server κ} {i : Nat} {kind : TaskKind} {p : Program Unit} {t t' : Shared κ}

inductive TaskRun (client : Client κ) (service : Service) (s : Server κ) : List Event → Server κ → Prop
  | start : TaskRun client service s [] s
  | move {es s' s''} (before : TaskRun client service s es s') (m : Move) (own : m.isOfTasks = true)
    (h : s'.move client service m = some s'') : TaskRun client service s (es ++ (s'.event? m).toList) s''

theorem TaskRun.run (h : TaskRun client service s es s') : Run client service s es s' := by
  induction h with
  | start => exact .start
  | move _ m _ hm ih => exact ih.move m hm

theorem TaskRun.trans {s'' : Server κ} (h : TaskRun client service s es s')
    (h' : TaskRun client service s' fs s'') : TaskRun client service s (es ++ fs) s'' := by
  induction h' with
  | start => rwa [List.append_nil]
  | move _ m own hm ih => exact List.append_assoc .. ▸ ih.move m own hm

theorem TaskRun.messages (h : TaskRun client service s es s') : messages es = [] := by
  induction h with
  | start => rfl
  | @move es u v _ m own _ ih =>
    have silent : Server.messages (u.event? m).toList = [] := by
      cases m with
      | beginRefresh => rfl
      | step i =>
        rw [event?]
        cases u.tasks[i]?.bind (·.program.question?) <;> rfl
      | _ => cases own
    rw [messages_append, ih, silent]
    rfl

def AtRest (client : Client κ) (service : Service) (s : Server κ) : Prop :=
  ∀ m, m.isOfTasks = true → s.move client service m = none

theorem TaskRun.eq_of_rest (h : TaskRun client service s es s') (rest : AtRest client service s) : s' = s := by
  induction h with
  | start => rfl
  | move _ m own hm ih =>
    rw [ih, rest m own] at hm
    cases hm

theorem exists_taskRun (h : Runs client p t actions () t') (shared : s.shared = t)
    (here : s.tasks[i]? = some ⟨kind, p⟩) :
    ∃ es, TaskRun client service s es { s with tasks := s.tasks.set i ⟨kind, .done ()⟩, shared := t' } := by
  generalize hd : () = d at h
  induction h generalizing s with
  | done =>
    subst shared hd
    rw [set_same here]
    exact ⟨[], .start⟩
  | @ask q f x u v w actions d answered _ ih =>
    subst shared
    let next : Server κ := { s with tasks := s.tasks.set i ⟨kind, f x⟩, shared := v }
    have hm : s.move client service (.step i) = some next := move_step here answered
    have hi := (List.getElem?_eq_some_iff.mp here).1
    obtain ⟨es, rest⟩ := ih (s := next) rfl (List.getElem?_set_self hi) hd
    rw [List.set_set] at rest
    exact ⟨_, (TaskRun.start.move _ rfl hm).trans rest⟩

def remaining (s : Server κ) : Nat :=
  2 * s.tasks.countP (fun t => !t.isDone) + s.shared.accepted.length

theorem countP_set_done (here : s.tasks[i]? = some ⟨kind, p⟩) (undone : p.result? = none) :
    (s.tasks.set i ⟨kind, .done ()⟩).countP (fun t => !t.isDone) + 1 =
      s.tasks.countP fun t => !t.isDone := by
  obtain ⟨hi, hget⟩ := List.getElem?_eq_some_iff.mp here
  have mine : (!s.tasks[i].isDone) = true := by rw [hget, Task.isDone, undone]; rfl
  have some : 0 < s.tasks.countP fun t => !t.isDone :=
    List.countP_pos_iff.mpr ⟨_, List.getElem_mem hi, mine⟩
  rw [List.countP_set hi, if_pos mine, if_neg (by simp [Task.isDone, Dialogue.result?])]
  omega

theorem done_of_settled (settled : ¬∃ t ∈ s.tasks, t.isDone = false) :
    ∀ t ∈ s.tasks, t.program = .done () := by
  intro t ht
  cases hp : t.program with
  | done u => rfl
  | ask a go => exact absurd ⟨t, ht, by rw [Task.isDone, hp]; rfl⟩ settled

section

variable (asks : service.AsksForRefresh) (run : Run client service (.initial site store) es s)

include asks run

theorem accepted_le : s.shared.accepted.length ≤ 1 := by
  have flight := singleFlight asks run
  cases busy : s.shared.state.inFlight with
  | false => simp [(flight.idle busy).1]
  | true => rcases flight.busy busy with ⟨⟨reason, accepted⟩, -⟩ | ⟨accepted, -⟩ <;> simp [accepted]

theorem exists_less_of_runs (here : s.tasks[i]? = some ⟨kind, p⟩) (undone : p.result? = none)
    (h : Runs client p s.shared actions () t') :
    ∃ fs s', TaskRun client service s fs s' ∧ s'.remaining < s.remaining := by
  obtain ⟨fs, moves⟩ : ∃ fs, TaskRun client service s fs _ := exists_taskRun h rfl here
  have few := accepted_le asks (run.trans moves.run)
  have fewer := countP_set_done here undone
  refine ⟨fs, _, moves, ?_⟩
  rw [remaining, remaining]
  dsimp only at few ⊢
  omega

theorem exists_inside (busy : s.shared.refreshing = true) :
    ∃ who st, At es s who st ∧ st.isInside = true := by
  have kept := RefreshStage.kept_of_asksForRefresh asks
  induction run with
  | start => cases busy
  | @move es u v before m hm ih =>
    have step := step_of_move hm
    have tracks := Discipline.tracks kept before
    have after := tracks.step kept step
    generalize u.event? m = e at step after ⊢
    have goesOn {who : Actor} : e ≠ some (.did who .finishRefresh) := by
      rintro rfl
      cases step with
      | act _ _ _ _ _ _ answered =>
        rw [Shared.perform_refreshing answered] at busy
        cases busy
    rcases refreshing_step tracks step with same | ⟨⟨who, rfl⟩, -⟩ | ⟨who, -, finished, -⟩
    · obtain ⟨who, st, here, inside⟩ := ih (same ▸ busy)
      rcases Discipline.At.step here step after with ⟨still, -⟩ | ⟨a, st', role, rfl, hnext, now⟩
      · exact ⟨who, st, still, inside⟩
      · rcases RefreshStage.inside_or_finished hnext inside with rfl | inside'
        · exact absurd rfl goesOn
        · exact ⟨who, st', now, inside'⟩
    · obtain ⟨role, st, st', here, hnext⟩ := tracks.acted step
      rcases Discipline.At.step here step after with ⟨-, others⟩ | ⟨a, st'', role', he, hnext', now⟩
      · exact absurd rfl (others _)
      · obtain ⟨-, rfl⟩ := Event.did.inj (Option.some.inj he)
        exact ⟨who, st'', now, by rw [RefreshStage.next_beginRefresh hnext']; rfl⟩
    · exact absurd finished goesOn

theorem waits_or_patient (here : s.tasks[i]? = some ⟨kind, p⟩) :
    (∃ m, WorksOn es i m ∧ m.request? = some .wait) ∧ Waits p ∧
        (∀ a ∈ actionsOf (.task i) es, RefreshStage.concerns a = false) ∨
      Service.Patient p := by
  obtain ⟨purpose, hpurpose, -, leads⟩ := (origins run).purpose (i := i) (by rw [thread?, here]; rfl)
  cases purpose with
  | none => exact .inr ((Service.patient_backgroundRefresh service).leads leads).2
  | some m =>
    by_cases wait : m.request? = some .wait
    · change (service.respond m.request? m).Leads _ _ at leads
      rw [wait] at leads
      obtain ⟨taken, ahead⟩ := (Service.waits_respond service m).leads leads
      refine .inl ⟨⟨m, hpurpose, wait⟩, ahead, fun a ha => ?_⟩
      rcases taken a ha with rfl | ⟨out, rfl⟩ <;> rfl
    · exact .inr ((Service.patient_respond asks m wait).leads leads).2

theorem task_of_inside {who : Actor} {st : RefreshStage} (here : At es s who st)
    (inside : st.isInside = true) :
    ∃ (i : Nat) (kind : TaskKind) (p : Program Unit), s.tasks[i]? = some ⟨kind, p⟩ ∧ Service.Patient p ∧
      discipline.Keeps (.task kind) p st := by
  obtain ⟨role, p, hp, hst⟩ := here
  have keeps := (Discipline.tracks (RefreshStage.kept_of_asksForRefresh asks) run).keeps hp hst
  have notApart : ¬∀ a ∈ actionsOf who es, RefreshStage.concerns a = false := by
    intro apart
    obtain rfl := RefreshStage.stage_of_apart apart hst
    cases inside
  cases who with
  | reader =>
    have restrained : Restrained service (fun _ => True)
        fun role a => role = .reader → RefreshStage.concerns a = false :=
      { notice := fun m n _ _ => (Service.apart_notice asks m n).mono fun _ h _ => h
        request := fun _ _ => Dialogue.asks_of_forall _ fun _ => nofun
        refresh := Dialogue.asks_of_forall _ fun _ => nofun }
    refine absurd (fun a ha => ?_) notApart
    obtain ⟨role', p', hp', apart⟩ :=
      (restrains restrained run fun _ _ => trivial).behind .reader a (mem_actionsOf.mp ha)
    cases hp'
    exact apart rfl
  | task i =>
    rw [thread?, Option.map_eq_some_iff] at hp
    obtain ⟨⟨kind, p'⟩, ht, he⟩ := hp
    obtain ⟨rfl, rfl⟩ := Prod.mk.inj he
    rcases waits_or_patient asks run ht with ⟨-, -, apart⟩ | patient
    · exact absurd apart notApart
    · exact ⟨i, kind, p', ht, patient, keeps⟩

theorem exists_less_of_refreshing (busy : s.shared.refreshing = true) :
    ∃ fs s', TaskRun client service s fs s' ∧ s'.remaining < s.remaining := by
  obtain ⟨who, st, here, inside⟩ := exists_inside asks run busy
  obtain ⟨i, kind, p, ht, patient, keeps⟩ := task_of_inside asks run here inside
  have undone : p.result? = none := by
    cases p with
    | ask a go => rfl
    | done u =>
      cases kind with
      | request =>
        obtain ⟨renewed, rfl⟩ : ∃ renewed, st = .outside renewed := keeps
        cases inside
      | refresh =>
        obtain rfl : st = .ended := keeps
        cases inside
  obtain ⟨actions, _, t', -, runs, -⟩ := Shared.exists_runs_of_keeps keeps patient (busy.trans inside.symm)
  exact exists_less_of_runs asks run ht undone runs

theorem exists_less_of_patient (free : s.shared.refreshing = false) (here : s.tasks[i]? = some ⟨kind, p⟩)
    (undone : p.result? = none) (patient : Service.Patient p) :
    ∃ fs s', TaskRun client service s fs s' ∧ s'.remaining < s.remaining := by
  have hp : s.thread? (.task i) = some (.task kind, p) := by rw [thread?, here]; rfl
  obtain ⟨st, hst, keeps⟩ :=
    (Discipline.tracks (RefreshStage.kept_of_asksForRefresh asks) run).staged _ _ _ hp
  have outside : st.isInside = false := by
    rw [← Bool.not_eq_true]
    intro inside
    rw [(exclusive asks run).locked _ _ ⟨_, _, hp, hst⟩ inside] at free
    cases free
  obtain ⟨actions, _, t', -, runs, -⟩ := Shared.exists_runs_of_keeps keeps patient (free.trans outside.symm)
  exact exists_less_of_runs asks run here undone runs

theorem exists_less_of_accepted (free : s.shared.refreshing = false) (accepted : s.shared.accepted ≠ []) :
    ∃ fs s', TaskRun client service s fs s' ∧ s'.remaining < s.remaining := by
  obtain ⟨reason, rest, hrest⟩ := List.exists_cons_of_ne_nil accepted
  let begun : Server κ :=
    { s with shared := { s.shared with accepted := rest } }.spawn .refresh service.backgroundRefresh
  have begins : s.move client service .beginRefresh = some begun := by rw [move, hrest]
  have here : begun.tasks[s.tasks.length]? = some ⟨.refresh, service.backgroundRefresh⟩ :=
    List.getElem?_concat_length
  have outside : begun.shared.refreshing = discipline.start.isInside := free
  obtain ⟨actions, _, t', -, runs, -⟩ := Shared.exists_runs_of_keeps
    (RefreshStage.keeps_backgroundRefresh service) (Service.patient_backgroundRefresh service) outside
  obtain ⟨fs, moves⟩ : ∃ fs, TaskRun client service begun fs _ := exists_taskRun runs rfl here
  have whole := (TaskRun.start.move _ rfl begins).trans moves
  have none : t'.accepted = [] :=
    ((singleFlight asks (run.trans whole.run)).idle (Service.inFlight_of_backgroundRefresh runs)).1
  refine ⟨_, _, whole, ?_⟩
  have added : begun.tasks.set s.tasks.length ⟨.refresh, .done ()⟩ = s.tasks ++ [⟨.refresh, .done ()⟩] :=
    List.set_append_right _ _ (Nat.le_refl _) |>.trans (by simp)
  rw [remaining, remaining, added, none, hrest, List.countP_append]
  simp [Task.isDone, Dialogue.result?]

theorem depth_of_waits (settled : s.shared.accepted = [])
    (others : ∀ (i : Nat) (kind : TaskKind) (p : Program Unit), s.tasks[i]? = some ⟨kind, p⟩ →
      p.result? = none → ∃ m, WorksOn es i m ∧ m.request? = some .wait) : s.shared.state.depth = 0 := by
  have tracks := Discipline.tracks (UpdateStage.kept asks) run
  have finished {i : Nat} {role : Role} {p : Program Unit} (hp : s.thread? (.task i) = some (role, p))
      (other : ∀ m, WorksOn es i m → m.request? ≠ some .wait) : p = .done () := by
    cases p with
    | done u => rfl
    | ask a go =>
      rw [thread?, Option.map_eq_some_iff] at hp
      obtain ⟨⟨kind, p⟩, ht, he⟩ := hp
      obtain ⟨-, rfl⟩ := Prod.mk.inj he
      obtain ⟨m, works, waits⟩ := others i kind _ ht rfl
      exact absurd waits (other m works)
  have refreshed {i : Nat} {p : Program Unit} (hp : s.thread? (.task i) = some (.task .refresh, p)) :
      p = .done () := by
    obtain ⟨purpose, hpurpose, hrole, -⟩ := (origins run).purpose hp
    refine finished hp fun m works _ => ?_
    obtain rfl : some m = purpose := Option.some.inj (works.symm.trans hpurpose)
    cases hrole
  have idle : s.shared.state.inFlight = false := by
    rw [← Bool.not_eq_true]
    intro busy
    rcases (singleFlight asks run).busy busy with ⟨⟨reason, accepted⟩, -⟩ | ⟨-, i, running, -⟩
    · rw [settled] at accepted
      cases accepted
    · have kept := Discipline.tracks (RefreshStage.kept_of_asksForRefresh asks) run
      obtain ⟨p, st, hp, hst, going⟩ := running.at kept
      obtain rfl := refreshed hp
      obtain rfl : st = .ended := kept.keeps hp hst
      cases going
  obtain ⟨inside, landed, counted⟩ := exists_counted asks run
  have outside : inside = ∅ := by
    rw [Finset.eq_empty_iff_forall_notMem]
    intro who hin
    have updating := (counted.inside_iff who).mp hin
    obtain ⟨i, rfl, ⟨m, works, prepares⟩, -⟩ := (inUpdate_iff asks run).mp updating
    obtain ⟨role, p, hp, hst⟩ := updating
    have ended := finished hp fun m' works' waits => by
      obtain rfl := Option.some.inj (Option.some.inj (works.symm.trans works'))
      rw [prepares] at waits
      cases waits
    obtain rfl : role = .task .request := UpdateStage.suits_of_stage hst
    obtain rfl := ended
    cases tracks.keeps hp hst
  have left : landed = ∅ := by
    rw [Finset.eq_empty_iff_forall_notMem]
    intro who hin
    obtain ⟨role, p, hp, hst⟩ := (counted.landed_iff who).mp hin
    obtain rfl : role = .task .refresh := UpdateStage.suits_of_stage hst
    cases who with
    | reader => cases hp
    | task i =>
      obtain rfl := refreshed hp
      cases tracks.keeps hp hst
  rw [counted.depth, idle, outside, left]
  rfl

theorem exists_less (unsettled : s.shared.accepted ≠ [] ∨ ∃ t ∈ s.tasks, t.isDone = false) :
    ∃ fs s', TaskRun client service s fs s' ∧ s'.remaining < s.remaining := by
  cases free : s.shared.refreshing with
  | true => exact exists_less_of_refreshing asks run free
  | false =>
    by_cases settled : s.shared.accepted = []
    · by_cases patient : ∃ (i : Nat) (kind : TaskKind) (p : Program Unit), s.tasks[i]? = some ⟨kind, p⟩ ∧
          p.result? = none ∧ Service.Patient p
      · obtain ⟨i, kind, p, here, undone, hp⟩ := patient
        exact exists_less_of_patient asks run free here undone hp
      · have others (i : Nat) (kind : TaskKind) (p : Program Unit) (here : s.tasks[i]? = some ⟨kind, p⟩)
            (undone : p.result? = none) := (waits_or_patient asks run here).resolve_right fun hp =>
          patient ⟨i, kind, p, here, undone, hp⟩
        obtain ⟨⟨kind, p⟩, ht, undone⟩ := unsettled.resolve_left fun h => h settled
        obtain ⟨i, here⟩ := List.mem_iff_getElem?.mp ht
        have undone : p.result? = none := by simpa [Task.isDone] using undone
        have idle := depth_of_waits asks run settled fun i kind p here undone =>
          (others i kind p here undone).1
        obtain ⟨actions, _, t', runs⟩ := Shared.exists_runs_of_waits (others i kind p here undone).2.1 idle
        exact exists_less_of_runs asks run here undone runs
    · exact exists_less_of_accepted asks run free settled

theorem atRest_iff :
    AtRest client service s ↔ s.shared.accepted = [] ∧ ∀ t ∈ s.tasks, t.program = .done () := by
  constructor
  · intro rest
    have settled : ¬(s.shared.accepted ≠ [] ∨ ∃ t ∈ s.tasks, t.isDone = false) := by
      intro unsettled
      obtain ⟨fs, s', moves, less⟩ := exists_less asks run unsettled
      rw [moves.eq_of_rest rest] at less
      exact Nat.lt_irrefl _ less
    rw [not_or, not_not] at settled
    exact ⟨settled.1, done_of_settled settled.2⟩
  · rintro ⟨settled, done⟩ m own
    cases m with
    | beginRefresh => rw [move, settled]
    | step i =>
      rw [move]
      cases ht : s.tasks[i]? with
      | none => rfl
      | some t =>
        rw [Option.bind_some, done t (List.mem_of_getElem? ht)]
        rfl
    | _ => cases own

theorem exists_rest : ∃ fs s', TaskRun client service s fs s' ∧ AtRest client service s' := by
  induction hn : s.remaining using Nat.strong_induction_on generalizing s es with
  | h n ih =>
    by_cases unsettled : s.shared.accepted ≠ [] ∨ ∃ t ∈ s.tasks, t.isDone = false
    · obtain ⟨fs, u, moves, less⟩ := exists_less asks run unsettled
      obtain ⟨gs, s', moves', rest⟩ := ih _ (hn ▸ less) (run.trans moves.run) rfl
      exact ⟨fs ++ gs, s', moves.trans moves', rest⟩
    · rw [not_or, not_not] at unsettled
      exact ⟨[], s, .start, (atRest_iff asks run).mpr ⟨unsettled.1, done_of_settled unsettled.2⟩⟩

end

end Server

end BuildServer
