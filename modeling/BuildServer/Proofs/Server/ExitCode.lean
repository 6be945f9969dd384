import Mathlib.Logic.Relation
import BuildServer.Proofs.Server.Answers

namespace BuildServer

def Incoming.isExit (m : Incoming) : Bool :=
  Registry.standard.lookup m.method == some (.notice .exit)

structure Incoming.AsksShutdown (m : Incoming) : Prop where
  method : m.request? = some .shutdown
  named : m.id ≠ none

theorem Incoming.AsksShutdown.not_exit {m : Incoming} (h : m.AsksShutdown) : m.isExit = false := by
  have method := h.method
  rw [request?] at method
  rw [isExit]
  split at method
  · rename_i known
    rw [known]
    rfl
  · cases method

namespace Action

def isEnding : Action → Bool
  | .markShutdown => true
  | .exit => true
  | _ => false

def isPrompt : Action → Bool
  | .invalidate => true
  | .requestRefresh _ => true
  | .exit => true
  | _ => false

end Action

theorem Shared.perform_prompt {κ : Type} (client : Client κ) {a : Action} (h : a.isPrompt = true)
    (s : Shared κ) : ∃ answer s', perform client a s = some (answer, s') := by
  cases a with
  | requestRefresh reason =>
    simp only [perform]
    split <;> exact ⟨_, _, rfl⟩
  | invalidate | exit => exact ⟨_, _, rfl⟩
  | _ => cases h

namespace Service

open Dialogue (Asks Leads)

def Lasting {α : Type} (p : Program α) : Prop := p.Asks (·.isEnding = false)

variable {s : Service} {m : Incoming}

theorem lasting_of_ordinary (a : Action) (h : a.isOrdinary = true) : a.isEnding = false := by
  cases a <;> first | rfl | cases h

theorem Telling.lasting {α : Type} {p : Program α} (h : Telling p) : Lasting p := by
  apply h.mono
  rintro a (looks | notifies)
  · cases a <;> first | rfl | cases looks
  · cases a <;> first | rfl | cases notifies

theorem lasting_prepare (s : Service) (uris : List String) : Lasting (s.prepare uris) := by
  rw [prepare_eq]
  refine ⟨rfl, fun _ => Asks.bind (asks_prepareTargets (fun a h _ => lasting_of_ordinary a h) (fun _ => rfl) s uris) ?_⟩
  intro result
  exact ⟨rfl, fun _ => ⟨rfl, fun changes => Asks.bind (telling_tell s changes).lasting fun _ => trivial⟩⟩

theorem lasting_backgroundRefresh (s : Service) : Lasting s.backgroundRefresh := by
  rw [backgroundRefresh_eq]
  refine Asks.bind (asks_recordedRefresh (fun a h _ => lasting_of_ordinary a h) (fun _ => rfl) s false) fun _ => ?_
  refine ⟨rfl, fun changes => Asks.bind (telling_tell s changes).lasting fun _ => ?_⟩
  exact ⟨rfl, fun _ => ⟨rfl, fun _ => trivial⟩⟩

theorem lasting_handle (asks : s.AsksForRefresh) (m : Incoming) {r : Request} (h : r ≠ .shutdown) :
    Lasting (s.handle m r) := by
  by_cases prepares : r = .prepare
  · subst prepares
    apply asks_withParams
    intro targets
    apply Asks.bind (lasting_prepare s targets)
    intro result
    cases result <;> trivial
  · exact asks_handle (fun a h _ => lasting_of_ordinary a h) asks m prepares h fun _ => rfl

theorem lasting_respond (asks : s.AsksForRefresh) (h : ¬m.AsksShutdown) :
    Lasting (s.respond m.request? m) := by
  cases hid : m.id with
  | none =>
    rw [respond_anonymous hid]
    trivial
  | some id =>
    cases hr : m.request? with
    | none =>
      rw [respond_unknown hid]
      exact ⟨rfl, fun _ => trivial⟩
    | some r =>
      rw [respond_request hid]
      refine Asks.bind (lasting_handle asks m ?_) fun reply => ⟨rfl, fun _ => trivial⟩
      rintro rfl
      exact h ⟨hr, by simp [hid]⟩

theorem respond_shutdown {id : RequestId} (hid : m.id = some id) : s.respond (some .shutdown) m =
    .ask .markShutdown fun _ => .ask (.send (.result id .null)) fun _ => .done () := by
  rw [respond_request hid]
  rfl

theorem respond_stays (asks : s.AsksForRefresh) (r : Option Request) (m : Incoming) :
    (s.respond r m).Asks (· ≠ .exit) := by
  cases hid : m.id with
  | none =>
    rw [respond_anonymous hid]
    trivial
  | some id =>
    rcases r with _ | r
    · rw [respond_unknown hid]
      exact ⟨by simp, fun _ => trivial⟩
    by_cases hr : r = .shutdown
    · rw [hr, respond_shutdown hid]
      exact ⟨by simp, fun _ => ⟨by simp, fun _ => trivial⟩⟩
    · rw [respond_request hid]
      refine Asks.bind ((lasting_handle asks m hr).mono ?_) fun reply => ⟨by simp, fun _ => trivial⟩
      rintro a lasts rfl
      cases lasts

theorem prompt_notice (asks : s.AsksForRefresh) (m : Incoming) (n : Notice) :
    (s.notice m n).Asks (·.isPrompt = true) := by
  cases n with
  | initialized => trivial
  | exit => exact asks_act rfl
  | filesChanged =>
    dsimp only [notice]
    split
    · trivial
    · unfold filesChanged
      split
      · rw [asks]
        exact ⟨rfl, fun _ => asks_act rfl⟩
      · trivial

end Service

namespace Server

variable {κ : Type} {client : Client κ} {service : Service} {site : κ} {store : Store}
  {chunks rest : List Bytes} {es : List Event} {s s' : Server κ} {who : Actor} {code : Nat}

def MayEnd (role : Role) (a : Action) : Prop :=
  match role with
  | .reader => a.isPrompt = true
  | .task .request => a ≠ .exit
  | .task .refresh => a.isEnding = false

theorem restrained_endings (asks : service.AsksForRefresh) :
    Restrained service (fun _ => True) MayEnd where
  notice m n _ _ := Service.prompt_notice asks m n
  request r m := Service.respond_stays asks r m
  refresh := Service.lasting_backgroundRefresh service

def ShutDown (es : List Event) : Prop :=
  ∃ i m, WorksOn es i m ∧ m.AsksShutdown ∧ .did (.task i) .markShutdown ∈ es

section

variable (asks : service.AsksForRefresh) (run : Run client service (.initial site store) es s)
include asks run

theorem exited_by_reader (h : .did who .exit ∈ es) : who = .reader := by
  obtain ⟨role, p, hp, may⟩ := (restrains (restrained_endings asks) run fun _ _ => trivial).behind who _ h
  cases who with
  | reader => rfl
  | task i =>
    obtain ⟨t, -, ht⟩ := Option.map_eq_some_iff.mp hp
    obtain ⟨rfl, -⟩ := Prod.mk.inj ht
    cases hkind : t.kind <;> simp [hkind, MayEnd, Action.isEnding] at may

theorem marked_iff : (∃ who, .did who .markShutdown ∈ es) ↔ ShutDown es := by
  constructor
  · rintro ⟨who, h⟩
    obtain ⟨role, p, hp, may⟩ :=
      (restrains (restrained_endings asks) run fun _ _ => trivial).behind who _ h
    cases who with
    | reader =>
      obtain ⟨rfl, -⟩ := Prod.mk.inj (Option.some.inj hp)
      cases may
    | task i =>
      obtain ⟨purpose, hpurpose, rfl, leads⟩ := (origins run).purpose hp
      have ha : .markShutdown ∈ actionsOf (.task i) es := mem_actionsOf.mpr h
      cases purpose with
      | none =>
        have lasting := (Dialogue.Asks.leads (Service.lasting_backgroundRefresh service) leads).1 _ ha
        cases lasting
      | some m =>
        by_cases hm : m.AsksShutdown
        · exact ⟨i, m, hpurpose, hm, h⟩
        · have lasting := (Dialogue.Asks.leads (Service.lasting_respond asks hm) leads).1 _ ha
          cases lasting
  · rintro ⟨i, m, -, -, h⟩
    exact ⟨.task i, h⟩

end

theorem shutDown_of_answered (run : Run client service (.initial site store) es s) {i : Nat}
    {m : Incoming} {out : Outgoing} (works : WorksOn es i m) (h : m.AsksShutdown)
    (answered : .did (.task i) (.send out) ∈ es) : ShutDown es := by
  refine ⟨i, m, works, h, mem_actionsOf.mp ?_⟩
  obtain ⟨d, -, leads⟩ := (origins run).course i _ works
  obtain ⟨id, hid⟩ := Option.ne_none_iff_exists'.mp h.named
  rw [Purpose.program, h.method, Service.respond_shutdown hid] at leads
  have ha : .send out ∈ actionsOf (.task i) es := mem_actionsOf.mpr answered
  generalize actionsOf (.task i) es = actions at leads ha ⊢
  cases leads with
  | stay => cases ha
  | ask _ _ => exact List.mem_cons_self

theorem shutdown_iff (run : Run client service (.initial site store) es s) :
    s.shared.state.shutdown = true ↔ ∃ who, .did who .markShutdown ∈ es := by
  induction run with
  | start => simp [Server.initial, Shared.initial, BuildState.initial]
  | @move es u v before m hm ih =>
    have step := step_of_move hm
    generalize u.event? m = e at step ⊢
    rcases step.effect with ⟨hother, accepted, shared⟩ | ⟨who, _, a, _, answer, rfl, -, answered⟩
    · have hsame : v.shared.state = u.shared.state := by rw [shared]
      rw [hsame, ih]
      simp only [List.mem_append, Option.mem_toList]
      exact exists_congr fun who => (or_iff_left (hother who .markShutdown)).symm
    · rw [Shared.perform_shutdown answered]
      cases a with
      | markShutdown => simp
      | _ => simpa using ih

theorem exit_cases (run : Run client service (.initial site store) es s) :
    s.shared.exit = none ∧ (∀ who, .did who .exit ∉ es) ∨
      ∃ before who after u, es = before ++ .did who .exit :: after ∧ (∀ w, .did w .exit ∉ before) ∧
        Run client service (.initial site store) before u ∧
        s.shared.exit = some u.shared.state.exitCode := by
  induction run with
  | start => exact .inl ⟨rfl, by simp⟩
  | @move es u v before m hm ih =>
    have step := step_of_move hm
    generalize u.event? m = e at step ⊢
    rcases step.effect with ⟨hother, accepted, shared⟩ | ⟨who, _, a, _, answer, rfl, -, answered⟩
    · have hsame : v.shared.exit = u.shared.exit := by rw [shared]
      rcases ih with ⟨hnone, hes⟩ | ⟨x, who, y, w, rfl, hx, hw, hexit⟩
      · refine .inl ⟨hsame.trans hnone, fun who => ?_⟩
        simpa [hes who] using hother who .exit
      · exact .inr ⟨x, who, y ++ e.toList, w, by simp, hx, hw, hsame.trans hexit⟩
    · have hexit := Shared.perform_exit answered
      rcases ih with ⟨hnone, hes⟩ | ⟨x, w, y, u', rfl, hx, hw, hu⟩
      · by_cases ha : a = .exit
        · subst ha
          exact .inr ⟨es, who, [], u, rfl, hes, before, by rw [hexit, hnone, Option.none_or]⟩
        · refine .inl ⟨?_, fun w => ?_⟩
          · rw [hexit, hnone]
            cases a <;> first | rfl | exact absurd rfl ha
          · simp [hes w, Ne.symm ha]
      · refine .inr ⟨x, w, y ++ [.did who a], u', by simp, hx, hw, ?_⟩
        rw [hexit, hu]
        cases a <;> rfl

inductive Exiting (es : List Event) (s : Server κ) : Prop
  | unasked (p : Program Unit) (here : s.thread? .reader = some (.reader, p)) (stays : p.Asks (· ≠ .exit))
    (others : ∀ m ∈ messages es, m.isExit = false) (silent : ∀ who, .did who .exit ∉ es)
  | asked (ms : List Incoming) (m : Incoming) (taken : messages es = ms ++ [m])
    (others : ∀ m ∈ ms, m.isExit = false) (exit : m.isExit = true)
    (here : s.thread? .reader = some (.reader, .ask .exit .done)) (silent : ∀ who, .did who .exit ∉ es)
  | acted (before after : List Event) (ms : List Incoming) (m : Incoming)
    (split : es = before ++ .did .reader .exit :: after) (silent : ∀ who, .did who .exit ∉ before)
    (taken : messages before = ms ++ [m]) (others : ∀ m ∈ ms, m.isExit = false) (exit : m.isExit = true)

namespace Exiting

theorem acted_append {fs : List Event} {before after : List Event} {ms : List Incoming} {m : Incoming}
    (split : es = before ++ .did .reader .exit :: after) (silent : ∀ who, .did who .exit ∉ before)
    (taken : messages before = ms ++ [m]) (others : ∀ m ∈ ms, m.isExit = false) (exit : m.isExit = true) :
    Exiting (es ++ fs) s' :=
  .acted before (after ++ fs) ms m (by simp [split]) silent taken others exit

theorem left {e : Option Event} (h : Exiting es s) (same : s'.thread? .reader = s.thread? .reader)
    (silent : ∀ who, e ≠ some (.did who .exit)) (untaken : messages e.toList = []) :
    Exiting (es ++ e.toList) s' := by
  have hmessages : messages (es ++ e.toList) = messages es := by
    rw [messages_append, untaken, List.append_nil]
  cases h with
  | unasked p here stays others quiet =>
    exact .unasked p (same.trans here) stays (hmessages ▸ others) fun who => by
      simpa [quiet who] using silent who
  | asked ms m taken others exit here quiet =>
    exact .asked ms m (hmessages.trans taken) others exit (same.trans here) fun who => by
      simpa [quiet who] using silent who
  | acted before after ms m split quiet taken others exit => exact acted_append split quiet taken others exit

theorem step (asks : service.AsksForRefresh) {e : Option Event} (h : Exiting es s)
    (tasks : ∀ i, e ≠ some (.did (.task i) .exit)) (step : Step client service s e s') :
    Exiting (es ++ e.toList) s' := by
  cases step with
  | quiet _ threads => exact h.left (by rw [threads]) (by simp) rfl
  | begun i _ _ _ _ _ threads => exact h.left (by rw [threads]; simp) (by simp) rfl
  | request m r i known idle _ _ threads =>
    have same : s'.thread? .reader = s.thread? .reader := by rw [threads]; simp
    have hm : m.isExit = false := by
      rw [Incoming.isExit, known]
      cases r <;> rfl
    have hmessages : messages (es ++ [.taken m]) = messages es ++ [m] := messages_append _ _
    cases h with
    | unasked p here stays others silent =>
      refine .unasked p (same.trans here) stays ?_ fun who => by simpa using silent who
      rw [Option.toList, hmessages]
      exact List.forall_mem_append.mpr ⟨others, by simpa using hm⟩
    | asked ms m' _ _ _ here => simp [thread?, idle] at here
    | acted before after ms m' split silent taken others exit =>
      exact acted_append split silent taken others exit
  | notice m n known idle _ threads =>
    have hmessages : messages (es ++ [.taken m]) = messages es ++ [m] := messages_append _ _
    have here' : s'.thread? .reader = some (.reader, service.notice m n) := by
      rw [threads, Function.update_self]
    cases h with
    | unasked p here stays others silent =>
      have silent' (who : Actor) : .did who .exit ∉ es ++ [.taken m] := by simpa using silent who
      by_cases hn : n = .exit
      · subst hn
        exact .asked (messages es) m hmessages others (by rw [Incoming.isExit, known]; rfl) here' silent'
      · have hm : m.isExit = false := by
          rw [Incoming.isExit, known]
          simpa using hn
        refine .unasked _ here' (Service.asks_notice asks ?_ m hn) ?_ silent'
        · rintro a ordinary rfl
          cases ordinary
        · rw [Option.toList, hmessages]
          exact List.forall_mem_append.mpr ⟨others, by simpa using hm⟩
    | asked ms m' _ _ _ here => simp [thread?, idle] at here
    | acted before after ms m' split silent taken others exit =>
      exact acted_append split silent taken others exit
  | act who role a go answer here _ threads =>
    cases who with
    | task i =>
      refine h.left (by rw [threads]; simp) (fun who => ?_) rfl
      rintro ⟨rfl, rfl⟩
      exact tasks i rfl
    | reader =>
      have now : s'.thread? .reader = some (role, go answer) := by rw [threads, Function.update_self]
      have hmessages : messages (es ++ [.did .reader a]) = messages es := by
        rw [messages_append]
        exact List.append_nil _
      cases h with
      | unasked p here' stays others silent =>
        obtain ⟨rfl, rfl⟩ := Prod.mk.inj (Option.some.inj (here.symm.trans here'))
        refine .unasked _ now (stays.2 answer) (hmessages ▸ others) fun who => ?_
        simpa [silent who] using fun _ => Ne.symm stays.1
      | asked ms m taken others exit here' silent =>
        obtain ⟨-, hask⟩ := Prod.mk.inj (Option.some.inj (here.symm.trans here'))
        cases hask
        exact .acted es [] ms m rfl silent taken others exit
      | acted before after ms m split silent taken others exit =>
        exact acted_append split silent taken others exit

end Exiting

theorem exiting (asks : service.AsksForRefresh) (run : Run client service (.initial site store) es s) :
    Exiting es s := by
  induction run with
  | start => exact .unasked (.done ()) rfl trivial (by simp [messages]) (by simp)
  | @move es u v before m hm ih =>
    refine ih.step asks (fun i hexit => ?_) (step_of_move hm)
    have run := before.move m hm
    rw [hexit] at run
    cases exited_by_reader asks run (List.mem_append_right _ (List.mem_singleton_self _))

theorem outcome_move {m : Move} (h : s.move client service m = some s') :
    s'.outcome = s.outcome ∨ s.isReading = true ∧ s'.inbox = s.inbox ∧ s'.handling = s.handling ∧
      s'.shared = s.shared ∧ s'.input = s.input ∧ (s'.outcome = s.shared.exit.map Outcome.exited ∨
        s'.outcome = s.inputOutcome) := by
  cases m with
  | receive _ | close | breakOff _ =>
    simp only [move, Option.ite_none_right_eq_some, Option.some.injEq] at h
    exact .inl (h.2 ▸ rfl)
  | handle =>
    simp only [move] at h
    split at h
    · obtain rfl := Option.some.inj h
      unfold dispatch
      split <;> exact .inl rfl
    · cases h
  | goOn =>
    simp only [move, Option.map_eq_some_iff] at h
    obtain ⟨_, -, rfl⟩ := h
    exact .inl rfl
  | beginRefresh =>
    simp only [move] at h
    split at h
    · cases h
    · exact .inl (Option.some.inj h ▸ rfl)
  | step i =>
    simp only [move, Option.bind_eq_some_iff, Option.map_eq_some_iff] at h
    obtain ⟨_, -, _, -, rfl⟩ := h
    exact .inl rfl
  | exit =>
    simp only [move] at h
    split at h
    · rename_i code hcode
      simp only [Option.ite_none_right_eq_some, Option.some.injEq] at h
      obtain ⟨reading, rfl⟩ := h
      exact .inr ⟨reading, rfl, rfl, rfl, rfl, .inl (by rw [hcode]; rfl)⟩
    · cases h
  | finish =>
    simp only [move, Option.ite_none_right_eq_some, Option.map_eq_some_iff] at h
    obtain ⟨reading, o, ho, rfl⟩ := h
    exact .inr ⟨reading, rfl, rfl, rfl, rfl, .inr ho.symm⟩

theorem idle_of_ended {m : Move} (h : s.move client service m = some s') (ended : s.outcome ≠ none)
    (inbox : s.inbox = []) (idle : s.handling = .done ()) :
    s'.inbox = [] ∧ s'.handling = .done () ∧ s'.input = s.input := by
  have reading : s.isReading = false := by
    rw [Bool.eq_false_iff]
    exact fun reading => ended (reading_iff.mp reading).2.2
  cases m with
  | receive _ | close | breakOff _ | finish => simp [move, reading] at h
  | handle => simp [move, inbox] at h
  | goOn => simp [move, idle, Dialogue.step] at h
  | beginRefresh =>
    simp only [move] at h
    split at h
    · cases h
    · obtain rfl := Option.some.inj h
      exact ⟨inbox, idle, rfl⟩
  | step i =>
    simp only [move, Option.bind_eq_some_iff, Option.map_eq_some_iff] at h
    obtain ⟨_, -, _, -, rfl⟩ := h
    exact ⟨inbox, idle, rfl⟩
  | exit =>
    simp only [move, reading] at h
    split at h <;> cases h

theorem exit_of_ended (asks : service.AsksForRefresh)
    (run : Run client service (.initial site store) es s) (ended : s.outcome = some (.exited code)) :
    s.inbox = [] ∧ s.handling = .done () ∧
      (s.shared.exit = some code ∨ s.shared.exit = none ∧ s.input = .closed) := by
  induction run with
  | start => cases ended
  | @move es u v before m hm ih =>
    rcases outcome_move hm with hsame | ⟨reading, hinbox, hhandling, hshared, hinput, hend⟩
    · rw [hsame] at ended
      obtain ⟨inbox, idle, hexit⟩ := ih ended
      obtain ⟨inbox', idle', hinput⟩ := idle_of_ended hm (by simp [ended]) inbox idle
      refine ⟨inbox', idle', ?_⟩
      have run := before.move m hm
      have step := step_of_move hm
      generalize u.event? m = e at run step
      have kept : v.shared.exit = u.shared.exit := by
        rcases step.effect with ⟨-, accepted, shared⟩ | ⟨who, _, a, _, answer, rfl, here, answered⟩
        · rw [shared]
        · have ha : a ≠ .exit := by
            rintro rfl
            obtain rfl := exited_by_reader asks run (List.mem_append_right _ (List.mem_singleton_self _))
            simp [thread?, idle] at here
          rw [Shared.perform_exit answered]
          cases a <;> first | rfl | exact absurd rfl ha
      rwa [kept, hinput]
    · obtain ⟨inbox, idle, -⟩ := reading_iff.mp reading
      refine ⟨hinbox.trans inbox, hhandling.trans idle, ?_⟩
      rw [hshared, hinput]
      rcases hend with hend | hend <;> rw [ended] at hend
      · obtain ⟨_, hexit, hcode⟩ := Option.map_eq_some_iff.mp hend.symm
        cases hcode
        exact .inl hexit
      · cases hin : u.input with
        | opened => simp [inputOutcome, hin] at hend
        | broken reason => simp [inputOutcome, hin, broke] at hend
        | closed =>
          simp only [inputOutcome, hin] at hend
          split at hend
          · cases hexit : u.shared.exit with
            | none => exact .inr ⟨rfl, rfl⟩
            | some c =>
              rw [hexit] at hend
              cases hend
              exact .inl rfl
          · cases hend

theorem feedAll_prefix (d : Frame.Decoder) (chunks rest : List Bytes) :
    (Incoming.feedAll d chunks).1 <+: (Incoming.feedAll d (chunks ++ rest)).1 := by
  induction chunks generalizing d with
  | nil => exact List.nil_prefix
  | cons bytes chunks ih =>
    simp only [List.cons_append, Incoming.feedAll]
    exact (List.prefix_append_right_inj _).mpr (ih _)

/-- How the code comes about in a run over a stream of messages: at the first exit, with all messages taken
up to the first notice of it, by whether the server has been shut down. -/
structure Exits (es before after : List Event) (stream : List Incoming) (code : Nat) : Prop where
  split : es = before ++ .did .reader .exit :: after
  first : ∀ who, .did who .exit ∉ before
  taken : ∃ m, m.isExit = true ∧ messages before = stream.takeWhile (!·.isExit) ++ [m]
  code : code = 0 ∧ ShutDown before ∨ code = 1 ∧ ¬ShutDown before
  requested : ShutDown before → ∃ m ∈ stream.takeWhile (!·.isExit), m.AsksShutdown
  answered : ∀ i m out, WorksOn before i m → m.AsksShutdown → .did (.task i) (.send out) ∈ before →
    ShutDown before

theorem takeWhile_of_first {α : Type} {p : α → Bool} {x y : List α} {a : α} (hx : ∀ b ∈ x, p b = true)
    (ha : p a = false) : (x ++ a :: y).takeWhile p = x := by
  rw [List.takeWhile_append_of_pos hx, List.takeWhile_cons, ha]
  simp

theorem mem_messages_of_worksOn {i : Nat} {m : Incoming} (h : WorksOn es i m) : m ∈ messages es := by
  have hm : m ∈ (purposes es).filterMap id :=
    List.mem_filterMap.mpr ⟨some m, List.mem_of_getElem? h, rfl⟩
  rw [purposes_messages] at hm
  exact (List.mem_filter.mp hm).1

theorem exitCode_cases (asks : service.AsksForRefresh)
    (run : Run client service (.initial site store) es s) :
    s.shared.state.exitCode = 0 ∧ ShutDown es ∨ s.shared.state.exitCode = 1 ∧ ¬ShutDown es := by
  rw [← marked_iff asks run, ← shutdown_iff run, BuildState.exitCode]
  cases s.shared.state.shutdown <;> simp

theorem eq_of_first {α : Type} {x x' y y' : List α} {a : α} (h : x ++ a :: y = x' ++ a :: y') (hx : a ∉ x)
    (hx' : a ∉ x') : x = x' := by
  rcases List.append_eq_append_iff.mp h with ⟨z, rfl, hz⟩ | ⟨z, rfl, hz⟩
  all_goals
    cases z with
    | nil => simp
    | cons b z =>
      obtain ⟨rfl, -⟩ := List.cons.inj hz
      simp at hx hx'

theorem exit_of_first (asks : service.AsksForRefresh) {before after : List Event}
    (run : Run client service (.initial site store) (before ++ .did .reader .exit :: after) s)
    (silent : ∀ who, .did who .exit ∉ before) :
    ∃ u, Run client service (.initial site store) before u ∧
      s.shared.exit = some u.shared.state.exitCode := by
  rcases exit_cases run with ⟨-, hnone⟩ | ⟨x, who, y, u, heq, hx, hu, hexit⟩
  · exact absurd (by simp) (hnone .reader)
  · obtain rfl : who = .reader := exited_by_reader asks run (by rw [heq]; simp)
    obtain rfl := eq_of_first heq (silent .reader) (hx .reader)
    exact ⟨u, hu, hexit⟩

theorem exits_of_first (asks : service.AsksForRefresh) {before after : List Event} {stream : List Incoming}
    (run : Run client service (.initial site store) (before ++ .did .reader .exit :: after) s)
    (silent : ∀ who, .did who .exit ∉ before)
    (streamed : messages (before ++ .did .reader .exit :: after) <+: stream) {ms : List Incoming}
    {m : Incoming} (taken : messages before = ms ++ [m]) (others : ∀ m ∈ ms, m.isExit = false)
    (exit : m.isExit = true) (ended : s.shared.exit = some code) :
    Exits (before ++ .did .reader .exit :: after) before after stream code := by
  obtain ⟨u, hu, hexit⟩ := exit_of_first asks run silent
  have huntil : stream.takeWhile (!·.isExit) = ms := by
    obtain ⟨more, rfl⟩ := streamed
    rw [messages_append, taken, List.append_assoc, List.append_assoc, List.singleton_append]
    exact takeWhile_of_first (by simpa using others) (by simp [exit])
  rw [ended] at hexit
  obtain rfl := Option.some.inj hexit
  refine ⟨rfl, silent, ⟨m, exit, by rw [huntil, taken]⟩, exitCode_cases asks hu, ?_, ?_⟩
  · rintro ⟨i, m', works, shutdown, -⟩
    refine ⟨m', ?_, shutdown⟩
    have hm' := mem_messages_of_worksOn works
    rw [taken, List.mem_append, List.mem_singleton] at hm'
    rw [huntil]
    apply hm'.resolve_right
    rintro rfl
    rw [shutdown.not_exit] at exit
    cases exit
  · intro i m' out works shutdown answered
    exact shutDown_of_answered hu works shutdown answered

theorem exits_of_ended (asks : service.AsksForRefresh)
    (session : Session client service (.initial site store) chunks es s)
    (ended : s.outcome = some (.exited code)) (whole : s.input = .closed → rest = [])
    (asked : ∃ m ∈ (Incoming.feedAll .empty (chunks ++ rest)).1, m.isExit = true) :
    ∃ before after, Exits es before after (Incoming.feedAll .empty (chunks ++ rest)).1 code := by
  have run := session.run
  obtain ⟨inbox, idle, hexit⟩ := exit_of_ended asks run ended
  have read : (Incoming.feedAll .empty chunks).1 = messages es := by
    rw [session.feedAll, inbox, List.append_nil]
  cases exiting asks run with
  | unasked p here stays others silent =>
    rcases hexit with hexit | ⟨-, closed⟩
    · rcases exit_cases run with ⟨hnone, -⟩ | ⟨x, who, y, -, rfl, -, -, -⟩
      · rw [hnone] at hexit
        cases hexit
      · exact absurd (by simp) (silent who)
    · rw [whole closed, List.append_nil, read] at asked
      obtain ⟨m, hm, hexit⟩ := asked
      rw [others m hm] at hexit
      cases hexit
  | asked ms m taken others exit here silent => simp [thread?, idle] at here
  | acted before after ms m split silent taken others exit =>
    subst split
    refine ⟨before, after, exits_of_first asks run silent ?_ taken others exit ?_⟩
    · rw [← read]
      exact feedAll_prefix _ _ _
    · apply hexit.resolve_right
      rintro ⟨hnone, -⟩
      obtain ⟨u, -, hsome⟩ := exit_of_first asks run silent
      rw [hnone] at hsome
      cases hsome

def ReadsOn (client : Client κ) (service : Service) (s s' : Server κ) : Prop :=
  ∃ m, (m = .goOn ∨ m = .handle ∨ m = .exit) ∧ s.move client service m = some s'

open Relation (ReflTransGen)

theorem session_of_readsOn (h : ReflTransGen (ReadsOn client service) s s') :
    ∃ es, Session client service s [] es s' := by
  induction h with
  | refl => exact ⟨[], .start⟩
  | tail _ h ih =>
    obtain ⟨es, session⟩ := ih
    obtain ⟨m, hm, hmove⟩ := h
    have received : Move.received m = [] := by rcases hm with rfl | rfl | rfl <;> rfl
    refine ⟨_, by simpa [received] using session.move m hmove⟩

theorem exists_handled (client : Client κ) (service : Service) (prompt : s.handling.Asks (·.isPrompt = true)) :
    ∃ s', ReflTransGen (ReadsOn client service) s s' ∧ s'.handling = .done () ∧ s'.inbox = s.inbox ∧
      s'.outcome = s.outcome := by
  generalize hp : s.handling = p at prompt
  induction p generalizing s with
  | done u => exact ⟨s, .refl, hp, rfl, rfl⟩
  | ask a go ih =>
    obtain ⟨answer, shared, answered⟩ := Shared.perform_prompt client prompt.1 s.shared
    have move : s.move client service .goOn = some { s with handling := go answer, shared := shared } := by
      simp [Server.move, hp, Dialogue.step, answered]
    obtain ⟨s', hs', idle, inbox, outcome⟩ :=
      ih answer (s := { s with handling := go answer, shared := shared }) rfl (prompt.2 answer)
    exact ⟨s', .head ⟨.goOn, .inl rfl, move⟩ hs', idle, inbox, outcome⟩

theorem exists_idle (client : Client κ) (asks : service.AsksForRefresh) (prompt : s.handling.Asks (·.isPrompt = true)) :
    ∃ s', ReflTransGen (ReadsOn client service) s s' ∧ s'.handling = .done () ∧ s'.inbox = [] ∧
      s'.outcome = s.outcome := by
  generalize hinbox : s.inbox = inbox
  induction inbox generalizing s with
  | nil =>
    obtain ⟨s', hs', idle, inbox, outcome⟩ := exists_handled client service prompt
    exact ⟨s', hs', idle, inbox.trans hinbox, outcome⟩
  | cons m inbox ih =>
    obtain ⟨u, hu, idle, hkept, outcome⟩ := exists_handled client service prompt
    have move : u.move client service .handle = some (dispatch service m { u with inbox := inbox }) := by
      simp [Server.move, idle, hkept, hinbox]
    have taken : (dispatch service m { u with inbox := inbox }).inbox = inbox ∧
        (dispatch service m { u with inbox := inbox }).outcome = u.outcome ∧
        (dispatch service m { u with inbox := inbox }).handling.Asks (·.isPrompt = true) := by
      unfold dispatch
      split
      · exact ⟨rfl, rfl, Service.prompt_notice asks m _⟩
      · exact ⟨rfl, rfl, by rw [spawn, idle]; trivial⟩
      · exact ⟨rfl, rfl, by rw [spawn, idle]; trivial⟩
    obtain ⟨s', hs', hidle, hempty, hsame⟩ := ih taken.2.2 taken.1
    exact ⟨s', hu.trans (.head ⟨.handle, .inr (.inl rfl), move⟩ hs'), hidle, hempty,
      hsame.trans (taken.2.1.trans outcome)⟩

theorem exists_ended (asks : service.AsksForRefresh)
    (session : Session client service (.initial site store) chunks es s) (going : s.outcome = none)
    (asked : ∃ m ∈ (Incoming.feedAll .empty chunks).1, m.isExit = true) :
    ∃ s' code, ReflTransGen (ReadsOn client service) s s' ∧ s'.outcome = some (.exited code) := by
  have prompt : s.handling.Asks (·.isPrompt = true) :=
    (restrains (restrained_endings asks) session.run fun _ _ => trivial).ahead .reader .reader _ rfl
  obtain ⟨u, hu, idle, inbox, outcome⟩ := exists_idle client asks prompt
  obtain ⟨fs, more⟩ := session_of_readsOn hu
  have session := session.trans more
  rw [List.append_nil] at session
  have run := session.run
  rw [session.feedAll, inbox, List.append_nil] at asked
  suffices ∃ code, u.shared.exit = some code by
    obtain ⟨code, hcode⟩ := this
    have reading : u.isReading = true := reading_iff.mpr ⟨inbox, idle, outcome.trans going⟩
    have move : u.move client service .exit = some { u with outcome := some (.exited code) } := by
      simp [Server.move, hcode, reading]
    exact ⟨_, code, hu.tail ⟨.exit, .inr (.inr rfl), move⟩, rfl⟩
  cases exiting asks run with
  | unasked p here stays others silent =>
    obtain ⟨m, hm, hexit⟩ := asked
    rw [others m hm] at hexit
    cases hexit
  | asked ms m taken others exit here silent => simp [thread?, idle] at here
  | acted before after ms m split silent taken others exit =>
    rw [split] at run
    obtain ⟨v, -, hexit⟩ := exit_of_first asks run silent
    exact ⟨_, hexit⟩

/-- A server that exits gives the code of its first exit, which is zero if and only if the task of a request
for shutdown has come before it, and a server that has read a notice to exit can always exit. -/
theorem exit_code_of_shutdown (asks : service.AsksForRefresh)
    (session : Session client service (.initial site store) chunks es s) :
    (∀ code rest, s.outcome = some (.exited code) → (s.input = .closed → rest = []) →
      (∃ m ∈ (Incoming.feedAll .empty (chunks ++ rest)).1, m.isExit = true) →
      ∃ before after, Exits es before after (Incoming.feedAll .empty (chunks ++ rest)).1 code) ∧
    (s.outcome = none → (∃ m ∈ (Incoming.feedAll .empty chunks).1, m.isExit = true) →
      ∃ s' code, ReflTransGen (ReadsOn client service) s s' ∧ s'.outcome = some (.exited code)) :=
  ⟨fun _ _ ended whole asked => exits_of_ended asks session ended whole asked, exists_ended asks session⟩

section

def exitNotice : Incoming :=
  { method := "build/exit", id := none, body := Utf8.encode "\x7b\"method\":\"build/exit\"\x7d" }

def lastWords : Bytes := Frame.wrap shutdownRequest.body ++ Frame.wrap exitNotice.body

def shutDownInTime : List Move :=
  [.receive lastWords, .handle, .step 0, .step 0, .handle, .goOn, .exit]

def shutDownTooLate : List Move :=
  [.receive lastWords, .handle, .handle, .goOn, .step 0, .step 0, .exit]

def ending (ms : List Move) : List Event × Server Unit :=
  play emptyProject emptyService ms (.initial () (.memory .empty))

theorem session_ending (ms : List Move)
    (h : heard emptyProject emptyService ms (.initial () (.memory .empty)) = [lastWords]) :
    Session emptyProject emptyService (.initial () (.memory .empty)) [lastWords] (ending ms).1
      (ending ms).2 := by
  rw [← h]
  exact session_play ms _

theorem feedAll_lastWords : (Incoming.feedAll .empty [lastWords]).1 = [shutdownRequest, exitNotice] := by
  decide +kernel

theorem shutdownRequest_asks : shutdownRequest.AsksShutdown := ⟨by decide +kernel, by simp [shutdownRequest]⟩

theorem shut_down_in_time : (ending shutDownInTime).2.outcome = some (.exited 0) ∧
    ∃ before after, Exits (ending shutDownInTime).1 before after [shutdownRequest, exitNotice] 0 := by
  have session := session_ending shutDownInTime (by decide +kernel)
  have ended : (ending shutDownInTime).2.outcome = some (.exited 0) := by decide +kernel
  have exits := (exit_code_of_shutdown (fun _ => rfl) session).1 0 [] ended fun _ => rfl
  rw [List.append_nil, feedAll_lastWords] at exits
  exact ⟨ended, exits ⟨exitNotice, by simp, by decide +kernel⟩⟩

theorem exit_code_depends_on_order : ∃ es s es' s',
    Session emptyProject emptyService (.initial () (.memory .empty)) [lastWords] es s ∧
    Session emptyProject emptyService (.initial () (.memory .empty)) [lastWords] es' s' ∧
    s.outcome = some (.exited 0) ∧ s'.outcome = some (.exited 1) ∧
    (Incoming.feedAll .empty [lastWords]).1 = [shutdownRequest, exitNotice] ∧
    shutdownRequest.AsksShutdown ∧ exitNotice.isExit = true :=
  ⟨_, _, _, _, session_ending shutDownInTime (by decide +kernel),
    session_ending shutDownTooLate (by decide +kernel), by decide +kernel, by decide +kernel,
    feedAll_lastWords, shutdownRequest_asks, by decide +kernel⟩

end

end Server

end BuildServer
