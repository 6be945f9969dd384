import BuildServer.Proofs.Server.Waits
import Mathlib.Data.Finset.Preimage

namespace BuildServer

def Entered (actions : List Action) : Prop :=
  ∃ before after, actions = before ++ .enterUpdate :: after ∧ .leaveUpdate ∉ after

theorem entered_append {actions : List Action} {a : Action} :
    Entered (actions ++ [a]) ↔ a = .enterUpdate ∨ Entered actions ∧ a ≠ .leaveUpdate := by
  constructor
  · rintro ⟨before, after, h, hl⟩
    rcases List.eq_nil_or_concat after with rfl | ⟨after, b, rfl⟩
    · obtain ⟨-, ha⟩ := List.append_inj' h rfl
      exact .inl (List.cons.inj ha).1
    · rw [List.concat_eq_append, ← List.cons_append, ← List.append_assoc] at h
      obtain ⟨rfl, ha⟩ := List.append_inj' h rfl
      obtain ⟨rfl, -⟩ := List.cons.inj ha
      rw [List.concat_eq_append, List.mem_append, not_or, List.mem_singleton] at hl
      exact .inr ⟨⟨before, after, rfl, hl.1⟩, Ne.symm hl.2⟩
  · rintro (rfl | ⟨⟨before, after, rfl, hl⟩, ha⟩)
    · exact ⟨actions, [], rfl, List.not_mem_nil⟩
    · refine ⟨before, after ++ [a], by rw [List.append_assoc, List.cons_append], ?_⟩
      rw [List.mem_append, not_or, List.mem_singleton]
      exact ⟨hl, Ne.symm ha⟩

theorem UpdateStage.entered_iff {role : Role} {actions : List Action} {st : UpdateStage}
    (h : actions.foldlM (next role) .outside = some st) : st = .inside ↔ Entered actions := by
  induction actions using List.reverseRecOn generalizing st with
  | nil =>
    obtain rfl := Option.some.inj h
    simp [Entered]
  | append_singleton actions a ih =>
    simp only [List.foldlM_append, List.foldlM_cons, List.foldlM_nil, bind_pure,
      Option.bind_eq_bind, Option.bind_eq_some_iff] at h
    obtain ⟨st₀, h₀, hn⟩ := h
    rw [entered_append, ← ih h₀]
    constructor
    · rintro rfl
      exact next_inside hn
    · rintro (rfl | ⟨rfl, ha⟩)
      · exact (next_enterUpdate hn).2
      · exact (inside_or_left hn).resolve_right ha

namespace Server

variable {κ : Type} {client : Client κ} {service : Service} {site : κ} {store : Store}
  {es : List Event} {e : Option Event} {s s' : Server κ} {who : Actor}

def Preparing (es : List Event) (i : Nat) : Prop :=
  (∃ m, WorksOn es i m ∧ m.request? = some .prepare) ∧ Entered (actionsOf (.task i) es)

/-- A background refresh is no longer in flight and has not left its update. -/
def Landing (es : List Event) (i : Nat) : Prop :=
  .did (.task i) .landRefresh ∈ es ∧ .did (.task i) .leaveUpdate ∉ es

structure Flights where
  accepted : List String
  inFlight : Bool

def Flights.after (f : Flights) : Event → Flights
  | .did _ (.requestRefresh reason) => if f.inFlight then f else ⟨f.accepted ++ [reason], true⟩
  | .did _ .landRefresh => { f with inFlight := false }
  | _ => f

def flights (es : List Event) : Flights := es.foldl .after ⟨[], false⟩

structure Accounted (client : Client κ) (service : Service) (es : List Event) (s : Server κ) : Prop where
  alone : ∀ i j, Running es i → Running es j → i = j
  underway : s.shared.state.inFlight = true ↔ s.shared.accepted ≠ [] ∨ ∃ i, Running es i
  depth : ∃ preparing landing : Finset Nat, (∀ i, i ∈ preparing ↔ Preparing es i) ∧
    (∀ i, i ∈ landing ↔ Landing es i) ∧
    s.shared.state.depth =
      preparing.card + (if s.shared.state.inFlight then 1 else 0) + landing.card
  inFlight : s.shared.state.inFlight = (flights es).inFlight
  started : es.countP isBegun + s.shared.accepted.length = (flights es).accepted.length
  dropped : ∀ m s' who reason, s.move client service m = some s' →
    s.event? m = some (.did who (.requestRefresh reason)) →
    if s.shared.state.inFlight then s'.shared = s.shared
    else s'.shared.state.inFlight = true ∧ s'.shared.accepted = s.shared.accepted ++ [reason]
  left : ∀ m s' who, s.move client service m = some s' → s.event? m = some (.did who .leaveUpdate) →
    s'.shared.state.depth + 1 = s.shared.state.depth

theorem flights_append (es : List Event) (e : Event) : flights (es ++ [e]) = (flights es).after e := by
  simp [flights]

structure Balanced (es : List Event) (s : Server κ) : Prop where
  inFlight : s.shared.state.inFlight = (flights es).inFlight
  started : es.countP isBegun + s.shared.accepted.length = (flights es).accepted.length

theorem Balanced.step (h : Balanced es s) (step : Step client service s e s') :
    Balanced (es ++ e.toList) s' := by
  obtain ⟨flying, started⟩ := h
  cases step with
  | quiet shared =>
    rw [Option.toList, List.append_nil]
    exact ⟨by rw [shared, flying], by rw [shared, started]⟩
  | notice m _ _ _ shared | request m _ _ _ _ _ shared =>
    rw [Option.toList]
    refine ⟨by rw [shared, flying, flights_append]; rfl, ?_⟩
    rw [shared, flights_append, List.countP_append]
    exact started
  | begun i reason rest accepted _ shared =>
    rw [Option.toList]
    refine ⟨by rw [shared, flights_append]; exact flying, ?_⟩
    rw [accepted, List.length_cons] at started
    have counted : (es ++ [Event.begun i]).countP isBegun = es.countP isBegun + 1 := List.countP_append
    rw [counted, shared, flights_append]
    exact (Nat.add_right_comm _ _ _).trans started
  | act who _ a _ _ _ answered =>
    have counted : (es ++ [Event.did who a]).countP isBegun = es.countP isBegun := List.countP_append
    rw [Option.toList]
    refine ⟨?_, ?_⟩
    · rw [Shared.perform_inFlight answered, flights_append]
      cases a with
      | requestRefresh reason =>
        dsimp only [Flights.after]
        split
        · rename_i busy
          exact busy.symm
        · rfl
      | landRefresh => rfl
      | _ => exact flying
    · rw [counted, Shared.perform_accepted answered, flights_append]
      cases a with
      | requestRefresh reason =>
        dsimp only [Flights.after]
        rw [flying]
        split
        · exact started
        · rw [List.length_append, List.length_append, ← started]
          rfl
      | _ => exact started

theorem balanced (run : Run client service (.initial site store) es s) : Balanced es s := by
  induction run with
  | start => exact ⟨rfl, rfl⟩
  | move _ m hm ih => exact ih.step (step_of_move hm)

section

variable (asks : service.AsksForRefresh)

include asks

theorem inUpdate_iff (run : Run client service (.initial site store) es s) :
    InUpdate es s who ↔ ∃ i, who = .task i ∧ Preparing es i := by
  constructor
  · rintro ⟨role, p, hp, hst⟩
    obtain rfl : role = .task .request := UpdateStage.suits_of_stage hst
    cases who with
    | reader => cases hp
    | task i =>
      have entered := (UpdateStage.entered_iff hst).1 rfl
      obtain ⟨m, works⟩ := (origins run).request hp
      obtain ⟨d, -, leads⟩ := (origins run).course i _ works
      refine ⟨i, rfl, ⟨m, works, ?_⟩, entered⟩
      by_contra hm
      obtain ⟨before, after, actions, -⟩ := entered
      apply (((Service.updates_nothing asks hm).leads leads).1 .enterUpdate _).1 rfl
      simp [actions]
  · rintro ⟨i, rfl, ⟨m, works, -⟩, entered⟩
    obtain ⟨d, hd, -⟩ := (origins run).course i _ works
    obtain ⟨st, hst, -⟩ := (Discipline.tracks (UpdateStage.kept asks) run).staged _ _ _ hd
    obtain rfl := (UpdateStage.entered_iff hst).2 entered
    exact ⟨_, d, hd, hst⟩

theorem landed_iff (run : Run client service (.initial site store) es s) :
    Landed es s who ↔ ∃ i, who = .task i ∧ Landing es i := by
  constructor
  · rintro ⟨role, p, hp, hst⟩
    obtain rfl : role = .task .refresh := UpdateStage.suits_of_stage hst
    cases who with
    | reader => cases hp
    | task i =>
      exact ⟨i, rfl, (UpdateStage.isLanded_iff hst).1 rfl, fun left => nomatch (UpdateStage.ended_iff hst).2 left⟩
  · rintro ⟨i, rfl, landed, inside⟩
    have tracks := Discipline.tracks (UpdateStage.kept asks) run
    cases hi : s.thread? (.task i) with
    | none =>
      have acted := mem_actionsOf.2 landed
      rw [(tracks.unborn i hi).1] at acted
      cases acted
    | some thread =>
      obtain ⟨role, p⟩ := thread
      obtain ⟨st, hst, -⟩ := tracks.staged _ _ _ hi
      have suits := UpdateStage.suits_of_stage hst
      have here := (UpdateStage.isLanded_iff hst).2 landed
      cases st with
      | landed => exact ⟨role, p, hi, hst⟩
      | ended =>
        obtain rfl : role = .task .refresh := suits
        exact absurd ((UpdateStage.ended_iff hst).1 rfl) inside
      | _ => cases here

omit asks in
theorem exists_tasks {actors : Finset Actor} {P : Nat → Prop}
    (tasks : ∀ who, who ∈ actors ↔ ∃ i, who = .task i ∧ P i) :
    ∃ inside : Finset Nat, (∀ i, i ∈ inside ↔ P i) ∧ inside.card = actors.card := by
  have injective : Function.Injective Actor.task := fun i j h => by simpa using h
  let inside : Finset Nat := actors.preimage .task injective.injOn
  have onto : (inside : Set Nat).SurjOn Actor.task actors := by
    intro who hwho
    obtain ⟨i, rfl, -⟩ := (tasks who).1 hwho
    exact ⟨i, Finset.mem_preimage.2 hwho, rfl⟩
  refine ⟨inside, fun i => by simp [inside, tasks], ?_⟩
  exact Finset.card_nbij _ (fun i => Finset.mem_preimage.1) injective.injOn onto

theorem exists_updating (run : Run client service (.initial site store) es s) :
    ∃ preparing landing : Finset Nat, (∀ i, i ∈ preparing ↔ Preparing es i) ∧
      (∀ i, i ∈ landing ↔ Landing es i) ∧
      s.shared.state.depth =
        preparing.card + (if s.shared.state.inFlight then 1 else 0) + landing.card := by
  obtain ⟨inside, landed, counted⟩ := exists_counted asks run
  obtain ⟨preparing, hpreparing, sameInside⟩ :=
    exists_tasks fun who => (counted.inside_iff who).trans (inUpdate_iff asks run)
  obtain ⟨landing, hlanding, sameLanded⟩ :=
    exists_tasks fun who => (counted.landed_iff who).trans (landed_iff asks run)
  exact ⟨preparing, landing, hpreparing, hlanding, by rw [counted.depth, sameInside, sameLanded]⟩

theorem depth_of_leaves (run : Run client service (.initial site store) es s)
    (step : Step client service s (some (.did who .leaveUpdate)) s') :
    s'.shared.state.depth + 1 = s.shared.state.depth := by
  obtain ⟨inside, landed, counted⟩ := exists_counted asks run
  have depth := counted.depth
  have present : 0 < inside.card + landed.card := by
    rcases updating_of_leaves (Discipline.tracks (UpdateStage.kept asks) run) step with ⟨h, -⟩ | ⟨h, -⟩
    · have := Finset.card_pos.2 ⟨who, (counted.inside_iff who).2 h⟩
      omega
    · have := Finset.card_pos.2 ⟨who, (counted.landed_iff who).2 h⟩
      omega
  have lowered : s'.shared.state.depth = s.shared.state.depth - 1 := by
    cases step with
    | act _ _ _ _ _ _ answered => exact Shared.perform_depth answered
  omega

/-- In every state that a server can come to, the depth is the number of preparations in their update, one
more if a background refresh is in flight, and of those that have landed and not left; it is never lowered
below zero. At most one background refresh runs, a request for one is dropped exactly when one is in flight,
and as many have begun or are about to as were accepted. -/
theorem updates_accounted (run : Run client service (.initial site store) es s) :
    Accounted client service es s := by
  have flight := singleFlight asks run
  have account := balanced run
  refine ⟨fun _ _ => flight.alone, ?underway, exists_updating asks run, account.inFlight, account.started,
    ?dropped, ?left⟩
  case underway =>
    constructor
    · intro busy
      rcases flight.busy busy with ⟨⟨reason, accepted⟩, -⟩ | ⟨-, k, running, -⟩
      · exact .inl (by simp [accepted])
      · exact .inr ⟨k, running⟩
    · intro under
      by_contra idle
      obtain ⟨nothing, nobody⟩ := flight.idle (Bool.eq_false_iff.2 idle)
      rcases under with waits | ⟨i, running⟩
      · exact waits nothing
      · exact nobody i running
  case dropped =>
    intro m s' who reason hm event
    have step := step_of_move hm
    rw [event] at step
    cases step with
    | act _ _ _ _ _ _ answered =>
      rcases Shared.perform_requestRefresh answered with ⟨busy, same⟩ | ⟨idle, now⟩
      · rwa [if_pos busy]
      · rw [idle, now]
        exact ⟨rfl, rfl⟩
  case left =>
    intro m s' who hm event
    have step := step_of_move hm
    rw [event] at step
    exact depth_of_leaves asks run step

end

section

def entered : List Event × Server Unit :=
  play emptyProject emptyService [.step 0]
    (dispatch emptyService prepareRequest { changed.2 with inbox := [] })

theorem run_entered : Run emptyProject emptyService (.initial () (.memory .empty))
    ([.taken someChange] ++ changed.1 ++ [.taken prepareRequest] ++ entered.1) entered.2 := by
  have prepare : Run emptyProject emptyService changed.2 [.taken prepareRequest] _ :=
    run_taken feed_prepareRequest (by decide +kernel) (by decide +kernel) (by decide +kernel)
  have rest : Run emptyProject emptyService _ entered.1 entered.2 := run_play _ _
  exact (run_changed.trans prepare).trans rest

theorem entered_in_flight : entered.2.shared.state.inFlight = true ∧ entered.2.shared.state.depth = 2 := by
  decide +kernel

theorem refresh_and_prepare_accounted : ∃ es, ∃ preparing landing : Finset Nat,
    Run emptyProject emptyService (.initial () (.memory .empty)) es entered.2 ∧
      (∀ i, i ∈ preparing ↔ Preparing es i) ∧ (∀ i, i ∈ landing ↔ Landing es i) ∧
      preparing.card + landing.card = 1 := by
  obtain ⟨busy, two⟩ := entered_in_flight
  obtain ⟨preparing, landing, hpreparing, hlanding, depth⟩ :=
    (updates_accounted (fun _ => rfl) run_entered).depth
  rw [busy, two, if_pos rfl] at depth
  exact ⟨_, preparing, landing, run_entered, hpreparing, hlanding, by omega⟩

end

def DepthCounts (client : Client κ) (service : Service) (site : κ) (store : Store) : Prop :=
  ∀ es s, Run client service (.initial site store) es s → ∃ preparing : Finset Nat,
    (∀ i, i ∈ preparing ↔ Preparing es i) ∧
      s.shared.state.depth = preparing.card + if s.shared.state.inFlight then 1 else 0

def BegunWhenAccepted (client : Client κ) (service : Service) (site : κ) (store : Store) : Prop :=
  ∀ es s, Run client service (.initial site store) es s →
    es.countP isBegun = (flights es).accepted.length

section

def landing : List Event × Server Unit :=
  play emptyProject emptyService (.beginRefresh :: List.replicate 7 (.step 0)) changed.2

def isEntering : Event → Bool
  | .did _ .enterUpdate => true
  | _ => false

theorem landing_counts : landing.2.shared.state.inFlight = false ∧ landing.2.shared.state.depth = 1 ∧
    ([Event.taken someChange] ++ changed.1 ++ landing.1).any isEntering = false := by
  decide +kernel

theorem accounts_between_steps : ¬DepthCounts emptyProject emptyService () (.memory .empty) ∧
    ¬BegunWhenAccepted emptyProject emptyService () (.memory .empty) := by
  constructor
  · intro counts
    obtain ⟨idle, one, nobody⟩ := landing_counts
    have run : Run emptyProject emptyService changed.2 landing.1 landing.2 := run_play _ _
    obtain ⟨preparing, hpreparing, depth⟩ := counts _ _ (run_changed.trans run)
    have some_preparing : 0 < preparing.card := by
      rw [idle, one, if_neg Bool.false_ne_true] at depth
      omega
    obtain ⟨i, hi⟩ := Finset.card_pos.1 some_preparing
    obtain ⟨-, before, after, actions, -⟩ := (hpreparing i).1 hi
    have entered : .enterUpdate ∈ before ++ .enterUpdate :: after := by simp
    rw [← actions] at entered
    exact List.any_eq_false.1 nobody _ (mem_actionsOf.1 entered) rfl
  · intro begun
    have waits : ([Event.taken someChange] ++ changed.1).countP isBegun ≠
        (flights ([.taken someChange] ++ changed.1)).accepted.length := by decide +kernel
    exact waits (begun _ _ run_changed)

end

end Server

end BuildServer
