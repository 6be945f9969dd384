import Mathlib.Data.Finset.Card
import BuildServer.Proofs.Server.SingleFlight

/-!
Updates in progress. The depth counts the preparations that have entered their update and not left it,
the background refresh in flight, and those that have landed and not left their update.
-/

namespace BuildServer

inductive UpdateStage where
  | outside
  | inside
  | left
  | recorded
  | drained
  | landed
  | ended
  deriving DecidableEq, Repr

namespace UpdateStage

def next (role : Role) : UpdateStage → Action → Option UpdateStage
  | .outside, .enterUpdate => if role = .task .request then some .inside else none
  | .outside, .record _ => if role = .task .refresh then some .recorded else none
  | .outside, .drain => if role = .task .refresh then some .drained else none
  | .inside, .record _ => some .inside
  | .inside, .leaveUpdate => if role = .task .request then some .left else none
  | .left, .drain => some .outside
  | .left, _ => none
  | .recorded, .drain => some .drained
  | .drained, .landRefresh => some .landed
  | .landed, .leaveUpdate => some .ended
  | .landed, _ => none
  | .ended, _ => none
  | st, .send _ => some st
  | st, a => if a.isPlain then some st else none

def discipline : Server.Discipline UpdateStage where
  start := .outside
  next := next
  rest
    | .task .refresh, st => st = .ended
    | _, st => st = .outside

def Suits (role : Role) : UpdateStage → Prop
  | .outside => True
  | .inside => role = .task .request
  | .left => role = .task .request
  | _ => role = .task .refresh

def isFree : UpdateStage → Bool
  | .left => false
  | .landed => false
  | .ended => false
  | _ => true

def isLanded : UpdateStage → Bool
  | .landed => true
  | .ended => true
  | _ => false

open Service (Plain Building Telling)

variable {α : Type} {role : Role} {st st' : UpdateStage} {a : Action} {s : Service}

def isQuiet : Action → Bool
  | .send _ => true
  | a => a.isPlain

inductive Passes (role : Role) : UpdateStage → Action → UpdateStage → Prop
  | enter (request : role = .task .request) : Passes role .outside .enterUpdate .inside
  | build (c : Changes) : Passes role .inside (.record c) .inside
  | leave (request : role = .task .request) : Passes role .inside .leaveUpdate .left
  | tell : Passes role .left .drain .outside
  | refresh (c : Changes) (refreshes : role = .task .refresh) : Passes role .outside (.record c) .recorded
  | drain : Passes role .recorded .drain .drained
  | fail (refreshes : role = .task .refresh) : Passes role .outside .drain .drained
  | land : Passes role .drained .landRefresh .landed
  | finish : Passes role .landed .leaveUpdate .ended
  | stay (st : UpdateStage) (a : Action) (free : st.isFree = true) (quiet : isQuiet a = true) :
      Passes role st a st

theorem quiet_of_plain (h : a.isPlain = true) : isQuiet a = true := by
  cases a <;> first | rfl | cases h

theorem next_quiet (free : st.isFree = true) (h : isQuiet a = true) : next role st a = some st := by
  cases st with
  | left | landed | ended => cases free
  | _ => cases a <;> first | rfl | cases h

theorem next_plain (free : st.isFree = true) (h : a.isPlain = true) : next role st a = some st :=
  next_quiet free (quiet_of_plain h)

theorem next_send (free : st.isFree = true) (m : Outgoing) : next role st (.send m) = some st :=
  next_quiet free rfl

/-- All that an action does to a stage. -/
theorem passes_of_next (h : next role st a = some st') : Passes role st a st' := by
  have free : st ≠ .left → st ≠ .landed → st ≠ .ended → st.isFree = true := by
    cases st <;> simp [isFree]
  revert h
  fun_cases next role st a <;> rintro ⟨⟩
  case case17 left landed ended => exact .stay _ _ (free left landed ended) rfl
  case case18 left landed ended _ plain _ _ _ _ _ _ _ _ _ =>
    exact .stay _ _ (free left landed ended) (quiet_of_plain plain)
  all_goals constructor <;> assumption

theorem next_suits (hs : st.Suits role) (h : next role st a = some st') : st'.Suits role := by
  cases passes_of_next h <;> trivial

theorem suits_of_stage {who : Actor} {es : List Event}
    (h : discipline.stage? role who es = some st) : st.Suits role :=
  Server.Discipline.stage?_invariant (d := discipline) (P := Suits role) trivial
    (fun _ _ _ => next_suits) h

theorem next_inside (h : next role st a = some .inside) :
    a = .enterUpdate ∨ st = .inside ∧ a ≠ .leaveUpdate := by
  cases passes_of_next h with
  | enter => exact .inl rfl
  | build => exact .inr ⟨rfl, nofun⟩
  | stay _ _ _ quiet => exact .inr ⟨rfl, by rintro rfl; cases quiet⟩

theorem next_enterUpdate (h : next role st .enterUpdate = some st') :
    st = .outside ∧ st' = .inside := by
  cases passes_of_next h with
  | enter => exact ⟨rfl, rfl⟩
  | stay _ _ _ quiet => cases quiet

theorem next_leaveUpdate (h : next role st .leaveUpdate = some st') :
    st = .inside ∧ st' = .left ∨ st = .landed ∧ st' = .ended := by
  cases passes_of_next h with
  | leave => exact .inl ⟨rfl, rfl⟩
  | finish => exact .inr ⟨rfl, rfl⟩
  | stay _ _ _ quiet => cases quiet

theorem inside_or_left (h : next role .inside a = some st') : st' = .inside ∨ a = .leaveUpdate := by
  cases passes_of_next h with
  | leave => exact .inr rfl
  | _ => exact .inl rfl

theorem next_landed (h : next role st a = some .landed) :
    a = .landRefresh ∨ st = .landed ∧ a ≠ .leaveUpdate := by
  cases passes_of_next h with
  | land => exact .inl rfl
  | stay _ _ free => cases free

theorem next_landRefresh (h : next role st .landRefresh = some st') :
    st = .drained ∧ st' = .landed := by
  cases passes_of_next h with
  | land => exact ⟨rfl, rfl⟩
  | stay _ _ _ quiet => cases quiet

theorem next_ended (h : next role st a = some .ended) : st = .landed ∧ a = .leaveUpdate := by
  cases passes_of_next h with
  | finish => exact ⟨rfl, rfl⟩
  | stay _ _ free => cases free

theorem next_drain (hs : st.Suits role) (h : next role st .drain = some st') (away : st ≠ .left) :
    role = .task .refresh ∧ st.isLanded = false := by
  cases passes_of_next h with
  | tell => exact absurd rfl away
  | drain => exact ⟨hs, rfl⟩
  | fail refreshes => exact ⟨refreshes, rfl⟩
  | stay _ _ _ quiet => cases quiet

theorem isLanded_next (h : next role st a = some st') :
    st'.isLanded = true ↔ a = .landRefresh ∨ st.isLanded = true := by
  cases passes_of_next h with
  | stay _ _ free quiet =>
    refine ⟨.inr, fun landed => landed.resolve_left ?_⟩
    rintro rfl
    cases quiet
  | _ => simp [isLanded]

theorem isLanded_iff {who : Actor} {es : List Event} (h : discipline.stage? role who es = some st) :
    st.isLanded = true ↔ .did who .landRefresh ∈ es :=
  Server.Discipline.stage?_mem_iff (d := discipline) (P := (·.isLanded = true)) nofun
    (fun _ _ _ => isLanded_next) h

theorem ended_iff {who : Actor} {es : List Event}
    (h : discipline.stage? (.task .refresh) who es = some st) : st = .ended ↔ .did who .leaveUpdate ∈ es := by
  refine Server.Discipline.stage?_mem_iff (d := discipline) (P := (· = .ended)) nofun ?_ h
  intro st a st' hn
  constructor
  · rintro rfl
    exact .inl (next_ended hn).2
  · rintro (rfl | rfl)
    · rcases next_leaveUpdate hn with ⟨rfl, -⟩ | ⟨-, rfl⟩
      · cases hn
      · rfl
    · cases hn

theorem landed_or_left (h : next role .landed a = some st') : st' = .landed ∨ a = .leaveUpdate := by
  cases passes_of_next h with
  | finish => exact .inr rfl
  | stay _ _ free => cases free

theorem keeps_plain {p : Program α} (free : st.isFree = true) (h : Plain p) :
    p.Keeps (next role) (fun st' _ => st' = st) st :=
  Dialogue.Asks.keeps h fun _ => next_plain free

theorem keeps_telling {p : Program α} (free : st.isFree = true) (h : Telling p) :
    p.Keeps (next role) (fun st' _ => st' = st) st := by
  apply Dialogue.Asks.keeps h
  rintro a (ha | ha)
  · exact next_plain free (Service.plain_of_look ha)
  · cases a with
    | send m => exact next_send free m
    | _ => cases ha

theorem keeps_building {p : Program α} (h : Building p) :
    p.Keeps (next role) (fun st _ => st = .inside) .inside := by
  apply Dialogue.Asks.keeps h
  rintro a (ha | ha)
  · exact next_plain rfl ha
  · cases a with
    | record c => rfl
    | _ => cases ha

theorem keeps_prepare (s : Service) (uris : List String) :
    (s.prepare uris).Keeps (next (.task .request)) (fun st _ => st = .outside) .outside := by
  rw [Service.prepare_eq]
  refine ⟨.inside, rfl, fun _ => (Dialogue.keeps_bind _ _).2 ?_⟩
  apply (keeps_building (Service.building_prepareTargets s uris)).mono
  rintro _ result rfl
  refine ⟨.left, rfl, fun _ => ⟨.outside, rfl, fun changes => (Dialogue.keeps_bind _ _).2 ?_⟩⟩
  apply (keeps_telling rfl (Service.telling_tell s changes)).mono
  rintro _ _ rfl
  rfl

theorem keeps_backgroundRefresh (s : Service) :
    s.backgroundRefresh.Keeps (next (.task .refresh)) (fun st _ => st = .ended) .outside := by
  rw [Service.backgroundRefresh_eq, Dialogue.keeps_bind]
  have tells (changes : Changes) :
      ((s.tell changes).bind fun _ => .ask .landRefresh fun _ => .ask .leaveUpdate .done :
        Program Unit).Keeps (next (.task .refresh)) (fun st _ => st = .ended) .drained := by
    rw [Dialogue.keeps_bind]
    apply (keeps_telling rfl (Service.telling_tell s changes)).mono
    rintro _ _ rfl
    exact ⟨.landed, rfl, fun _ => ⟨.ended, rfl, fun _ => rfl⟩⟩
  apply (Dialogue.keeps_bind _ _).2
  apply (keeps_plain rfl (Service.plain_refresh s false)).mono
  rintro _ built rfl
  cases built with
  | error e => exact ⟨.drained, rfl, tells⟩
  | ok r => exact ⟨.recorded, rfl, fun _ => ⟨.drained, rfl, tells⟩⟩

section

variable (asks : s.AsksForRefresh)

include asks

theorem keeps_handle (m : Incoming) (r : Request) :
    (s.handle m r).Keeps (next (.task .request)) (fun st _ => st = .outside) .outside := by
  by_cases h : r = .prepare
  · subst h
    unfold Service.handle Service.withParams
    dsimp only
    split
    · rfl
    · apply (Dialogue.keeps_bind _ _).2
      apply (keeps_prepare s _).mono
      rintro _ result rfl
      cases result <;> rfl
  · exact keeps_plain rfl (Service.plain_handle asks m h)

theorem keeps_respond (r : Option Request) (m : Incoming) :
    (s.respond r m).Keeps (next (.task .request)) (fun st _ => st = .outside) .outside := by
  cases hid : m.id with
  | none =>
    rw [Service.respond_anonymous hid]
    rfl
  | some id =>
    cases r with
    | none =>
      rw [Service.respond_unknown hid]
      exact ⟨.outside, rfl, fun _ => rfl⟩
    | some r =>
      rw [Service.respond_request hid, Dialogue.keeps_bind]
      apply (keeps_handle asks m r).mono
      rintro _ reply rfl
      exact ⟨.outside, rfl, fun _ => rfl⟩

theorem kept : discipline.Kept s where
  start := rfl
  notice m n st h := by
    obtain rfl : st = .outside := h
    exact keeps_plain rfl (Service.plain_notice asks m n)
  request r m := keeps_respond asks r m
  refresh := keeps_backgroundRefresh s

end

end UpdateStage

namespace Server

open UpdateStage (discipline)

variable {κ : Type} {client : Client κ} {service : Service} {site : κ} {store : Store}
  {es : List Event} {e : Option Event} {s s' : Server κ} {who : Actor}

def InUpdate (es : List Event) (s : Server κ) (who : Actor) : Prop :=
  discipline.At es s who .inside

def Landed (es : List Event) (s : Server κ) (who : Actor) : Prop :=
  discipline.At es s who .landed

theorem at_iff {stage : UpdateStage} {enter leave : Action}
    (into : ∀ {role st a}, UpdateStage.next role st a = some stage → a = enter ∨ st = stage ∧ a ≠ leave)
    (enters : ∀ {role st st'}, UpdateStage.next role st enter = some st' → st' = stage)
    (leaves : ∀ {role a st'}, UpdateStage.next role stage a = some st' → st' = stage ∨ a = leave)
    (away : stage ≠ .outside) (tracks : discipline.Tracks es s)
    (after : discipline.Tracks (es ++ e.toList) s') (step : Step client service s e s') :
    discipline.At (es ++ e.toList) s' who stage ↔
      e = some (.did who enter) ∨ discipline.At es s who stage ∧ e ≠ some (.did who leave) := by
  constructor
  · intro h
    rcases Discipline.at_step tracks step h with hs | ⟨hat, hn⟩ | ⟨st, a, role, rfl, hat, hn⟩
    · exact absurd hs away
    · exact .inr ⟨hat, hn _⟩
    · rcases into hn with rfl | ⟨rfl, ha⟩
      · exact .inl rfl
      · exact .inr ⟨hat, by simpa using ha⟩
  · rintro (rfl | ⟨h, hl⟩)
    · obtain ⟨role, st, _, hat, -⟩ := tracks.acted step
      rcases hat.step step after with ⟨-, hn⟩ | ⟨a, st', role, he, hn, hnow⟩
      · exact absurd rfl (hn _)
      · obtain rfl : enter = a := by simpa using he
        exact enters hn ▸ hnow
    · rcases Discipline.At.step h step after with ⟨hat, -⟩ | ⟨a, st', role, rfl, hn, hnow⟩
      · exact hat
      · rcases leaves hn with rfl | rfl
        · exact hnow
        · exact absurd rfl hl

theorem inUpdate_step (tracks : discipline.Tracks es s)
    (after : discipline.Tracks (es ++ e.toList) s') (step : Step client service s e s') :
    InUpdate (es ++ e.toList) s' who ↔
      e = some (.did who .enterUpdate) ∨ InUpdate es s who ∧ e ≠ some (.did who .leaveUpdate) :=
  at_iff UpdateStage.next_inside (fun h => (UpdateStage.next_enterUpdate h).2) UpdateStage.inside_or_left
    nofun tracks after step

theorem landed_step (tracks : discipline.Tracks es s)
    (after : discipline.Tracks (es ++ e.toList) s') (step : Step client service s e s') :
    Landed (es ++ e.toList) s' who ↔
      e = some (.did who .landRefresh) ∨ Landed es s who ∧ e ≠ some (.did who .leaveUpdate) :=
  at_iff UpdateStage.next_landed (fun h => (UpdateStage.next_landRefresh h).2) UpdateStage.landed_or_left
    nofun tracks after step

theorem not_inUpdate_of_enters (tracks : discipline.Tracks es s)
    (step : Step client service s (some (.did who .enterUpdate)) s') : ¬InUpdate es s who := by
  obtain ⟨role, st, st', h, hn⟩ := tracks.acted step
  obtain ⟨rfl, -⟩ := UpdateStage.next_enterUpdate hn
  intro hin
  cases h.unique hin

theorem not_landed_of_lands (tracks : discipline.Tracks es s)
    (step : Step client service s (some (.did who .landRefresh)) s') : ¬Landed es s who := by
  obtain ⟨role, st, st', h, hn⟩ := tracks.acted step
  obtain ⟨rfl, -⟩ := UpdateStage.next_landRefresh hn
  intro landed
  cases h.unique landed

theorem updating_of_leaves (tracks : discipline.Tracks es s)
    (step : Step client service s (some (.did who .leaveUpdate)) s') :
    InUpdate es s who ∧ ¬Landed es s who ∨ Landed es s who ∧ ¬InUpdate es s who := by
  obtain ⟨role, st, st', h, hn⟩ := tracks.acted step
  rcases UpdateStage.next_leaveUpdate hn with ⟨rfl, -⟩ | ⟨rfl, -⟩
  · exact .inl ⟨h, fun landed => by cases h.unique landed⟩
  · exact .inr ⟨h, fun inside => by cases h.unique inside⟩

theorem inFlight_of_lands (asks : service.AsksForRefresh)
    (run : Run client service (.initial site store) es s)
    (step : Step client service s (some (.did who .landRefresh)) s') :
    s.shared.state.inFlight = true := by
  have kept := RefreshStage.kept_of_asksForRefresh asks
  obtain ⟨i, -, running⟩ := running_of_lands (Discipline.tracks kept run) step
  by_contra idle
  exact ((singleFlight asks run).idle (Bool.eq_false_iff.2 idle)).2 i running

/-- The depth counts who is in an update, the background refresh in flight, and those that have landed. -/
structure Counted (es : List Event) (s : Server κ) (inside landed : Finset Actor) : Prop where
  inside_iff : ∀ who, who ∈ inside ↔ InUpdate es s who
  landed_iff : ∀ who, who ∈ landed ↔ Landed es s who
  depth : s.shared.state.depth =
    inside.card + (if s.shared.state.inFlight then 1 else 0) + landed.card

theorem Counted.step {inside landed : Finset Actor} (h : Counted es s inside landed)
    (tracks : discipline.Tracks es s) (after : discipline.Tracks (es ++ e.toList) s')
    (step : Step client service s e s')
    (lands : ∀ who, e = some (.did who .landRefresh) → s.shared.state.inFlight = true) :
    ∃ inside' landed', Counted (es ++ e.toList) s' inside' landed' := by
  have sameInside (he : ∀ who, e ≠ some (.did who .enterUpdate))
      (hl : ∀ who, e ≠ some (.did who .leaveUpdate)) (who : Actor) :
      who ∈ inside ↔ InUpdate (es ++ e.toList) s' who := by
    rw [inUpdate_step tracks after step, h.inside_iff]
    simp [he who, hl who]
  have sameLanded (he : ∀ who, e ≠ some (.did who .landRefresh))
      (hl : ∀ who, e ≠ some (.did who .leaveUpdate)) (who : Actor) :
      who ∈ landed ↔ Landed (es ++ e.toList) s' who := by
    rw [landed_step tracks after step, h.landed_iff]
    simp [he who, hl who]
  have hdepth := h.depth
  rcases step.effect with ⟨other, accepted, shared⟩ | ⟨who, role, a, go, answer, rfl, here, answered⟩
  · refine ⟨inside, landed, sameInside (fun w => other w _) (fun w => other w _),
      sameLanded (fun w => other w _) (fun w => other w _), ?_⟩
    rw [shared]
    exact hdepth
  · have hd := Shared.perform_depth answered
    have hf := Shared.perform_inFlight answered
    cases a with
    | enterUpdate =>
      have fresh := not_inUpdate_of_enters tracks step
      rw [← h.inside_iff] at fresh
      refine ⟨insert who inside, landed, fun w => ?_, sameLanded (by simp) (by simp), ?_⟩
      · rw [inUpdate_step tracks after step, Finset.mem_insert, h.inside_iff]
        simp [eq_comm]
      · dsimp only at hd hf
        rw [hd, hf, Finset.card_insert_of_notMem fresh]
        omega
    | leaveUpdate =>
      -- Of the two sets, the one that has the leaver loses it.
      refine ⟨inside.erase who, landed.erase who, fun w => ?_, fun w => ?_, ?_⟩
      · rw [inUpdate_step tracks after step, Finset.mem_erase, h.inside_iff]
        simp [eq_comm, and_comm]
      · rw [landed_step tracks after step, Finset.mem_erase, h.landed_iff]
        simp [eq_comm, and_comm]
      dsimp only at hd hf
      rcases updating_of_leaves tracks step with ⟨here, other⟩ | ⟨here, other⟩
      · rw [← h.inside_iff] at here
        rw [← h.landed_iff] at other
        have hpos := Finset.card_pos.2 ⟨who, here⟩
        rw [hd, hf, Finset.card_erase_of_mem here, Finset.erase_eq_of_notMem other]
        omega
      · rw [← h.landed_iff] at here
        rw [← h.inside_iff] at other
        have hpos := Finset.card_pos.2 ⟨who, here⟩
        rw [hd, hf, Finset.card_erase_of_mem here, Finset.erase_eq_of_notMem other]
        omega
    | requestRefresh reason =>
      refine ⟨inside, landed, sameInside (by simp) (by simp), sameLanded (by simp) (by simp), ?_⟩
      dsimp only at hd hf
      rw [hd, hf]
      cases hc : s.shared.state.inFlight
      · rw [hc] at hdepth
        simp only [Bool.false_eq_true, if_false, if_true] at hdepth ⊢
        omega
      · rw [hc] at hdepth
        simpa using hdepth
    | landRefresh =>
      -- Nobody leaves here: the depth counts the same refresh in another place.
      have fresh := not_landed_of_lands tracks step
      rw [← h.landed_iff] at fresh
      refine ⟨inside, insert who landed, sameInside (by simp) (by simp), fun w => ?_, ?_⟩
      · rw [landed_step tracks after step, Finset.mem_insert, h.landed_iff]
        simp [eq_comm]
      · rw [lands who rfl, if_pos rfl] at hdepth
        dsimp only at hd hf
        rw [hd, hf, Finset.card_insert_of_notMem fresh, hdepth]
        simp only [Bool.false_eq_true, if_false]
        omega
    | _ =>
      exact ⟨inside, landed, sameInside (by simp) (by simp), sameLanded (by simp) (by simp),
        by rw [hd, hf, hdepth]⟩

theorem exists_counted (asks : service.AsksForRefresh)
    (run : Run client service (.initial site store) es s) :
    ∃ inside landed, Counted es s inside landed := by
  have kept := UpdateStage.kept asks
  induction run with
  | start =>
    have nobody {st : UpdateStage} (who : Actor) (away : st ≠ .outside) :
        who ∈ (∅ : Finset Actor) ↔ discipline.At [] (Server.initial site store : Server κ) who st :=
      ⟨fun h => absurd h (Finset.notMem_empty who), fun ⟨_, _, _, h⟩ => absurd (Option.some.inj h).symm away⟩
    exact ⟨∅, ∅, fun who => nobody who nofun, fun who => nobody who nofun, rfl⟩
  | move before m hm ih =>
    obtain ⟨inside, landed, h⟩ := ih
    have step := step_of_move hm
    have tracks := Discipline.tracks kept before
    apply h.step tracks (tracks.step kept step) step
    intro who he
    rw [he] at step
    exact inFlight_of_lands asks before step

theorem idle_of_depth (asks : service.AsksForRefresh)
    (run : Run client service (.initial site store) es s) (zero : s.shared.state.depth = 0) :
    s.shared.state.inFlight = false ∧ (∀ who, ¬InUpdate es s who) ∧ ∀ who, ¬Landed es s who := by
  obtain ⟨inside, landed, h⟩ := exists_counted asks run
  have hdepth := h.depth
  rw [zero] at hdepth
  have noneInside : inside.card = 0 := by omega
  have noneLanded : landed.card = 0 := by omega
  refine ⟨?_, fun who hin => ?_, fun who hland => ?_⟩
  · by_contra hf
    rw [Bool.not_eq_false] at hf
    rw [if_pos hf] at hdepth
    omega
  · rw [← h.inside_iff, Finset.card_eq_zero.1 noneInside] at hin
    cases Finset.notMem_empty who hin
  · rw [← h.landed_iff, Finset.card_eq_zero.1 noneLanded] at hland
    cases Finset.notMem_empty who hland

end Server

end BuildServer
