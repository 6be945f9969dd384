import BuildServer.Proofs.Server.Effects
import BuildServer.Proofs.Server.RefreshStages

/-!
Refreshes exclude each other, and at most one background refresh is in flight: it has been accepted and
not begun, or it has begun and not landed.
-/

namespace BuildServer

namespace RefreshStage

variable {role : Role} {st st' : RefreshStage} {a : Action}

theorem next_inside (h : next role st a = some st') (hi : st'.isInside = true) :
    a = .beginRefresh ∨ st.isInside = true ∧ a ≠ .finishRefresh := by
  cases passes_of_next h with
  | begin => exact .inl rfl
  | ask | probe | replace => exact .inr ⟨rfl, nofun⟩
  | _ => cases hi

theorem next_finishRefresh (h : next role st .finishRefresh = some st') : st.isInside = true := by
  cases passes_of_next h with
  | fail | finish => rfl
  | stay _ _ aside => cases aside

theorem next_entered (h : next role st a = some .entered) : a = .beginRefresh := by
  cases passes_of_next h
  rfl

theorem next_beginRefresh (h : next role st .beginRefresh = some st') : st' = .entered := by
  cases passes_of_next h with
  | begin => rfl
  | stay _ _ aside => cases aside

theorem inside_of_beginRefresh (h : next role st .beginRefresh = some st') :
    st.isInside = false := by
  cases passes_of_next h <;> rfl

theorem call_of_entered (h : next role .entered a = some st') : ∃ c, a = .probe (.call c) := by
  cases a with
  | probe p =>
    cases p with
    | call c => exact ⟨c, rfl⟩
    | files => cases h
  | _ => cases h

theorem inside_of_replaceSnapshot {new : Snapshot}
    (h : next role st (.replaceSnapshot new) = some st') : st.isInside = true ∧ st ≠ .entered := by
  cases passes_of_next h with
  | replace => exact ⟨rfl, nofun⟩
  | stay _ _ aside => cases aside

theorem next_ended (h : next role st a = some .ended) : st = .landed ∧ a = .leaveUpdate := by
  cases passes_of_next h
  exact ⟨rfl, rfl⟩

theorem next_landRefresh (h : next role st .landRefresh = some st') :
    role = .task .refresh ∧ st = .outside true ∧ st' = .landed := by
  cases passes_of_next h with
  | land refreshes => exact ⟨refreshes, rfl, rfl⟩
  | stay _ _ aside => cases aside

theorem isLanded_next (h : next role st a = some st') :
    st'.isLanded = true ↔ a = .landRefresh ∨ st.isLanded = true := by
  cases passes_of_next h with
  | stay _ _ aside =>
    refine ⟨.inr, fun landed => landed.resolve_left ?_⟩
    rintro rfl
    cases aside
  | _ => simp [isLanded]

theorem isLanded_iff {who : Actor} {es : List Event} (h : discipline.stage? role who es = some st) :
    st.isLanded = true ↔ .did who .landRefresh ∈ es :=
  Server.Discipline.stage?_mem_iff (d := discipline) (P := (·.isLanded = true)) nofun
    (fun _ _ _ => isLanded_next) h

theorem kept_of_asksForRefresh {s : Service} (h : s.AsksForRefresh) : discipline.Kept s :=
  kept fun _ reason => h reason ▸ aside_act rfl

end RefreshStage

namespace Server

open RefreshStage (discipline)

variable {κ : Type} {client : Client κ} {service : Service} {site : κ} {store : Store}
  {es : List Event} {e : Option Event} {s s' : Server κ} {who who' : Actor} {st st' : RefreshStage}

def At (es : List Event) (s : Server κ) (who : Actor) (st : RefreshStage) : Prop :=
  ∃ role p, s.thread? who = some (role, p) ∧ discipline.stage? role who es = some st

theorem at_step (tracks : discipline.Tracks es s) (step : Step client service s e s')
    (h : At (es ++ e.toList) s' who st') :
    st' = .outside false ∨ (At es s who st' ∧ ∀ a, e ≠ some (.did who a)) ∨
      ∃ st a role, e = some (.did who a) ∧ At es s who st ∧ discipline.next role st a = some st' :=
  Discipline.at_step tracks step h

structure Exclusive (es : List Event) (s : Server κ) : Prop where
  locked : ∀ who st, At es s who st → st.isInside = true → s.shared.refreshing = true
  alone : ∀ who who' st st', At es s who st → At es s who' st' → st.isInside = true →
    st'.isInside = true → who = who'

theorem inside_step (tracks : discipline.Tracks es s) (step : Step client service s e s')
    (h : At (es ++ e.toList) s' who st') (hi : st'.isInside = true) :
    e = some (.did who .beginRefresh) ∨
      ∃ st, At es s who st ∧ st.isInside = true ∧ e ≠ some (.did who .finishRefresh) := by
  rcases at_step tracks step h with rfl | ⟨h, hn⟩ | ⟨st, a, role, rfl, h, hn⟩
  · cases hi
  · exact .inr ⟨st', h, hi, hn _⟩
  · rcases RefreshStage.next_inside hn hi with rfl | ⟨hs, ha⟩
    · exact .inl rfl
    · exact .inr ⟨st, h, hs, by simpa using ha⟩

theorem refreshing_step (tracks : discipline.Tracks es s) (step : Step client service s e s') :
    s'.shared.refreshing = s.shared.refreshing ∨
      (∃ who, e = some (.did who .beginRefresh)) ∧ s.shared.refreshing = false ∧
        s'.shared.refreshing = true ∨
      ∃ who st, e = some (.did who .finishRefresh) ∧ At es s who st ∧ st.isInside = true := by
  rcases step.effect with ⟨-, accepted, shared⟩ | ⟨who, role, a, go, answer, rfl, here, answered⟩
  · exact .inl (by rw [shared])
  · have hr := Shared.perform_refreshing answered
    cases a with
    | beginRefresh => exact .inr (.inl ⟨⟨who, rfl⟩, Shared.perform_beginRefresh answered, hr⟩)
    | finishRefresh =>
      obtain ⟨st, hst, st', hn, -⟩ := tracks.staged who role _ here
      exact .inr (.inr ⟨who, st, rfl, ⟨role, _, here, hst⟩, RefreshStage.next_finishRefresh hn⟩)
    | _ => exact .inl hr

theorem Exclusive.step (h : Exclusive es s) (tracks : discipline.Tracks es s)
    (step : Step client service s e s') : Exclusive (es ++ e.toList) s' where
  locked who st hw hi := by
    rcases inside_step tracks step hw hi with rfl | ⟨st₀, h₀, hi₀, hf⟩
    · cases step with
      | act _ _ _ _ _ _ answered => exact Shared.perform_refreshing answered
    · rcases refreshing_step tracks step with hr | ⟨-, -, hr⟩ | ⟨w, st₁, rfl, h₁, hi₁⟩
      · rw [hr]
        exact h.locked who st₀ h₀ hi₀
      · exact hr
      · exact absurd (by rw [h.alone w who st₁ st₀ h₁ h₀ hi₁ hi₀]) hf
  alone who who' st st' hw hw' hi hi' := by
    rcases inside_step tracks step hw hi with rfl | ⟨st₀, h₀, hi₀, -⟩
    · rcases inside_step tracks step hw' hi' with he | ⟨st₁, h₁, hi₁, -⟩
      · simpa using he
      · cases step with
        | act _ _ _ _ _ _ answered =>
          have hr := h.locked who' st₁ h₁ hi₁
          rw [Shared.perform_beginRefresh answered] at hr
          cases hr
    · rcases inside_step tracks step hw' hi' with rfl | ⟨st₁, h₁, hi₁, -⟩
      · cases step with
        | act _ _ _ _ _ _ answered =>
          have hr := h.locked who st₀ h₀ hi₀
          rw [Shared.perform_beginRefresh answered] at hr
          cases hr
      · exact h.alone who who' st₀ st₁ h₀ h₁ hi₀ hi₁

theorem exclusive (asks : service.AsksForRefresh)
    (run : Run client service (.initial site store) es s) : Exclusive es s := by
  have kept := RefreshStage.kept_of_asksForRefresh asks
  induction run with
  | start =>
    have hout : ∀ who st, At [] (Server.initial site store : Server κ) who st →
        st.isInside = false := by
      rintro who st ⟨role, p, -, hst⟩
      rw [← Option.some.inj hst]
      rfl
    exact ⟨fun who st h hi => by simp [hout who st h] at hi,
      fun who _ st _ h _ hi => by simp [hout who st h] at hi⟩
  | move before m hm ih => exact ih.step (Discipline.tracks kept before) (step_of_move hm)

def Running (es : List Event) (i : Nat) : Prop :=
  .begun i ∈ es ∧ .did (.task i) .landRefresh ∉ es

theorem running_step {i : Nat} (h : Running (es ++ e.toList) i) :
    Running es i ∨ e = some (.begun i) := by
  obtain ⟨begun, going⟩ := h
  rw [List.mem_append, not_or] at going
  rcases List.mem_append.1 begun with begun | now
  · exact .inl ⟨begun, going.1⟩
  · exact .inr (by simpa using now)

theorem Running.step {i : Nat} (h : Running es i) (hne : e ≠ some (.did (.task i) .landRefresh)) :
    Running (es ++ e.toList) i := by
  refine ⟨List.mem_append_left _ h.1, ?_⟩
  rw [List.mem_append, not_or]
  exact ⟨h.2, by simpa using hne⟩

theorem Running.at {i : Nat} (tracks : discipline.Tracks es s) (h : Running es i) :
    ∃ p st, s.thread? (.task i) = some (.task .refresh, p) ∧
      discipline.stage? (.task .refresh) (.task i) es = some st ∧ st.isLanded = false := by
  cases hi : s.thread? (.task i) with
  | none => exact absurd h.1 (tracks.unborn i hi).2
  | some thread =>
    obtain ⟨role, p⟩ := thread
    obtain rfl := (tracks.begun i role p hi).2 h.1
    obtain ⟨st, hst, -⟩ := tracks.staged _ _ _ hi
    refine ⟨p, st, rfl, hst, Bool.eq_false_iff.2 fun landed => ?_⟩
    exact h.2 ((RefreshStage.isLanded_iff hst).1 landed)

theorem running_of_lands (tracks : discipline.Tracks es s)
    (step : Step client service s (some (.did who .landRefresh)) s') :
    ∃ i, who = .task i ∧ Running es i := by
  cases step with
  | act _ role _ go answer here _ threads =>
    obtain ⟨st, hst, st', hn, -⟩ := tracks.staged _ _ _ here
    obtain ⟨rfl, rfl, -⟩ := RefreshStage.next_landRefresh hn
    cases who with
    | reader => simp [thread?] at here
    | task i =>
      refine ⟨i, rfl, (tracks.begun _ _ _ here).1 rfl, fun landed => ?_⟩
      cases (RefreshStage.isLanded_iff hst).2 landed

structure SingleFlight (es : List Event) (s : Server κ) : Prop where
  idle : s.shared.state.inFlight = false → s.shared.accepted = [] ∧ ∀ i, ¬Running es i
  busy : s.shared.state.inFlight = true →
    (∃ reason, s.shared.accepted = [reason]) ∧ (∀ i, ¬Running es i) ∨
      s.shared.accepted = [] ∧ ∃ i, Running es i ∧ ∀ j, Running es j → j = i

theorem SingleFlight.alone (h : SingleFlight es s) {i j : Nat} (hi : Running es i) (hj : Running es j) :
    i = j := by
  have busy : s.shared.state.inFlight = true := by
    by_contra idle
    exact (h.idle (Bool.eq_false_iff.2 idle)).2 i hi
  rcases h.busy busy with ⟨-, nobody⟩ | ⟨-, k, -, only⟩
  · exact absurd hi (nobody i)
  · rw [only i hi, only j hj]

theorem SingleFlight.left {fs : List Event} (h : SingleFlight es s)
    (hf : s'.shared.state.inFlight = s.shared.state.inFlight)
    (ha : s'.shared.accepted = s.shared.accepted) (hr : ∀ i, Running fs i ↔ Running es i) :
    SingleFlight fs s' where
  idle hi := by simpa [ha, hr] using h.idle (hf ▸ hi)
  busy hi := by simpa [ha, hr] using h.busy (hf ▸ hi)

theorem SingleFlight.step (h : SingleFlight es s) (tracks : discipline.Tracks es s)
    (step : Step client service s e s') : SingleFlight (es ++ e.toList) s' := by
  have same (hb : ∀ i, e ≠ some (.begun i)) (he : ∀ i, e ≠ some (.did (.task i) .landRefresh))
      (i : Nat) : Running (es ++ e.toList) i ↔ Running es i :=
    ⟨fun hi => (running_step hi).resolve_right (hb i), fun hi => hi.step (he i)⟩
  cases hs : step with
  | quiet shared => exact h.left (by rw [shared]) (by rw [shared]) (same (by simp) (by simp))
  | notice _ _ _ _ shared => exact h.left (by rw [shared]) (by rw [shared]) (same (by simp) (by simp))
  | request _ _ _ _ _ _ shared =>
    exact h.left (by rw [shared]) (by rw [shared]) (same (by simp) (by simp))
  | begun i reason rest accepted fresh shared threads =>
    have hf : s.shared.state.inFlight = true := by
      by_contra hf
      simp [(h.idle (Bool.eq_false_iff.2 hf)).1] at accepted
    rcases h.busy hf with ⟨⟨r, hr⟩, hnone⟩ | ⟨hr, -⟩
    · have hi : Running (es ++ [.begun i]) i := by
        refine ⟨by simp, fun landed => ?_⟩
        have hl : .landRefresh ∈ actionsOf (.task i) es := mem_actionsOf.2 (by simpa using landed)
        rw [(tracks.unborn i fresh).1] at hl
        cases hl
      rw [hr] at accepted
      obtain ⟨-, rfl⟩ := List.cons.inj accepted
      refine ⟨fun hidle => by simp [shared, hf] at hidle, fun _ => .inr ⟨by rw [shared], i, hi, ?_⟩⟩
      intro j hj
      have he := (running_step hj).resolve_left (hnone j)
      simpa [eq_comm] using he
    · simp [hr] at accepted
  | act who role a go answer here answered threads =>
    have hf := Shared.perform_inFlight answered
    have ha := Shared.perform_accepted answered
    cases a with
    | requestRefresh reason =>
      have hrun : ∀ i, Running (es ++ [.did who (.requestRefresh reason)]) i ↔ Running es i :=
        same (by simp) (by simp)
      refine ⟨fun hidle => by simp [hf] at hidle, fun _ => ?_⟩
      rcases hc : s.shared.state.inFlight with _ | _
      · simp [ha, hc, h.idle hc, hrun]
      · simpa [ha, hc, hrun] using h.busy hc
    | landRefresh =>
      obtain ⟨i, rfl, hi⟩ := running_of_lands tracks step
      have hf' : s.shared.state.inFlight = true := by
        by_contra hc
        exact (h.idle (Bool.eq_false_iff.2 hc)).2 i hi
      rcases h.busy hf' with ⟨-, hnone⟩ | ⟨hr, k, -, hk⟩
      · exact absurd hi (hnone i)
      · refine ⟨fun _ => ⟨by rw [ha, hr], fun j hj => ?_⟩, fun hb => by simp [hf] at hb⟩
        have hji := (running_step hj).resolve_right (by simp)
        obtain rfl : j = i := (hk j hji).trans (hk i hi).symm
        exact hj.2 (by simp)
    | _ => exact h.left hf ha (same (by simp) (by simp))

theorem singleFlight (asks : service.AsksForRefresh)
    (run : Run client service (.initial site store) es s) : SingleFlight es s := by
  have kept := RefreshStage.kept_of_asksForRefresh asks
  induction run with
  | start => exact ⟨fun _ => ⟨rfl, fun i h => List.not_mem_nil h.1⟩, fun h => by cases h⟩
  | move before m hm ih => exact ih.step (Discipline.tracks kept before) (step_of_move hm)

end Server

end BuildServer
