import BuildServer.Proofs.Server.SingleFlight

namespace BuildServer.Server

open RefreshStage (discipline)

variable {κ : Type} {client : Client κ} {service : Service} {es past : List Event} {e : Option Event}
  {s s' : Server κ} {who : Actor} {st : RefreshStage} {c : Call} {new : Snapshot}

def BeforeCalls (es : List Event) (who : Actor) : Prop :=
  ∃ before during, es = before ++ .did who .beginRefresh :: during ∧
    ∀ c, .did who (.probe (.call c)) ∉ during

def CallsBehind (past es : List Event) (who : Actor) : Prop :=
  ∃ x c y, es = past ++ x ++ .did who (.probe (.call c)) :: y ∧ BeforeCalls (past ++ x) who ∧
    .did who .beginRefresh ∉ y

def PutBehind (past es : List Event) (new : Snapshot) : Prop :=
  ∃ who x y, es = x ++ .did who (.replaceSnapshot new) :: y ∧ CallsBehind past x who ∧
    ∀ w other, .did w (.replaceSnapshot other) ∉ y

theorem split_actionsOf {a : Action} {before after : List Action}
    (h : actionsOf who es = before ++ a :: after) :
    ∃ x y, es = x ++ .did who a :: y ∧ actionsOf who x = before ∧ actionsOf who y = after := by
  obtain ⟨x, y, rfl, hx, hy⟩ := List.filterMap_eq_append_iff.1 h
  obtain ⟨u, b, v, rfl, hu, hb, hv⟩ := List.filterMap_eq_cons_iff.1 hy
  have hb : b = .did who a := by
    cases b with
    | did w b =>
      simp only [actionOf?, Option.ite_none_right_eq_some, Option.some.injEq] at hb
      rw [hb.1, hb.2]
    | _ => cases hb
  refine ⟨x ++ u, v, by rw [hb, List.append_assoc], ?_, hv⟩
  rw [actionsOf_append, actionsOf, hx, actionsOf, List.filterMap_eq_nil_iff.2 hu, List.append_nil]

theorem beforeCalls_of_entered {role : Role} (h : discipline.stage? role who es = some .entered) :
    BeforeCalls es who := by
  obtain ⟨before, a, _, ha, hn⟩ := Discipline.last_action h (by rintro ⟨⟩)
  obtain rfl := RefreshStage.next_entered hn
  obtain ⟨x, y, hes, -, hy⟩ := split_actionsOf ha
  refine ⟨x, y, hes, fun c hc => ?_⟩
  rw [← mem_actionsOf, hy] at hc
  cases hc

theorem At.step (h : At es s who st) (step : Step client service s e s')
    (after : discipline.Tracks (es ++ e.toList) s') :
    At (es ++ e.toList) s' who st ∧ (∀ a, e ≠ some (.did who a)) ∨
      ∃ a st' role, e = some (.did who a) ∧ discipline.next role st a = some st' ∧
        At (es ++ e.toList) s' who st' :=
  Discipline.At.step h step after

theorem CallsBehind.append {fs : List Event} (h : CallsBehind past es who)
    (hn : .did who .beginRefresh ∉ fs) : CallsBehind past (es ++ fs) who := by
  obtain ⟨x, c, y, rfl, hx, hy⟩ := h
  refine ⟨x, c, y ++ fs, by rw [List.append_assoc, List.cons_append], hx, ?_⟩
  rw [List.mem_append, not_or]
  exact ⟨hy, hn⟩

def InsideBehind (past es : List Event) (s : Server κ) : Prop :=
  ∀ who st, At es s who st → st.isInside = true → st = .entered ∨ CallsBehind past es who

theorem InsideBehind.step (h : InsideBehind past es s) (hp : past <+: es)
    (tracks : discipline.Tracks es s) (step : Step client service s e s') :
    InsideBehind past (es ++ e.toList) s' := by
  intro who st' hw hi
  rcases at_step tracks step hw with rfl | ⟨hw₀, hne⟩ | ⟨st, a, role, rfl, hw₀, hn⟩
  · cases hi
  · refine (h who st' hw₀ hi).imp id fun hc => hc.append ?_
    simpa [eq_comm] using hne .beginRefresh
  · rcases RefreshStage.next_inside hn hi with rfl | ⟨hin, -⟩
    · exact .inl (RefreshStage.next_beginRefresh hn)
    · have ha : a ≠ .beginRefresh := by
        rintro rfl
        rw [RefreshStage.inside_of_beginRefresh hn] at hin
        cases hin
      refine .inr ?_
      rcases h who st hw₀ hin with rfl | hc
      · obtain ⟨c, rfl⟩ := RefreshStage.call_of_entered hn
        obtain ⟨x, rfl⟩ := hp
        obtain ⟨_, _, _, hst⟩ := hw₀
        exact ⟨x, c, [], rfl, beforeCalls_of_entered hst, List.not_mem_nil⟩
      · exact hc.append (by simpa using Ne.symm ha)

def CacheBehind (past es : List Event) (s : Server κ) : Prop :=
  ∀ new, s.shared.snapshot = some new → PutBehind past es new

theorem CacheBehind.step (h : InsideBehind past es s) (tracks : discipline.Tracks es s)
    (step : Step client service s e s')
    (hc : CacheBehind past es s ∨ ∃ w new, e = some (.did w (.replaceSnapshot new))) :
    CacheBehind past (es ++ e.toList) s' := by
  by_cases hr : ∃ w new, e = some (.did w (.replaceSnapshot new))
  · obtain ⟨w, new, rfl⟩ := hr
    cases step with
    | act _ role _ _ _ here answered =>
      intro new' hn
      rw [Shared.perform_snapshot answered] at hn
      obtain rfl := Option.some.inj hn
      obtain ⟨st, hst, st', hn, -⟩ := tracks.staged _ _ _ here
      obtain ⟨hin, hne⟩ := RefreshStage.inside_of_replaceSnapshot hn
      have hb := (h w st ⟨role, _, here, hst⟩ hin).resolve_left hne
      exact ⟨w, es, [], rfl, hb, fun _ _ => List.not_mem_nil⟩
  · intro new hn
    have hs : s.shared.snapshot = some new := by
      rcases step.effect with ⟨-, accepted, shared⟩ | ⟨who, _, a, _, answer, rfl, -, answered⟩
      · rwa [shared] at hn
      · have ha := Shared.perform_snapshot answered
        cases a with
        | replaceSnapshot other => exact absurd ⟨_, _, rfl⟩ hr
        | invalidate =>
          rw [ha] at hn
          cases hn
        | _ => exact ha.symm.trans hn
    obtain ⟨who, x, y, rfl, hx, hy⟩ := (hc.resolve_right hr) new hs
    refine ⟨who, x, y ++ e.toList, by rw [List.append_assoc, List.cons_append], hx, fun w other => ?_⟩
    rw [List.mem_append, not_or]
    refine ⟨hy w other, fun he => hr ⟨w, other, ?_⟩⟩
    simpa [eq_comm] using he

end BuildServer.Server
