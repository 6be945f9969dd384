import Mathlib.Data.List.Induction
import BuildServer.Proofs.Server.Provenance

/-!
What a request for a background refresh leads to. Unless a background refresh is in flight that has
called the build tool before, one makes its first call behind the request, and has landed when none is in
flight.
-/

namespace BuildServer

namespace RefreshStage

variable {role : Role} {st st' : RefreshStage} {a : Action} {actions : List Action}

theorem next_outside {renewed : Bool} (h : next role (.outside renewed) a = some st') :
    st' = .entered ∨ st' = .outside renewed ∨ renewed = true ∧ st' = .landed := by
  cases passes_of_next h with
  | begin => exact .inl rfl
  | call | stay => exact .inr (.inl rfl)
  | land => exact .inr (.inr ⟨rfl, rfl⟩)

theorem before_calls (h : actions.foldlM (next (.task .refresh)) (.outside false) = some st)
    (hn : ∀ c, .probe (.call c) ∉ actions) : st = .outside false ∨ st = .entered := by
  induction actions using List.reverseRecOn generalizing st with
  | nil => exact .inl (Option.some.inj h).symm
  | append_singleton actions a ih =>
    simp only [List.foldlM_append, List.foldlM_cons, List.foldlM_nil, bind_pure,
      Option.bind_eq_bind, Option.bind_eq_some_iff] at h
    obtain ⟨st₀, h₀, h⟩ := h
    have hc : ∀ c, a ≠ .probe (.call c) := fun c ha => hn c (by simp [ha])
    rcases ih h₀ fun c hc => hn c (by simp [hc]) with rfl | rfl
    · rcases next_outside h with rfl | rfl | ⟨h, -⟩
      · exact .inr rfl
      · exact .inl rfl
      · cases h
    · obtain ⟨c, rfl⟩ := call_of_entered h
      exact absurd rfl (hc c)

theorem first_call {c : Call} (hs : st = .outside false ∨ st = .entered)
    (h : next (.task .refresh) st (.probe (.call c)) = some st') :
    st = .entered ∧ c.cached? = some false ∧ st' = .asking false := by
  rcases hs with rfl | rfl
  · cases passes_of_next h with
    | call _ _ requests => exact absurd rfl requests
    | stay _ _ aside => cases aside
  · cases passes_of_next h with
    | @ask _ cached asks fresh =>
      obtain rfl : cached = false := by simpa using fresh
      exact ⟨rfl, asks, rfl⟩

theorem inside_or_finished (h : next role st a = some st') (hi : st.isInside = true) :
    a = .finishRefresh ∨ st'.isInside = true := by
  cases passes_of_next h with
  | fail | finish => exact .inl rfl
  | ask | probe | replace => exact .inr rfl
  | _ => cases hi

end RefreshStage

namespace Server

open RefreshStage (discipline)

variable {κ : Type} {client : Client κ} {service : Service} {site : κ} {store : Store}
  {es past : List Event} {e : Option Event} {s s' : Server κ} {i : Nat} {c : Call}

/-- Some background refresh has called the build tool and not landed. -/
def Reading (es : List Event) : Prop :=
  ∃ i c, Running es i ∧ .did (.task i) (.probe (.call c)) ∈ es

structure Pending (es : List Event) (s : Server κ) : Prop where
  inFlight : s.shared.state.inFlight = true
  uncalled : ∀ i, Running es i → ∀ c, .did (.task i) (.probe (.call c)) ∉ es

theorem stage_of_uncalled (tracks : discipline.Tracks es s) (h : Running es i)
    (hn : ∀ c, .did (.task i) (.probe (.call c)) ∉ es) :
    ∃ p st, s.thread? (.task i) = some (.task .refresh, p) ∧
      discipline.stage? (.task .refresh) (.task i) es = some st ∧ (st = .outside false ∨ st = .entered) := by
  obtain ⟨p, st, hp, hst, -⟩ := h.at tracks
  exact ⟨p, st, hp, hst, RefreshStage.before_calls hst fun c hc => hn c (mem_actionsOf.1 hc)⟩

theorem Pending.of_request {who : Actor} {reason : String}
    (step : Step client service s (some (.did who (.requestRefresh reason))) s')
    (fresh : ¬Reading es) : Pending (es ++ [.did who (.requestRefresh reason)]) s' where
  inFlight := by
    cases step with
    | act _ _ _ _ _ _ answered => exact Shared.perform_inFlight answered
  uncalled i hi c hc := by
    have hs := (running_step (e := some (.did who (.requestRefresh reason))) hi).resolve_right (by simp)
    exact fresh ⟨i, c, hs, by simpa using hc⟩

theorem inFlight_step (step : Step client service s e s') (h : s.shared.state.inFlight = true) :
    s'.shared.state.inFlight = true ∨ ∃ who, e = some (.did who .landRefresh) := by
  rcases step.effect with ⟨-, accepted, shared⟩ | ⟨who, _, a, _, answer, rfl, -, answered⟩
  · exact .inl (by rw [shared, h])
  · have hf := Shared.perform_inFlight answered
    cases a with
    | requestRefresh _ => exact .inl hf
    | landRefresh => exact .inr ⟨who, rfl⟩
    | _ => exact .inl (hf.trans h)

theorem Pending.step (h : Pending es s) (tracks : discipline.Tracks es s)
    (step : Step client service s e s') :
    Pending (es ++ e.toList) s' ∨
      ∃ i c, e = some (.did (.task i) (.probe (.call c))) ∧ Running es i := by
  by_cases hc : ∃ i c, e = some (.did (.task i) (.probe (.call c))) ∧ Running es i
  · exact .inr hc
  · refine .inl ⟨?_, fun j hj c hm => ?_⟩
    · rcases inFlight_step step h.inFlight with hf | ⟨who, he⟩
      · exact hf
      · subst he
        obtain ⟨i, rfl, hi⟩ := running_of_lands tracks step
        obtain ⟨p, st, hp, hst, hb⟩ := stage_of_uncalled tracks hi (h.uncalled i hi)
        cases step with
        | act _ _ _ _ _ here =>
          rw [hp] at here
          obtain ⟨rfl, rfl⟩ := Prod.mk.inj (Option.some.inj here)
          obtain ⟨st₁, hn, -⟩ := tracks.keeps hp hst
          obtain ⟨-, rfl, -⟩ := RefreshStage.next_landRefresh hn
          simp at hb
    · rcases List.mem_append.1 hm with hpast | hnow
      · rcases running_step hj with hj | rfl
        · exact h.uncalled j hj c hpast
        · cases step with
          | begun _ _ _ _ fresh =>
            have ha := mem_actionsOf.2 hpast
            rw [(tracks.unborn j fresh).1] at ha
            cases ha
      · have he : e = some (.did (.task j) (.probe (.call c))) := by simpa using hnow
        exact hc ⟨j, c, he, (running_step hj).resolve_right (by simp [he])⟩

structure Called (past es : List Event) (who : Actor) (y : List Event) (s : Server κ) : Prop where
  inside : InsideBehind past (es ++ y) s
  put : (∃ w new, .did w (.replaceSnapshot new) ∈ y) → CacheBehind past (es ++ y) s
  finished : .did who .finishRefresh ∈ y ∨ ∃ st, At (es ++ y) s who st ∧ st.isInside = true

theorem Called.step {who : Actor} {y : List Event} (h : Called past es who y s) (hp : past <+: es)
    (tracks : discipline.Tracks (es ++ y) s) (after : discipline.Tracks (es ++ y ++ e.toList) s')
    (step : Step client service s e s') : Called past es who (y ++ e.toList) s' where
  inside := by
    rw [← List.append_assoc]
    exact h.inside.step (hp.trans (List.prefix_append es y)) tracks step
  put := by
    rintro ⟨w, new, hm⟩
    rw [← List.append_assoc]
    apply CacheBehind.step h.inside tracks step
    rcases List.mem_append.1 hm with hm | hm
    · exact .inl (h.put ⟨w, new, hm⟩)
    · exact .inr ⟨w, new, by simpa using hm⟩
  finished := by
    rw [← List.append_assoc]
    rcases h.finished with hf | ⟨st, hat, hi⟩
    · exact .inl (List.mem_append_left _ hf)
    · rcases hat.step step after with ⟨hat, -⟩ | ⟨a, st', role, rfl, hn, hat⟩
      · exact .inr ⟨st, hat, hi⟩
      · rcases RefreshStage.inside_or_finished hn hi with rfl | hi
        · exact .inl (by simp)
        · exact .inr ⟨st', hat, hi⟩

theorem Called.run {who : Actor} {y : List Event} {u : Server κ} (kept : discipline.Kept service)
    (hp : past <+: es) (opening : Run client service (.initial site store) es u)
    (h : Called past es who [] u) (run : Run client service u y s) : Called past es who y s := by
  induction run with
  | start => exact h
  | move before m hm ih =>
    have step := step_of_move hm
    have tracks := Discipline.tracks kept (opening.trans before)
    exact ih.step hp tracks (tracks.step kept step) step

theorem Called.of_first_call (asks : service.AsksForRefresh)
    (run : Run client service (.initial site store) es s) (hi : Running es i)
    (hn : ∀ c, .did (.task i) (.probe (.call c)) ∉ es)
    (step : Step client service s (some (.did (.task i) (.probe (.call c)))) s') :
    BeforeCalls es (.task i) ∧ c.cached? = some false ∧
      Called es (es ++ [.did (.task i) (.probe (.call c))]) (.task i) [] s' := by
  have kept := RefreshStage.kept_of_asksForRefresh asks
  have tracks := Discipline.tracks kept run
  have after := tracks.step kept step
  have exclusive := (exclusive asks run).step tracks step
  obtain ⟨p, st, hp, hst, hb⟩ := stage_of_uncalled tracks hi hn
  have hat : At es s (.task i) st := ⟨_, p, hp, hst⟩
  rcases hat.step step after with ⟨-, hne⟩ | ⟨a, st', role, he, hnext, hat'⟩
  · exact absurd rfl (hne _)
  · obtain rfl : a = .probe (.call c) := by simpa using he.symm
    obtain ⟨role', p', hp', hst'⟩ := hat'
    have hrole : role' = .task .refresh :=
      (after.begun i role' p' hp').2 (List.mem_append_left _ hi.1)
    subst hrole
    rw [Option.toList, Discipline.stage?_did, hst] at hst'
    obtain ⟨rfl, hc, rfl⟩ := RefreshStage.first_call hb hst'
    have hbefore := beforeCalls_of_entered hst
    refine ⟨hbefore, hc, ?_, ?_, ?_⟩
    · intro who st₁ h₁ hi₁
      rw [List.append_nil] at h₁ ⊢
      have hat' : At (es ++ [.did (.task i) (.probe (.call c))]) s' (.task i) (.asking false) :=
        ⟨_, p', hp', by rw [Discipline.stage?_did, hst]; exact hst'⟩
      obtain rfl := exclusive.alone who (.task i) st₁ _ h₁ hat' hi₁ rfl
      exact .inr ⟨[], c, [], by simp, by simpa using hbefore, List.not_mem_nil⟩
    · simp
    · refine .inr ⟨.asking false, ⟨_, p', hp', ?_⟩, rfl⟩
      rw [List.append_nil, Discipline.stage?_did, hst]
      exact hst'

/-- Behind `past`, a background refresh has made its first call, for an answer that is not cached, and has
landed since. If a snapshot was put from then on, the cached one is not older. -/
def Refreshed (past after : List Event) (s : Server κ) : Prop :=
  ∃ i x c y, after = x ++ .did (.task i) (.probe (.call c)) :: y ∧ .begun i ∈ past ++ x ∧
    BeforeCalls (past ++ x) (.task i) ∧ c.cached? = some false ∧
    .did (.task i) .finishRefresh ∈ y ∧ .did (.task i) .landRefresh ∈ y ∧
    ((∃ w new, .did w (.replaceSnapshot new) ∈ y) → CacheBehind (past ++ x) (past ++ after) s)

theorem pending_or_called {u : Server κ} {y : List Event} (kept : discipline.Kept service)
    (opening : Run client service (.initial site store) past u) (h : Pending past u)
    (run : Run client service u y s) :
    Pending (past ++ y) s ∨
      ∃ i x c z v w, y = x ++ .did (.task i) (.probe (.call c)) :: z ∧
        Run client service (.initial site store) (past ++ x) v ∧ Pending (past ++ x) v ∧
        Running (past ++ x) i ∧
        Step client service v (some (.did (.task i) (.probe (.call c)))) w ∧
        Run client service (.initial site store) (past ++ x ++ [.did (.task i) (.probe (.call c))]) w ∧
        Run client service w z s := by
  induction run with
  | start => exact .inl (by rwa [List.append_nil])
  | @move es v w before m hm ih =>
    rcases ih with hp | ⟨i, x, c, z, v', w', rfl, hx, hv, hi, step, hw, hz⟩
    · have run := opening.trans before
      have run' := run.move m hm
      have step := step_of_move hm
      rcases hp.step (Discipline.tracks kept run) step with hp' | ⟨i, c, he, hi⟩
      · exact .inl (by rwa [← List.append_assoc])
      · rw [he] at step run' ⊢
        exact .inr ⟨i, es, c, [], v, w, rfl, run, hp, hi, step, run', .start⟩
    · refine .inr ⟨i, x, c, z ++ (v.event? m).toList, v', w', ?_, hx, hv, hi, step, hw, hz.move m hm⟩
      rw [List.append_assoc, List.cons_append]

theorem Pending.refreshed {u : Server κ} {after : List Event} (asks : service.AsksForRefresh)
    (opening : Run client service (.initial site store) past u) (h : Pending past u)
    (run : Run client service u after s) (idle : s.shared.state.inFlight = false) :
    Refreshed past after s := by
  have kept := RefreshStage.kept_of_asksForRefresh asks
  rcases pending_or_called kept opening h run with
    hp | ⟨i, x, c, y, v, w, rfl, hx, hv, hi, step, hw, hy⟩
  · rw [hp.inFlight] at idle
    cases idle
  · obtain ⟨hbefore, hc, first⟩ := Called.of_first_call asks hx hi (hv.uncalled i hi) step
    have called := first.run kept (List.prefix_append _ _) hw hy
    have whole := hw.trans hy
    have begun : .begun i ∈ past ++ x ++ [.did (.task i) (.probe (.call c))] ++ y :=
      List.mem_append_left _ (List.mem_append_left _ hi.1)
    have landed : .did (.task i) .landRefresh ∈ y := by
      by_contra going
      have running : Running (past ++ x ++ [.did (.task i) (.probe (.call c))] ++ y) i :=
        ⟨begun, by simpa [going] using hi.2⟩
      exact ((singleFlight asks whole).idle idle).2 i running
    refine ⟨i, x, c, y, rfl, hi.1, hbefore, hc, ?_, landed, fun hput => by simpa using called.put hput⟩
    rcases called.finished with hf | ⟨st, ⟨role, p, hp, hst⟩, hin⟩
    · exact hf
    · obtain rfl := ((Discipline.tracks kept whole).begun i role p hp).2 begun
      have hland := (RefreshStage.isLanded_iff hst).2 (List.mem_append_right _ landed)
      cases st <;> simp [RefreshStage.isInside, RefreshStage.isLanded] at hin hland

theorem refreshed_of_request {who : Actor} {reason : String} {u : Server κ} {after : List Event}
    (asks : service.AsksForRefresh) (opening : Run client service (.initial site store) past u)
    (run : Run client service u (.did who (.requestRefresh reason) :: after) s)
    (fresh : ¬Reading past) (idle : s.shared.state.inFlight = false) :
    Refreshed (past ++ [.did who (.requestRefresh reason)]) after s := by
  obtain ⟨v, w, hv, step, hw, rest⟩ := run.first
  have before : Run client service (.initial site store) past v := by
    simpa using opening.trans hv
  have hp := Pending.of_request step fresh
  exact hp.refreshed asks (opening.trans hw) rest idle

end Server

end BuildServer
