import Mathlib.Logic.Function.Basic
import BuildServer.Proofs.Dialogue.Discipline
import BuildServer.Server.Machine

/-!
Runs of a server: moves in any order, and the events that they are seen by. `Step` says once what a
move can do, and `Run` is a sequence of moves.
-/

namespace BuildServer

inductive Actor where
  | reader
  | task (i : Nat)
  deriving DecidableEq, Repr

inductive Role where
  | reader
  | task (kind : TaskKind)
  deriving DecidableEq, Repr

inductive Event where
  | taken (m : Incoming)
  | begun (task : Nat)
  | did (who : Actor) (a : Action)

namespace Server

variable {κ : Type}

def thread? (s : Server κ) : Actor → Option (Role × Program Unit)
  | .reader => some (.reader, s.handling)
  | .task i => s.tasks[i]?.map fun t => (.task t.kind, t.program)

def event? (s : Server κ) : Move → Option Event
  | .handle => s.inbox.head?.map .taken
  | .goOn => s.handling.question?.map (.did .reader)
  | .beginRefresh => some (.begun s.tasks.length)
  | .step i => (s.tasks[i]?.bind (·.program.question?)).map (.did (.task i))
  | _ => none

variable (client : Client κ) (service : Service)

/-- The effect of a move: nobody acts, somebody starts, or somebody takes an action. -/
inductive Step (s : Server κ) : Option Event → Server κ → Prop
  | quiet {s'} (shared : s'.shared = s.shared) (threads : s'.thread? = s.thread?) : Step s none s'
  | notice {s'} (m : Incoming) (n : Notice) (known : Registry.standard.lookup m.method = some (.notice n))
    (idle : s.handling = .done ()) (shared : s'.shared = s.shared)
    (threads : s'.thread? = Function.update s.thread? .reader (some (.reader, service.notice m n))) :
    Step s (some (.taken m)) s'
  | request {s'} (m : Incoming) (r : Option Request) (i : Nat)
    (known : Registry.standard.lookup m.method = r.map .request)
    (idle : s.handling = .done ()) (fresh : s.thread? (.task i) = none) (shared : s'.shared = s.shared)
    (threads : s'.thread? =
      Function.update s.thread? (.task i) (some (.task .request, service.respond r m))) :
    Step s (some (.taken m)) s'
  | begun {s'} (i : Nat) (reason : String) (rest : List String)
    (accepted : s.shared.accepted = reason :: rest) (fresh : s.thread? (.task i) = none)
    (shared : s'.shared = { s.shared with accepted := rest })
    (threads : s'.thread? =
      Function.update s.thread? (.task i) (some (.task .refresh, service.backgroundRefresh))) :
    Step s (some (.begun i)) s'
  | act {s'} (who : Actor) (role : Role) (a : Action) (go : a.Answer → Program Unit) (answer : a.Answer)
    (here : s.thread? who = some (role, .ask a go))
    (answered : Shared.perform client a s.shared = some (answer, s'.shared))
    (threads : s'.thread? = Function.update s.thread? who (some (role, go answer))) :
    Step s (some (.did who a)) s'

inductive Turn (s : Server κ) (e : Option Event) (s' : Server κ) (who : Actor) : Prop
  | left (other : ∀ a, e ≠ some (.did who a)) (same : s'.thread? who = s.thread? who)
  | told (m : Incoming) (p : Program Unit) (reader : who = .reader) (event : e = some (.taken m))
    (idle : s.thread? who = some (.reader, .done ())) (now : s'.thread? who = some (.reader, p))
  | born (i : Nat) (kind : TaskKind) (p : Program Unit) (task : who = .task i)
    (silent : ∀ w a, e ≠ some (.did w a)) (refresh : kind = .refresh → e = some (.begun i))
    (fresh : s.thread? who = none) (now : s'.thread? who = some (.task kind, p))
  | acted (role : Role) (a : Action) (go : a.Answer → Program Unit) (answer : a.Answer)
    (event : e = some (.did who a)) (here : s.thread? who = some (role, .ask a go))
    (now : s'.thread? who = some (role, go answer))

/-- Moves one after another, from one state to another, and what is seen of them. -/
inductive Run (s : Server κ) : List Event → Server κ → Prop
  | start : Run s [] s
  | move {es s' s''} (before : Run s es s') (m : Move) (h : s'.move client service m = some s'') :
    Run s (es ++ (s'.event? m).toList) s''

def play : List Move → Server κ → List Event × Server κ
  | [], s => ([], s)
  | m :: ms, s =>
    match s.move client service m with
    | some s' =>
      let (es, s'') := play ms s'
      ((s.event? m).toList ++ es, s'')
    | none => play ms s

variable {client service} {s s' : Server κ}

theorem thread?_spawn (s : Server κ) (kind : TaskKind) (p : Program Unit) :
    (s.spawn kind p).thread? =
      Function.update s.thread? (.task s.tasks.length) (some (.task kind, p)) := by
  funext who
  cases who with
  | reader => rfl
  | task i =>
    by_cases h : i = s.tasks.length
    · subst h
      simp [thread?, spawn]
    · have hne : Actor.task i ≠ .task s.tasks.length := by simpa using h
      rw [Function.update_of_ne hne]
      simp only [thread?, spawn]
      rcases Nat.lt_or_gt_of_ne h with hi | hi
      · rw [List.getElem?_append_left hi]
      · rw [List.getElem?_eq_none (by simp; omega), List.getElem?_eq_none (by omega)]

theorem thread?_length (s : Server κ) : s.thread? (.task s.tasks.length) = none := by
  simp [thread?]

theorem step_of_dispatch {m : Incoming} {rest : List Incoming} (idle : s.handling = .done ()) :
    Step client service s (some (.taken m)) (dispatch service m { s with inbox := rest }) := by
  unfold dispatch
  split
  · rename_i n known
    refine .notice m n known idle rfl ?_
    funext who
    cases who <;> simp [thread?, Function.update]
  · rename_i r known
    exact .request m (some r) _ known idle (thread?_length s) rfl (thread?_spawn _ _ _)
  · rename_i known
    exact .request m none _ known idle (thread?_length s) rfl (thread?_spawn _ _ _)

theorem step_of_move {m : Move} (h : s.move client service m = some s') :
    Step client service s (s.event? m) s' := by
  cases m with
  | receive _ | close | breakOff _ =>
    simp only [move, Option.ite_none_right_eq_some, Option.some.injEq] at h
    exact h.2 ▸ .quiet rfl rfl
  | handle =>
    simp only [move] at h
    split at h
    · rename_i m rest idle hm
      obtain rfl := Option.some.inj h
      rw [event?, hm]
      exact step_of_dispatch idle
    · cases h
  | goOn =>
    simp only [move, Option.map_eq_some_iff] at h
    obtain ⟨⟨p, shared⟩, hp, rfl⟩ := h
    cases hh : s.handling with
    | done u => simp [hh, Dialogue.step] at hp
    | ask a go =>
      rw [hh, Dialogue.step, Option.map_eq_some_iff] at hp
      obtain ⟨⟨answer, _⟩, answered, hp⟩ := hp
      obtain ⟨rfl, rfl⟩ := Prod.mk.inj hp
      rw [event?, hh]
      refine .act .reader .reader a go answer (by rw [thread?, hh]) answered ?_
      funext who
      cases who <;> simp [thread?, Function.update]
  | beginRefresh =>
    simp only [move] at h
    split at h
    · cases h
    · rename_i reason rest accepted
      obtain rfl := Option.some.inj h
      exact .begun _ reason rest accepted (thread?_length s) rfl (thread?_spawn _ _ _)
  | step i =>
    simp only [move, Option.bind_eq_some_iff, Option.map_eq_some_iff] at h
    obtain ⟨t, ht, ⟨p, shared⟩, hp, rfl⟩ := h
    cases hh : t.program with
    | done u => simp [hh, Dialogue.step] at hp
    | ask a go =>
      rw [hh, Dialogue.step, Option.map_eq_some_iff] at hp
      obtain ⟨⟨answer, _⟩, answered, hp⟩ := hp
      obtain ⟨rfl, rfl⟩ := Prod.mk.inj hp
      simp only [event?, ht, hh, Option.bind_some, Dialogue.question?, Option.map_some]
      refine .act (.task i) (.task t.kind) a go answer (by simp [thread?, ht, hh]) answered ?_
      have hi : i < s.tasks.length := (List.getElem?_eq_some_iff.1 ht).1
      funext who
      cases who with
      | reader => simp [thread?, Function.update]
      | task j =>
        by_cases hj : j = i
        · subst hj
          simp [thread?, hi]
        · have hne : Actor.task j ≠ .task i := by simpa using hj
          rw [Function.update_of_ne hne]
          simp [thread?, Ne.symm hj]
  | exit =>
    simp only [move] at h
    split at h
    · simp only [Option.ite_none_right_eq_some, Option.some.injEq] at h
      exact h.2 ▸ .quiet rfl rfl
    · cases h
  | finish =>
    simp only [move, Option.ite_none_right_eq_some, Option.map_eq_some_iff] at h
    obtain ⟨-, o, -, rfl⟩ := h
    exact .quiet rfl rfl

theorem Step.turn {e : Option Event} (step : Step client service s e s') (who : Actor) :
    Turn s e s' who := by
  cases step with
  | quiet _ threads => exact .left (by simp) (by rw [threads])
  | notice m n _ idle _ threads =>
    by_cases hw : who = .reader
    · subst hw
      exact .told m _ rfl rfl (by rw [thread?, idle]) (by rw [threads, Function.update_self])
    · exact .left (by simp) (by rw [threads, Function.update_of_ne hw])
  | request _ _ i _ _ fresh _ threads =>
    by_cases hw : who = .task i
    · subst hw
      exact .born i .request _ rfl (by simp) (by simp) fresh (by rw [threads, Function.update_self])
    · exact .left (by simp) (by rw [threads, Function.update_of_ne hw])
  | begun i _ _ _ fresh _ threads =>
    by_cases hw : who = .task i
    · subst hw
      exact .born i .refresh _ rfl (by simp) (by simp) fresh (by rw [threads, Function.update_self])
    · exact .left (by simp) (by rw [threads, Function.update_of_ne hw])
  | act w role a go answer here _ threads =>
    by_cases hw : who = w
    · subst hw
      exact .acted role a go answer rfl here (by rw [threads, Function.update_self])
    · exact .left (by simp [Ne.symm hw]) (by rw [threads, Function.update_of_ne hw])

theorem Step.idle {m : Incoming} (step : Step client service s (some (.taken m)) s') :
    s.thread? .reader = some (.reader, .done ()) := by
  cases step with
  | notice _ _ _ idle => rw [thread?, idle]
  | request _ _ _ _ idle => rw [thread?, idle]

theorem Step.effect {e : Option Event} (step : Step client service s e s') :
    (∀ who a, e ≠ some (.did who a)) ∧
        (∃ accepted, s'.shared = { s.shared with accepted := accepted }) ∨
      ∃ who role a go answer, e = some (.did who a) ∧ s.thread? who = some (role, .ask a go) ∧
        Shared.perform client a s.shared = some (answer, s'.shared) := by
  cases step with
  | quiet shared => exact .inl ⟨by simp, s.shared.accepted, shared⟩
  | notice _ _ _ _ shared => exact .inl ⟨by simp, s.shared.accepted, shared⟩
  | request _ _ _ _ _ _ shared => exact .inl ⟨by simp, s.shared.accepted, shared⟩
  | begun _ _ rest _ _ shared => exact .inl ⟨by simp, rest, shared⟩
  | act who role a go answer here answered =>
    exact .inr ⟨who, role, a, go, answer, rfl, here, answered⟩

theorem set_same {i : Nat} {t : Task} (here : s.tasks[i]? = some t) : s.tasks.set i t = s.tasks := by
  obtain ⟨hi, hget⟩ := List.getElem?_eq_some_iff.mp here
  rw [← hget, List.set_getElem_self]

theorem move_step {i : Nat} {kind : TaskKind} {a : Action} {next : a.Answer → Program Unit}
    {answer : a.Answer} {shared : Shared κ} (here : s.tasks[i]? = some ⟨kind, .ask a next⟩)
    (answered : Shared.perform client a s.shared = some (answer, shared)) :
    s.move client service (.step i) =
      some { s with tasks := s.tasks.set i ⟨kind, next answer⟩, shared := shared } := by
  rw [move, here, Option.bind_some, Dialogue.step, answered]
  rfl

theorem Run.trans {es fs : List Event} {s'' : Server κ} (h : Run client service s es s')
    (h' : Run client service s' fs s'') : Run client service s (es ++ fs) s'' := by
  induction h' with
  | start => rwa [List.append_nil]
  | move _ m hm ih => exact List.append_assoc .. ▸ ih.move m hm

theorem run_play (ms : List Move) (s : Server κ) :
    Run client service s (play client service ms s).1 (play client service ms s).2 := by
  induction ms generalizing s with
  | nil => exact .start
  | cons m ms ih =>
    rw [play]
    split
    · rename_i s' hm
      simpa using (Run.start.move m hm).trans (ih s')
    · exact ih s

theorem Run.split {es fs : List Event} {s'' : Server κ} (h : Run client service s (es ++ fs) s'') :
    ∃ s', Run client service s es s' ∧ Run client service s' fs s'' := by
  generalize hg : es ++ fs = gs at h
  induction h generalizing fs with
  | start =>
    obtain ⟨rfl, rfl⟩ := List.append_eq_nil_iff.1 hg
    exact ⟨s, .start, .start⟩
  | @move gs u v before m hm ih =>
    rcases List.eq_nil_or_concat fs with rfl | ⟨fs, e, rfl⟩
    · rw [List.append_nil] at hg
      exact ⟨v, hg ▸ before.move m hm, .start⟩
    · cases he : u.event? m with
      | none =>
        rw [he, Option.toList, List.append_nil] at hg
        obtain ⟨w, hes, hfs⟩ := ih hg
        exact ⟨w, hes, by simpa [he] using hfs.move m hm⟩
      | some e' =>
        rw [he, Option.toList, List.concat_eq_append, ← List.append_assoc] at hg
        obtain ⟨hg, he'⟩ := List.append_inj' hg rfl
        obtain ⟨w, hes, hfs⟩ := ih hg
        exact ⟨w, hes, by simpa [he, he'] using hfs.move m hm⟩

theorem Run.first {e : Event} {es : List Event} {s'' : Server κ}
    (h : Run client service s (e :: es) s'') :
    ∃ u v, Run client service s [] u ∧ Step client service u (some e) v ∧
      Run client service s [e] v ∧ Run client service v es s'' := by
  change Run client service s ([e] ++ es) s'' at h
  obtain ⟨w, hw, hes⟩ := h.split
  suffices ∃ u v, Run client service s [] u ∧ Step client service u (some e) v ∧
      Run client service s [e] v ∧ Run client service v [] w by
    obtain ⟨u, v, hu, step, hv, hw⟩ := this
    exact ⟨u, v, hu, step, hv, hw.trans hes⟩
  clear hes h
  generalize hg : [e] = gs at hw
  induction hw with
  | start => cases hg
  | @move gs u v before m hm ih =>
    have step := step_of_move hm
    have here := before.move m hm
    cases he : u.event? m with
    | none =>
      rw [he, Option.toList, List.append_nil] at hg
      obtain ⟨u', v', hu, step, hv, hw⟩ := ih hg
      exact ⟨u', v', hu, step, by simpa using hv, by simpa [he] using hw.move m hm⟩
    | some e' =>
      rw [he, Option.toList] at hg
      rw [← List.nil_append [e]] at hg
      obtain ⟨rfl, he'⟩ := List.append_inj' hg rfl
      obtain ⟨rfl, -⟩ := List.cons.inj he'
      rw [he] at step here
      exact ⟨u, v, before, step, here, .start⟩

theorem Run.at {x y : List Event} {e : Event} (run : Run client service s (x ++ e :: y) s') :
    ∃ u v, Run client service s x u ∧ Step client service u (some e) v ∧
      Run client service s (x ++ [e]) v ∧ Run client service v y s' := by
  obtain ⟨u, hx, hy⟩ := run.split
  obtain ⟨u', v, hu, step, he, hv⟩ := hy.first
  exact ⟨u', v, by simpa using hx.trans hu, step, hx.trans he, hv⟩

theorem Run.next_action {es : List Event} {who : Actor} {role : Role} {a : Action}
    {go : a.Answer → Program Unit} (run : Run client service s es s')
    (here : s.thread? who = some (role, .ask a go)) :
    s'.thread? who = some (role, .ask a go) ∧ (who = .reader → ∀ m, .taken m ∉ es) ∨
      ∃ x y answer u, es = x ++ .did who a :: y ∧ (who = .reader → ∀ m, .taken m ∉ x) ∧
        u.thread? who = some (role, go answer) ∧ Run client service u y s' := by
  induction run with
  | start => exact .inl ⟨here, fun _ m => List.not_mem_nil⟩
  | @move es u v before m hm ih =>
    rcases ih with ⟨hu, hx⟩ | ⟨x, y, answer, w, rfl, hx, hw, hy⟩
    · have step := step_of_move hm
      generalize u.event? m = e at step ⊢
      have busy (hr : who = .reader) (m : Incoming) : e ≠ some (.taken m) := by
        rintro rfl
        rw [hr, step.idle] at hu
        cases hu
      have still (hr : who = .reader) (m : Incoming) : .taken m ∉ es ++ e.toList := by
        simpa [hx hr, eq_comm] using busy hr m
      cases step.turn who with
      | left _ same => exact .inl ⟨same.trans hu, still⟩
      | told m _ reader event => exact absurd event (busy reader m)
      | born _ _ _ _ _ _ fresh => simp [hu] at fresh
      | acted _ b _ answer event at_who now =>
        rw [hu] at at_who
        obtain ⟨rfl, hp⟩ := Prod.mk.inj (Option.some.inj at_who)
        cases hp
        exact .inr ⟨es, [], answer, v, by rw [event, Option.toList], hx, now, .start⟩
    · exact .inr ⟨x, y ++ (u.event? m).toList, answer, w, by simp, hx, hw, hy.move m hm⟩

end Server

end BuildServer
