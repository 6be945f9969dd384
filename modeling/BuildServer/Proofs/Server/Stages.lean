import BuildServer.Proofs.Server.Run

/-!
Stages of the programs of a server. If all of them keep a discipline, then in every run the actions of
an actor lead to a stage from which the rest of its program keeps it.
-/

namespace BuildServer.Server

variable {κ σ : Type} {client : Client κ} {service : Service} {site : κ} {store : Store}
  {es : List Event} {s s' : Server κ}

def actionOf? (who : Actor) : Event → Option Action
  | .did w a => if w = who then some a else none
  | _ => none

def actionsOf (who : Actor) (es : List Event) : List Action :=
  es.filterMap (actionOf? who)

@[simp] theorem actionsOf_nil (who : Actor) : actionsOf who [] = [] := rfl

@[simp] theorem actionsOf_append (who : Actor) (es fs : List Event) :
    actionsOf who (es ++ fs) = actionsOf who es ++ actionsOf who fs :=
  List.filterMap_append

@[simp] theorem actionsOf_taken (who : Actor) (m : Incoming) : actionsOf who [.taken m] = [] := rfl

@[simp] theorem actionsOf_begun (who : Actor) (i : Nat) : actionsOf who [.begun i] = [] := rfl

@[simp] theorem actionsOf_did (who : Actor) (a : Action) : actionsOf who [.did who a] = [a] := by
  simp [actionsOf, actionOf?]

theorem actionsOf_did_ne {who w : Actor} (h : w ≠ who) (a : Action) :
    actionsOf who [.did w a] = [] := by
  simp [actionsOf, actionOf?, h]

theorem actionsOf_other {who : Actor} {e : Option Event} (h : ∀ a, e ≠ some (.did who a)) :
    actionsOf who e.toList = [] := by
  cases e with
  | none => rfl
  | some e =>
    cases e with
    | did w a => exact actionsOf_did_ne (fun hw => h a (by rw [hw])) a
    | _ => rfl

theorem mem_actionsOf {who : Actor} {a : Action} : a ∈ actionsOf who es ↔ .did who a ∈ es := by
  simp only [actionsOf, List.mem_filterMap]
  constructor
  · rintro ⟨e, he, h⟩
    cases e with
    | did w b =>
      simp only [actionOf?, Option.ite_none_right_eq_some, Option.some.injEq] at h
      exact h.1 ▸ h.2 ▸ he
    | _ => cases h
  · intro h
    exact ⟨_, h, by simp [actionOf?]⟩

/-- A discipline for every role, with the stages in which a program may end. -/
structure Discipline (σ : Type) where
  start : σ
  next : Role → σ → Action → Option σ
  rest : Role → σ → Prop

namespace Discipline

variable (d : Discipline σ)

def Keeps (role : Role) (p : Program Unit) (st : σ) : Prop :=
  Dialogue.Keeps (d.next role) (fun st _ => d.rest role st) p st

def stage? (role : Role) (who : Actor) (es : List Event) : Option σ :=
  (actionsOf who es).foldlM (d.next role) d.start

structure Kept (service : Service) : Prop where
  start : d.rest .reader d.start
  notice : ∀ m n st, d.rest .reader st → d.Keeps .reader (service.notice m n) st
  request : ∀ r m, d.Keeps (.task .request) (service.respond r m) d.start
  refresh : d.Keeps (.task .refresh) service.backgroundRefresh d.start

/-- Every actor is at a stage, a background refresh is known by its beginning, and nobody has acted who
has not started. -/
structure Tracks (es : List Event) (s : Server κ) : Prop where
  staged : ∀ who role p, s.thread? who = some (role, p) →
    ∃ st, d.stage? role who es = some st ∧ d.Keeps role p st
  begun : ∀ i role p, s.thread? (.task i) = some (role, p) →
    (role = .task .refresh ↔ .begun i ∈ es)
  unborn : ∀ i, s.thread? (.task i) = none → actionsOf (.task i) es = [] ∧ .begun i ∉ es
  reader : ∃ p, s.thread? .reader = some (.reader, p)

variable {d}

theorem stage?_append (role : Role) (who : Actor) (es fs : List Event) :
    d.stage? role who (es ++ fs) =
      (d.stage? role who es).bind fun st => (actionsOf who fs).foldlM (d.next role) st := by
  rw [stage?, actionsOf_append, List.foldlM_append]
  rfl

theorem stage?_silent (role : Role) {who : Actor} {fs : List Event} (h : actionsOf who fs = []) :
    d.stage? role who (es ++ fs) = d.stage? role who es := by
  rw [stage?, stage?, actionsOf_append, h, List.append_nil]

theorem stage?_did (role : Role) (who : Actor) (a : Action) (es : List Event) :
    d.stage? role who (es ++ [.did who a]) =
      (d.stage? role who es).bind fun st => d.next role st a := by
  simp only [stage?_append, actionsOf_did, List.foldlM_cons, List.foldlM_nil, bind_pure]

theorem stage?_invariant {P : σ → Prop} {role : Role} {who : Actor} {st : σ} (start : P d.start)
    (next : ∀ st a st', P st → d.next role st a = some st' → P st')
    (h : d.stage? role who es = some st) : P st := by
  have hall (actions : List Action) : ∀ st₀, P st₀ →
      actions.foldlM (d.next role) st₀ = some st → P st := by
    induction actions with
    | nil =>
      rintro st₀ h₀ ⟨⟩
      exact h₀
    | cons a actions ih =>
      intro st₀ h₀ h
      obtain ⟨st₁, hn, h⟩ := Option.bind_eq_some_iff.1 h
      exact ih st₁ (next st₀ a st₁ h₀ hn) h
  exact hall _ d.start start h

theorem stage?_mem_iff {P : σ → Prop} {mark : Action} {role : Role} {who : Actor} {st : σ}
    (start : ¬P d.start) (next : ∀ st a st', d.next role st a = some st' → (P st' ↔ a = mark ∨ P st))
    (h : d.stage? role who es = some st) : P st ↔ .did who mark ∈ es := by
  have hall (actions : List Action) : ∀ st₀, actions.foldlM (d.next role) st₀ = some st →
      (P st ↔ mark ∈ actions ∨ P st₀) := by
    induction actions with
    | nil =>
      rintro st₀ ⟨⟩
      simp
    | cons a actions ih =>
      intro st₀ h
      obtain ⟨st₁, hn, h⟩ := Option.bind_eq_some_iff.1 h
      rw [ih st₁ h, next st₀ a st₁ hn, List.mem_cons, or_left_comm, or_assoc, eq_comm]
  rw [hall _ d.start h, mem_actionsOf, or_iff_left start]

theorem last_action {role : Role} {who : Actor} {st : σ} (h : d.stage? role who es = some st)
    (moved : st ≠ d.start) :
    ∃ before a st₀, actionsOf who es = before ++ [a] ∧ d.next role st₀ a = some st := by
  rcases List.eq_nil_or_concat (actionsOf who es) with hn | ⟨before, a, ha⟩
  · rw [stage?, hn] at h
    exact absurd (Option.some.inj h).symm moved
  · rw [List.concat_eq_append] at ha
    rw [stage?, ha, List.foldlM_append] at h
    obtain ⟨st₀, -, h⟩ := Option.bind_eq_some_iff.1 h
    simp only [List.foldlM_cons, List.foldlM_nil, bind_pure] at h
    exact ⟨before, a, st₀, ha, h⟩

theorem tracks_start (kept : d.Kept service) :
    d.Tracks [] (Server.initial site store : Server κ) where
  staged who role p h := by
    cases who with
    | reader =>
      obtain ⟨rfl, rfl⟩ := Prod.mk.inj (Option.some.inj h)
      exact ⟨d.start, rfl, kept.start⟩
    | task i => simp [thread?, Server.initial] at h
  begun i role p h := by simp [thread?, Server.initial] at h
  unborn i h := by simp
  reader := ⟨_, rfl⟩

theorem Tracks.silent {fs : List Event} (h : d.Tracks es s) (ht : s'.thread? = s.thread?)
    (hs : ∀ who, actionsOf who fs = []) (hb : ∀ i, .begun i ∉ fs) : d.Tracks (es ++ fs) s' where
  staged who role p hp := by
    rw [ht] at hp
    rw [stage?_silent _ (hs who)]
    exact h.staged who role p hp
  begun i role p hp := by
    rw [ht] at hp
    rw [h.begun i role p hp]
    simp [hb]
  unborn i hi := by
    rw [ht] at hi
    simp [h.unborn i hi, hs, hb]
  reader := ht ▸ h.reader

theorem Tracks.starts {who : Actor} {role : Role} {p : Program Unit} {e : Event} (h : d.Tracks es s)
    (ht : s'.thread? = Function.update s.thread? who (some (role, p)))
    (hs : ∀ w, actionsOf w [e] = []) (hr : who = .reader ↔ role = .reader)
    (hb : ∀ i, e = .begun i ↔ who = .task i ∧ role = .task .refresh)
    (fresh : ∀ i, who = .task i → s.thread? who = none)
    (hk : ∃ st, d.stage? role who es = some st ∧ d.Keeps role p st) : d.Tracks (es ++ [e]) s' where
  staged w role' p' hp := by
    rw [stage?_silent _ (hs w)]
    by_cases hw : w = who
    · subst hw
      rw [ht, Function.update_self] at hp
      obtain ⟨rfl, rfl⟩ := Prod.mk.inj (Option.some.inj hp)
      exact hk
    · rw [ht, Function.update_of_ne hw] at hp
      exact h.staged w role' p' hp
  begun i role' p' hp := by
    rw [List.mem_append, List.mem_singleton, eq_comm (b := e), hb]
    by_cases hw : .task i = who
    · subst hw
      rw [ht, Function.update_self] at hp
      obtain ⟨rfl, -⟩ := Prod.mk.inj (Option.some.inj hp)
      simp [(h.unborn i (fresh i rfl)).2]
    · rw [ht, Function.update_of_ne hw] at hp
      rw [h.begun i role' p' hp]
      simp [Ne.symm hw]
  unborn i hi := by
    have hw : .task i ≠ who := by
      rintro rfl
      simp [ht] at hi
    rw [ht, Function.update_of_ne hw] at hi
    obtain ⟨ha, hbn⟩ := h.unborn i hi
    refine ⟨by rw [actionsOf_append, ha, hs]; rfl, ?_⟩
    rw [List.mem_append, List.mem_singleton, eq_comm (b := e), hb]
    simp [hbn, Ne.symm hw]
  reader := by
    by_cases hw : .reader = who
    · subst hw
      exact ⟨p, by rw [ht, Function.update_self, hr.1 rfl]⟩
    · rw [ht, Function.update_of_ne hw]
      exact h.reader

theorem Tracks.acts {who : Actor} {role : Role} {a : Action} {go : a.Answer → Program Unit}
    {answer : a.Answer} (h : d.Tracks es s) (here : s.thread? who = some (role, .ask a go))
    (ht : s'.thread? = Function.update s.thread? who (some (role, go answer))) :
    d.Tracks (es ++ [.did who a]) s' where
  staged w role' p' hp := by
    by_cases hw : w = who
    · subst hw
      rw [ht, Function.update_self] at hp
      obtain ⟨rfl, rfl⟩ := Prod.mk.inj (Option.some.inj hp)
      obtain ⟨st, hst, st', hn, hk⟩ := h.staged w role _ here
      exact ⟨st', by rw [stage?_did, hst]; exact hn, hk answer⟩
    · rw [ht, Function.update_of_ne hw] at hp
      rw [stage?_silent _ (actionsOf_did_ne (Ne.symm hw) a)]
      exact h.staged w role' p' hp
  begun i role' p' hp := by
    have hi : ∃ p, s.thread? (.task i) = some (role', p) := by
      by_cases hw : .task i = who
      · subst hw
        rw [ht, Function.update_self] at hp
        exact ⟨_, (Prod.mk.inj (Option.some.inj hp)).1 ▸ here⟩
      · rw [ht, Function.update_of_ne hw] at hp
        exact ⟨p', hp⟩
    obtain ⟨p, hp⟩ := hi
    rw [h.begun i role' p hp]
    simp
  unborn i hi := by
    have hw : .task i ≠ who := by
      rintro rfl
      simp [ht] at hi
    rw [ht, Function.update_of_ne hw] at hi
    obtain ⟨ha, hb⟩ := h.unborn i hi
    exact ⟨by rw [actionsOf_append, ha, actionsOf_did_ne (Ne.symm hw)]; rfl, by simpa using hb⟩
  reader := by
    by_cases hw : .reader = who
    · subst hw
      obtain ⟨p, hp⟩ := h.reader
      rw [here] at hp
      obtain ⟨rfl, -⟩ := Prod.mk.inj (Option.some.inj hp)
      exact ⟨_, by rw [ht, Function.update_self]⟩
    · rw [ht, Function.update_of_ne hw]
      exact h.reader

theorem Tracks.step {e : Option Event} (kept : d.Kept service) (h : d.Tracks es s)
    (step : Step client service s e s') : d.Tracks (es ++ e.toList) s' := by
  cases step with
  | quiet _ threads => exact h.silent threads (fun _ => rfl) (by simp)
  | notice m n _ idle _ threads =>
    apply h.starts threads (fun _ => rfl) (by simp) (by simp) (by simp)
    obtain ⟨st, hst, hr⟩ := h.staged .reader .reader (.done ()) (by rw [thread?, idle])
    exact ⟨st, hst, kept.notice m n st hr⟩
  | request m r i _ _ fresh _ threads =>
    apply h.starts threads (fun _ => rfl) (by simp) (by simp) (by simp [fresh])
    exact ⟨d.start, by rw [stage?, (h.unborn i fresh).1]; rfl, kept.request r m⟩
  | begun i _ _ _ fresh _ threads =>
    apply h.starts threads (fun _ => rfl) (by simp) (by simp) (by simp [fresh])
    exact ⟨d.start, by rw [stage?, (h.unborn i fresh).1]; rfl, kept.refresh⟩
  | act who role a go answer here _ threads => exact h.acts here threads

theorem tracks (kept : d.Kept service) (run : Run client service (.initial site store) es s) :
    d.Tracks es s := by
  induction run with
  | start => exact tracks_start kept
  | move _ m h ih => exact ih.step kept (step_of_move h)

variable {e : Option Event} {who : Actor} {st st' : σ}

theorem Tracks.keeps {role : Role} {p : Program Unit} (h : d.Tracks es s)
    (here : s.thread? who = some (role, p)) (hst : d.stage? role who es = some st) :
    d.Keeps role p st := by
  obtain ⟨st', hst', keeps⟩ := h.staged who role p here
  obtain rfl := Option.some.inj (hst.symm.trans hst')
  exact keeps

def At (d : Discipline σ) (es : List Event) (s : Server κ) (who : Actor) (st : σ) : Prop :=
  ∃ role p, s.thread? who = some (role, p) ∧ d.stage? role who es = some st

theorem At.unique (h : d.At es s who st) (h' : d.At es s who st') : st = st' := by
  obtain ⟨role, p, hp, hst⟩ := h
  obtain ⟨role', p', hp', hst'⟩ := h'
  rw [hp] at hp'
  obtain ⟨rfl, -⟩ := Prod.mk.inj (Option.some.inj hp')
  exact Option.some.inj (hst.symm.trans hst')

theorem Tracks.acted {a : Action} (h : d.Tracks es s)
    (step : Step client service s (some (.did who a)) s') :
    ∃ role st st', d.At es s who st ∧ d.next role st a = some st' := by
  cases step with
  | act _ role _ _ _ here =>
    obtain ⟨st, hst, st', hn, -⟩ := h.staged who role _ here
    exact ⟨role, st, st', ⟨role, _, here, hst⟩, hn⟩

theorem at_step (tracks : d.Tracks es s) (step : Step client service s e s')
    (h : d.At (es ++ e.toList) s' who st') :
    st' = d.start ∨ (d.At es s who st' ∧ ∀ a, e ≠ some (.did who a)) ∨
      ∃ st a role, e = some (.did who a) ∧ d.At es s who st ∧ d.next role st a = some st' := by
  obtain ⟨role, p, hp, hst⟩ := h
  cases step.turn who with
  | left other same =>
    rw [same] at hp
    rw [stage?_silent _ (actionsOf_other other)] at hst
    exact .inr (.inl ⟨⟨role, p, hp, hst⟩, other⟩)
  | told m _ _ event idle now =>
    rw [now] at hp
    obtain ⟨rfl, -⟩ := Prod.mk.inj (Option.some.inj hp)
    rw [event, Option.toList, stage?_silent _ rfl] at hst
    exact .inr (.inl ⟨⟨.reader, _, idle, hst⟩, by simp [event]⟩)
  | born i _ _ task silent _ fresh now =>
    subst task
    rw [stage?_silent _ (actionsOf_other (silent _)), stage?, (tracks.unborn i fresh).1] at hst
    exact .inl (Option.some.inj hst).symm
  | acted _ a _ _ event here now =>
    rw [now] at hp
    obtain ⟨rfl, -⟩ := Prod.mk.inj (Option.some.inj hp)
    rw [event, Option.toList, stage?_did, Option.bind_eq_some_iff] at hst
    obtain ⟨st, hst, hn⟩ := hst
    exact .inr (.inr ⟨st, a, _, event, ⟨_, _, here, hst⟩, hn⟩)

theorem At.step (h : d.At es s who st) (step : Step client service s e s')
    (after : d.Tracks (es ++ e.toList) s') :
    d.At (es ++ e.toList) s' who st ∧ (∀ a, e ≠ some (.did who a)) ∨
      ∃ a st' role, e = some (.did who a) ∧ d.next role st a = some st' ∧
        d.At (es ++ e.toList) s' who st' := by
  obtain ⟨role, p, hp, hst⟩ := h
  cases step.turn who with
  | left other same =>
    exact .inl ⟨⟨role, p, same.trans hp, by rw [stage?_silent _ (actionsOf_other other), hst]⟩, other⟩
  | told m _ _ event idle now =>
    rw [hp] at idle
    obtain ⟨rfl, -⟩ := Prod.mk.inj (Option.some.inj idle)
    have other : ∀ a, e ≠ some (.did who a) := by simp [event]
    exact .inl ⟨⟨_, _, now, by rw [stage?_silent _ (actionsOf_other other), hst]⟩, other⟩
  | born _ _ _ _ _ _ fresh => simp [hp] at fresh
  | acted role' a _ _ event here now =>
    rw [hp] at here
    obtain ⟨rfl, -⟩ := Prod.mk.inj (Option.some.inj here)
    obtain ⟨st', hst', -⟩ := after.staged _ _ _ now
    have hn : d.next role st a = some st' := by
      rw [event, Option.toList, stage?_did, hst] at hst'
      exact hst'
    exact .inr ⟨a, st', role, event, hn, role, _, now, hst'⟩

end Discipline

end BuildServer.Server
