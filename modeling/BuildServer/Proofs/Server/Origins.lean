import BuildServer.Proofs.Dialogue.Course
import BuildServer.Proofs.Server.Stages

/-!
What the tasks of a server were started for. Every task has come to where it is from the program for its
message, or from that of a background refresh, by the actions that it is seen to take.
-/

namespace BuildServer

def Incoming.request? (m : Incoming) : Option Request :=
  match Registry.standard.lookup m.method with
  | some (.request r) => some r
  | _ => none

def Incoming.isNotice (m : Incoming) : Bool :=
  match Registry.standard.lookup m.method with
  | some (.notice _) => true
  | _ => false

namespace Server

open Dialogue (Leads)

abbrev Purpose := Option Incoming

def Purpose.kind : Purpose → TaskKind
  | some _ => .request
  | none => .refresh

def Purpose.program (service : Service) : Purpose → Program Unit
  | some m => service.respond m.request? m
  | none => service.backgroundRefresh

def started? : Event → Option Purpose
  | .taken m => if m.isNotice then none else some (some m)
  | .begun _ => some none
  | .did _ _ => none

def purposes (es : List Event) : List Purpose := es.filterMap started?

variable {κ : Type} {client : Client κ} {service : Service} {site : κ} {store : Store}
  {es fs : List Event} {e : Option Event} {s s' : Server κ} {i : Nat}

theorem purposes_append (es fs : List Event) : purposes (es ++ fs) = purposes es ++ purposes fs :=
  List.filterMap_append

theorem thread?_task_isSome (s : Server κ) (i : Nat) :
    (s.thread? (.task i)).isSome ↔ i < s.tasks.length := by
  simp [thread?]

theorem index_of_fresh {x : Role × Program Unit} (fresh : s.thread? (.task i) = none)
    (threads : s'.thread? = Function.update s.thread? (.task i) (some x)) :
    i = s.tasks.length ∧ s'.tasks.length = s.tasks.length + 1 := by
  have hs' (j : Nat) : j < s'.tasks.length ↔ j < s.tasks.length ∨ j = i := by
    rw [← thread?_task_isSome, ← thread?_task_isSome, threads]
    by_cases hj : j = i
    · simp [hj]
    · rw [Function.update_of_ne (by simpa using hj)]
      simp [hj]
  have hi : ¬i < s.tasks.length := by
    rw [← thread?_task_isSome, fresh]
    simp
  have hself := hs' i
  have hfirst := hs' s.tasks.length
  have hsecond := hs' (s.tasks.length + 1)
  omega

structure Origins (service : Service) (es : List Event) (s : Server κ) : Prop where
  count : s.tasks.length = (purposes es).length
  course : ∀ i p, (purposes es)[i]? = some p → ∃ d, s.thread? (.task i) = some (.task p.kind, d) ∧
    (p.program service).Leads (actionsOf (.task i) es) d
  unborn : ∀ i, (purposes es).length ≤ i → actionsOf (.task i) es = []

theorem origins_start : Origins service [] (Server.initial site store : Server κ) where
  count := rfl
  course i p h := by simp [purposes] at h
  unborn i _ := rfl

theorem Origins.silent {fs : List Event} (h : Origins service es s) (hp : purposes fs = [])
    (ha : ∀ i, actionsOf (.task i) fs = []) (hs : s'.tasks.length = s.tasks.length)
    (ht : ∀ i, s'.thread? (.task i) = s.thread? (.task i)) : Origins service (es ++ fs) s' where
  count := by rw [hs, h.count, purposes_append, hp, List.append_nil]
  course i p hi := by
    rw [purposes_append, hp, List.append_nil] at hi
    rw [ht, actionsOf_append, ha, List.append_nil]
    exact h.course i p hi
  unborn i hi := by
    rw [purposes_append, hp, List.append_nil] at hi
    rw [actionsOf_append, ha, List.append_nil]
    exact h.unborn i hi

theorem Origins.starts {e : Event} {p : Purpose} (h : Origins service es s) (he : started? e = some p)
    (ha : ∀ i, actionsOf (.task i) [e] = []) (fresh : s.thread? (.task i) = none)
    (ht : s'.thread? = Function.update s.thread? (.task i) (some (.task p.kind, p.program service))) :
    Origins service (es ++ [e]) s' := by
  obtain ⟨hi, hlength⟩ := index_of_fresh fresh ht
  have hpurposes : purposes (es ++ [e]) = purposes es ++ [p] := by
    rw [purposes_append, purposes, purposes, List.filterMap_cons, he]
    rfl
  have hlast : i = (purposes es).length := hi.trans h.count
  refine ⟨?_, fun j q hj => ?_, fun j hj => ?_⟩
  · rw [hlength, h.count, hpurposes, List.length_append, List.length_singleton]
  · rw [actionsOf_append, ha, List.append_nil]
    by_cases hji : j = i
    · subst hji
      rw [hpurposes, hlast, List.getElem?_append_right (Nat.le_refl _), Nat.sub_self] at hj
      obtain rfl := Option.some.inj hj
      refine ⟨p.program service, by rw [ht, Function.update_self], ?_⟩
      rw [h.unborn j (by omega)]
      exact .stay
    · rw [ht, Function.update_of_ne (by simpa using hji)]
      apply h.course j q
      have hlt := (List.getElem?_eq_some_iff.1 hj).1
      rw [hpurposes, List.length_append, List.length_singleton] at hlt
      rwa [hpurposes, List.getElem?_append_left (by omega)] at hj
  · rw [hpurposes, List.length_append, List.length_singleton] at hj
    rw [actionsOf_append, ha, List.append_nil]
    exact h.unborn j (by omega)

theorem thread?_length_congr (h : ∀ i, (s'.thread? (.task i)).isSome = (s.thread? (.task i)).isSome) :
    s'.tasks.length = s.tasks.length := by
  have hlt (i : Nat) : i < s'.tasks.length ↔ i < s.tasks.length := by
    rw [← thread?_task_isSome, ← thread?_task_isSome, h]
  have h₁ := hlt s.tasks.length
  have h₂ := hlt s'.tasks.length
  omega

theorem Origins.acts {who : Actor} {role : Role} {a : Action} {go : a.Answer → Program Unit}
    {answer : a.Answer} (h : Origins service es s) (here : s.thread? who = some (role, .ask a go))
    (ht : s'.thread? = Function.update s.thread? who (some (role, go answer))) :
    Origins service (es ++ [.did who a]) s' := by
  have hlength : s'.tasks.length = s.tasks.length := by
    apply thread?_length_congr
    intro i
    rw [ht]
    by_cases hi : .task i = who
    · rw [hi, Function.update_self, here]
      rfl
    · rw [Function.update_of_ne hi]
  have hpurposes : purposes (es ++ [.did who a]) = purposes es := by
    rw [purposes_append]
    exact List.append_nil _
  refine ⟨by rw [hlength, hpurposes, h.count], fun i p hi => ?_, fun i hi => ?_⟩
  · rw [hpurposes] at hi
    obtain ⟨d, hd, leads⟩ := h.course i p hi
    by_cases hw : .task i = who
    · subst hw
      rw [here] at hd
      obtain ⟨rfl, rfl⟩ := Prod.mk.inj (Option.some.inj hd)
      refine ⟨go answer, by rw [ht, Function.update_self], ?_⟩
      rw [actionsOf_append, actionsOf_did]
      exact leads.snoc answer
    · refine ⟨d, by rw [ht, Function.update_of_ne hw, hd], ?_⟩
      rwa [actionsOf_append, actionsOf_did_ne (Ne.symm hw), List.append_nil]
  · rw [hpurposes] at hi
    have hw : who ≠ .task i := by
      rintro rfl
      have hsome := (thread?_task_isSome s i).1 (by rw [here]; rfl)
      have := h.count
      omega
    rw [actionsOf_append, actionsOf_did_ne hw, h.unborn i hi]
    rfl

theorem Origins.step (h : Origins service es s) (step : Step client service s e s') :
    Origins service (es ++ e.toList) s' := by
  cases step with
  | quiet _ threads =>
    exact h.silent rfl (fun _ => rfl) (thread?_length_congr fun i => by rw [threads]) fun i => by rw [threads]
  | notice m n known _ _ threads =>
    have ht (i : Nat) : s'.thread? (.task i) = s.thread? (.task i) := by
      rw [threads, Function.update_of_ne (by simp)]
    have hnotice : m.isNotice = true := by rw [Incoming.isNotice, known]
    apply h.silent _ (fun _ => rfl) (thread?_length_congr fun i => by rw [ht]) ht
    simp [purposes, started?, hnotice]
  | request m r i known _ fresh _ threads =>
    have hr : m.request? = r := by
      rw [Incoming.request?, known]
      cases r <;> rfl
    have hnotice : m.isNotice = false := by
      rw [Incoming.isNotice, known]
      cases r <;> rfl
    apply h.starts (p := some m) _ (fun _ => rfl) fresh
    · rw [threads, Purpose.program, hr]
      rfl
    · simp [started?, hnotice]
  | begun i _ _ _ fresh _ threads =>
    exact h.starts (p := none) rfl (fun _ => rfl) fresh threads
  | act who role a go answer here _ threads => exact h.acts here threads

theorem origins (run : Run client service (.initial site store) es s) : Origins service es s := by
  induction run with
  | start => exact origins_start
  | move _ m h ih => exact ih.step (step_of_move h)

theorem Origins.purpose {role : Role} {d : Program Unit} (h : Origins service es s)
    (here : s.thread? (.task i) = some (role, d)) :
    ∃ p, (purposes es)[i]? = some p ∧ role = .task p.kind ∧
      (p.program service).Leads (actionsOf (.task i) es) d := by
  have hi := (thread?_task_isSome s i).1 (by rw [here]; rfl)
  rw [h.count] at hi
  obtain ⟨d', hd', leads⟩ := h.course i _ (List.getElem?_eq_getElem hi)
  rw [here] at hd'
  obtain ⟨rfl, rfl⟩ := Prod.mk.inj (Option.some.inj hd')
  exact ⟨_, List.getElem?_eq_getElem hi, rfl, leads⟩

theorem Run.leads {u : Server κ} {role : Role} {p : Program Unit} (run : Run client service u es s)
    (here : u.thread? (.task i) = some (role, p)) :
    ∃ d, s.thread? (.task i) = some (role, d) ∧ p.Leads (actionsOf (.task i) es) d := by
  induction run with
  | start => exact ⟨p, here, .stay⟩
  | @move es v w before m hm ih =>
    obtain ⟨d, hd, leads⟩ := ih
    have step := step_of_move hm
    generalize v.event? m = e at step ⊢
    rw [actionsOf_append]
    cases step.turn (.task i) with
    | left other same => exact ⟨d, same.trans hd, by rwa [actionsOf_other other, List.append_nil]⟩
    | told _ _ reader => cases reader
    | born _ _ _ _ _ _ fresh => simp [hd] at fresh
    | acted _ a go answer event at_task now =>
      rw [hd] at at_task
      obtain ⟨rfl, rfl⟩ := Prod.mk.inj (Option.some.inj at_task)
      rw [event, Option.toList, actionsOf_did]
      exact ⟨go answer, now, leads.snoc answer⟩

/-- A task was started for a message. -/
def WorksOn (es : List Event) (i : Nat) (m : Incoming) : Prop := (purposes es)[i]? = some (some m)

theorem Origins.request {d : Program Unit} (h : Origins service es s)
    (here : s.thread? (.task i) = some (.task .request, d)) : ∃ m, WorksOn es i m := by
  obtain ⟨p, hp, hrole, -⟩ := h.purpose here
  cases p with
  | none => cases hrole
  | some m => exact ⟨m, hp⟩

theorem Origins.refresh {d : Program Unit} (h : Origins service es s)
    (here : s.thread? (.task i) = some (.task .refresh, d)) :
    service.backgroundRefresh.Leads (actionsOf (.task i) es) d := by
  obtain ⟨p, -, hrole, leads⟩ := h.purpose here
  cases p with
  | none => exact leads
  | some m => cases hrole

structure Restrained (service : Service) (fit : Incoming → Prop) (allowed : Role → Action → Prop) :
    Prop where
  notice : ∀ m n, fit m → Registry.standard.lookup m.method = some (.notice n) →
    (service.notice m n).Asks (allowed .reader)
  request : ∀ r m, (service.respond r m).Asks (allowed (.task .request))
  refresh : service.backgroundRefresh.Asks (allowed (.task .refresh))

structure Restrains (allowed : Role → Action → Prop) (es : List Event) (s : Server κ) : Prop where
  ahead : ∀ who role p, s.thread? who = some (role, p) → p.Asks (allowed role)
  behind : ∀ who a, .did who a ∈ es → ∃ role p, s.thread? who = some (role, p) ∧ allowed role a

variable {fit : Incoming → Prop} {allowed : Role → Action → Prop}

theorem Restrains.starts {who : Actor} {role : Role} {p : Program Unit} {e : Event}
    (h : Restrains allowed es s) (he : ∀ w a, e ≠ .did w a) (hp : p.Asks (allowed role))
    (fresh : ∀ role' p', s.thread? who = some (role', p') → role' = role)
    (ht : s'.thread? = Function.update s.thread? who (some (role, p))) :
    Restrains allowed (es ++ [e]) s' where
  ahead w role' p' hw := by
    by_cases hwho : w = who
    · subst hwho
      rw [ht, Function.update_self] at hw
      obtain ⟨rfl, rfl⟩ := Prod.mk.inj (Option.some.inj hw)
      exact hp
    · rw [ht, Function.update_of_ne hwho] at hw
      exact h.ahead w role' p' hw
  behind w a hw := by
    rw [List.mem_append, List.mem_singleton] at hw
    obtain ⟨role', p', hp', ha⟩ := h.behind w a (hw.resolve_right (Ne.symm (he w a)))
    by_cases hwho : w = who
    · subst hwho
      obtain rfl := fresh role' p' hp'
      exact ⟨role', p, by rw [ht, Function.update_self], ha⟩
    · exact ⟨role', p', by rw [ht, Function.update_of_ne hwho, hp'], ha⟩

theorem Restrains.acts {who : Actor} {role : Role} {a : Action} {go : a.Answer → Program Unit}
    {answer : a.Answer} (h : Restrains allowed es s) (here : s.thread? who = some (role, .ask a go))
    (ht : s'.thread? = Function.update s.thread? who (some (role, go answer))) :
    Restrains allowed (es ++ [.did who a]) s' := by
  obtain ⟨ha, hgo⟩ := h.ahead who role _ here
  refine ⟨fun w role' p' hw => ?_, fun w b hw => ?_⟩
  · by_cases hwho : w = who
    · subst hwho
      rw [ht, Function.update_self] at hw
      obtain ⟨rfl, rfl⟩ := Prod.mk.inj (Option.some.inj hw)
      exact hgo answer
    · rw [ht, Function.update_of_ne hwho] at hw
      exact h.ahead w role' p' hw
  · rw [List.mem_append, List.mem_singleton] at hw
    rcases hw with hw | hw
    · obtain ⟨role', p', hp', hb⟩ := h.behind w b hw
      by_cases hwho : w = who
      · subst hwho
        rw [here] at hp'
        obtain ⟨rfl, -⟩ := Prod.mk.inj (Option.some.inj hp')
        exact ⟨role, go answer, by rw [ht, Function.update_self], hb⟩
      · exact ⟨role', p', by rw [ht, Function.update_of_ne hwho, hp'], hb⟩
    · obtain ⟨rfl, rfl⟩ := Event.did.inj hw
      exact ⟨role, go answer, by rw [ht, Function.update_self], ha⟩

theorem Restrains.step (restrained : Restrained service fit allowed) (h : Restrains allowed es s)
    (hfit : ∀ m, e = some (.taken m) → fit m) (step : Step client service s e s') :
    Restrains allowed (es ++ e.toList) s' := by
  cases step with
  | quiet _ threads => exact ⟨by rw [threads]; exact h.ahead, by rw [threads]; simpa using h.behind⟩
  | notice m n known idle _ threads =>
    apply h.starts (by simp) (restrained.notice m n (hfit m rfl) known) _ threads
    intro role p hp
    rw [thread?, idle] at hp
    exact (Prod.mk.inj (Option.some.inj hp)).1.symm
  | request m r i _ _ fresh _ threads =>
    exact h.starts (by simp) (restrained.request r m) (by simp [fresh]) threads
  | begun i _ _ _ fresh _ threads =>
    exact h.starts (by simp) restrained.refresh (by simp [fresh]) threads
  | act who role a go answer here _ threads => exact h.acts here threads

theorem restrains (restrained : Restrained service fit allowed)
    (run : Run client service (.initial site store) es s) (hfit : ∀ m, .taken m ∈ es → fit m) :
    Restrains allowed es s := by
  induction run with
  | start =>
    refine ⟨fun who role p h => ?_, by simp⟩
    cases who with
    | reader =>
      obtain ⟨rfl, rfl⟩ := Prod.mk.inj (Option.some.inj h)
      trivial
    | task i => simp [thread?, Server.initial] at h
  | move _ m h ih =>
    refine (ih fun m hm => hfit m (List.mem_append_left _ hm)).step restrained (fun m' hm => ?_)
      (step_of_move h)
    apply hfit
    rw [hm]
    simp

end Server

end BuildServer
