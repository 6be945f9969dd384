import BuildServer.Proofs.Dialogue.Hearing
import BuildServer.Proofs.Server.Effects
import BuildServer.Server.Refresh

/-!
Calls of a graph that go on at the same time. Each takes its actions in turns with the others, so a swap and the
calls of the build tool before it are moves of their own, and only refreshes wait for each other.
-/

namespace BuildServer

inductive GraphCall where
  | refresh (cached : Bool)
  | snapshot
  | cachedSnapshot
  | invalidate
  deriving DecidableEq, Repr

namespace GraphCall

abbrev Answer : GraphCall → Type
  | refresh _ => Except BuildError Refresh
  | snapshot => Except BuildError Snapshot
  | cachedSnapshot => Option Snapshot
  | invalidate => Unit

def given? : (c : GraphCall) → c.Answer → Option Snapshot
  | refresh _, r => r.toOption.map Refresh.snapshot
  | snapshot, r => r.toOption
  | cachedSnapshot, found => found
  | invalidate, _ => none

def failed : (c : GraphCall) → c.Answer → Bool
  | refresh _, r => !r.isOk
  | snapshot, r => !r.isOk
  | _, _ => false

end GraphCall

namespace Service

def conclude : Except BuildError Snapshot → Program (Except BuildError Refresh)
  | .error e => .ask .finishRefresh fun _ => .done (.error e)
  | .ok new => .ask (.replaceSnapshot new) fun previous =>
    .ask .finishRefresh fun _ => .done (.ok ⟨new, new.changesFrom previous⟩)

theorem refresh_eq (service : Service) (cached : Bool) : service.refresh cached = .ask .beginRefresh fun _ =>
    (Program.inquire (Attempt.snapshot service.project service.active cached).run).bind conclude := by
  refine congrArg (Dialogue.ask _) (funext fun _ => ?_)
  refine congrArg (Program.inquire _).bind (funext fun r => ?_)
  cases r <;> rfl

theorem snapshot_eq (service : Service) : service.snapshot = .ask .cachedSnapshot fun
    | some found => .done (.ok found)
    | none => (service.refresh true).bind fun r => .done (r.map Refresh.snapshot) := by
  refine congrArg (Dialogue.ask _) (funext fun found => ?_)
  cases found <;> rfl

def carryOut (service : Service) : (c : GraphCall) → Program c.Answer
  | .refresh cached => service.refresh cached
  | .snapshot => service.snapshot
  | .cachedSnapshot => Program.act .cachedSnapshot
  | .invalidate => Program.act .invalidate

end Service

inductive GraphEvent where
  | called (c : GraphCall)
  | did (call : Nat) (a : Action) (answer : a.Answer)

structure GraphTask where
  call : GraphCall
  program : Program call.Answer

structure GraphState (κ : Type) where
  shared : Shared κ
  tasks : List GraphTask

inductive GraphMove where
  | call (c : GraphCall)
  | act (task : Nat)

namespace GraphState

variable {κ : Type}

def move (client : Client κ) (service : Service) (s : GraphState κ) :
    GraphMove → Option (GraphEvent × GraphState κ)
  | .call c => some (.called c, { s with tasks := s.tasks ++ [⟨c, service.carryOut c⟩] })
  | .act i =>
    match s.tasks[i]? with
    | some ⟨c, .ask a go⟩ =>
      (Shared.perform client a s.shared).map fun (x, shared) =>
        (.did i a x, { shared := shared, tasks := s.tasks.set i ⟨c, go x⟩ })
    | _ => none

def play (client : Client κ) (service : Service) :
    List GraphMove → GraphState κ → List GraphEvent × GraphState κ
  | [], s => ([], s)
  | m :: ms, s =>
    match s.move client service m with
    | some (e, s') =>
      let (es, s'') := play client service ms s'
      (e :: es, s'')
    | none => play client service ms s

end GraphState

/-- Moves of calls in any order, from a state in which no call has been made. -/
inductive Interleaved {κ : Type} (client : Client κ) (service : Service) (start : Shared κ) :
    List GraphEvent → GraphState κ → Prop
  | start : Interleaved client service start [] ⟨start, []⟩
  | move {es : List GraphEvent} {e : GraphEvent} {s s' : GraphState κ}
    (before : Interleaved client service start es s) (m : GraphMove)
    (h : s.move client service m = some (e, s')) : Interleaved client service start (es ++ [e]) s'

namespace GraphEvent

def heard? (i : Nat) : GraphEvent → Option ((a : Action) × a.Answer)
  | .did j a x => if j = i then some ⟨a, x⟩ else none
  | .called _ => none

end GraphEvent

def courseOf (i : Nat) (es : List GraphEvent) : List ((a : Action) × a.Answer) :=
  es.filterMap (GraphEvent.heard? i)

section

variable {i j : Nat} {a : Action} {x : a.Answer} {es fs : List GraphEvent}

@[simp] theorem courseOf_append : courseOf i (es ++ fs) = courseOf i es ++ courseOf i fs :=
  List.filterMap_append

@[simp] theorem courseOf_called {c : GraphCall} : courseOf i [.called c] = [] := rfl

theorem courseOf_did : courseOf i [.did i a x] = [⟨a, x⟩] := by
  simp [courseOf, GraphEvent.heard?]

theorem courseOf_did_ne (h : j ≠ i) : courseOf i [.did j a x] = [] := by
  simp [courseOf, GraphEvent.heard?, h]

theorem mem_courseOf : ⟨a, x⟩ ∈ courseOf i es ↔ .did i a x ∈ es := by
  rw [courseOf, List.mem_filterMap]
  constructor
  · rintro ⟨e, he, heard⟩
    cases e with
    | called c => cases heard
    | did j b y =>
      simp only [GraphEvent.heard?, Option.ite_none_right_eq_some, Option.some.injEq] at heard
      obtain ⟨rfl, heard⟩ := heard
      cases heard
      exact he
  · exact fun h => ⟨_, h, if_pos rfl⟩

end

variable {κ : Type} {client : Client κ} {service : Service} {start : Shared κ} {es : List GraphEvent}
  {e : GraphEvent} {s s' : GraphState κ} {m : GraphMove}

theorem GraphState.move_cases (h : s.move client service m = some (e, s')) :
    (∃ c, e = .called c ∧ s'.shared = s.shared ∧ s'.tasks = s.tasks ++ [⟨c, service.carryOut c⟩]) ∨
      ∃ i c a go x, e = .did i a x ∧ s.tasks[i]? = some ⟨c, .ask a go⟩ ∧
        Shared.perform client a s.shared = some (x, s'.shared) ∧ s'.tasks = s.tasks.set i ⟨c, go x⟩ := by
  cases m with
  | call c =>
    cases h
    exact .inl ⟨c, rfl, rfl, rfl⟩
  | act i =>
    simp only [GraphState.move] at h
    split at h
    · rename_i c a go here
      obtain ⟨⟨x, shared⟩, answered, h⟩ := Option.map_eq_some_iff.mp h
      cases h
      exact .inr ⟨i, c, a, go, x, rfl, here, answered, rfl⟩
    · cases h

namespace Interleaved

structure Heard (service : Service) (es : List GraphEvent) (s : GraphState κ) : Prop where
  made : ∀ i t, s.tasks[i]? = some t → (service.carryOut t.call).Hears (courseOf i es) t.program
  unmade : ∀ i, s.tasks[i]? = none → courseOf i es = []

theorem Heard.move (h : Heard service es s) (hm : s.move client service m = some (e, s')) :
    Heard service (es ++ [e]) s' := by
  rcases GraphState.move_cases hm with ⟨c, rfl, -, tasks⟩ | ⟨i, c, a, go, x, rfl, here, -, tasks⟩
  · refine ⟨fun i t ht => ?_, fun i hi => ?_⟩
    · rw [courseOf_append, courseOf_called, List.append_nil]
      rw [tasks, List.getElem?_append] at ht
      split at ht
      · exact h.made i t ht
      · rename_i behind
        rw [List.getElem?_singleton, Option.ite_none_right_eq_some, Option.some.injEq] at ht
        obtain ⟨-, rfl⟩ := ht
        rw [h.unmade i (List.getElem?_eq_none (Nat.le_of_not_lt behind))]
        exact .stay
    · rw [courseOf_append, courseOf_called, List.append_nil]
      refine h.unmade i (List.getElem?_eq_none ?_)
      have := List.getElem?_eq_none_iff.mp hi
      rw [tasks, List.length_append] at this
      exact Nat.le_of_add_right_le this
  · refine ⟨fun j t ht => ?_, fun j hj => ?_⟩
    · rw [tasks] at ht
      rw [courseOf_append]
      by_cases hij : i = j
      · subst hij
        rw [List.getElem?_set_self (List.getElem?_eq_some_iff.mp here).1] at ht
        cases ht
        rw [courseOf_did]
        exact (h.made i _ here).snoc x
      · rw [List.getElem?_set_ne hij] at ht
        rw [courseOf_did_ne hij, List.append_nil]
        exact h.made j t ht
    · rw [tasks] at hj
      have hij : i ≠ j := by
        rintro rfl
        rw [List.getElem?_set_self (List.getElem?_eq_some_iff.mp here).1] at hj
        cases hj
      rw [List.getElem?_set_ne hij] at hj
      rw [courseOf_append, courseOf_did_ne hij, List.append_nil]
      exact h.unmade j hj

theorem heard (h : Interleaved client service start es s) : Heard service es s := by
  induction h with
  | start => exact ⟨by simp, fun _ _ => rfl⟩
  | move _ m hm ih => exact ih.move hm

theorem of_prefix {x : List GraphEvent} (h : Interleaved client service start es s) (hx : x <+: es) :
    ∃ u, Interleaved client service start x u := by
  induction h with
  | start =>
    obtain rfl := List.prefix_nil.mp hx
    exact ⟨_, .start⟩
  | move before m hm ih =>
    rcases List.prefix_concat_iff.mp hx with rfl | hx
    · exact ⟨_, before.move m hm⟩
    · exact ih hx

theorem moved {x : List GraphEvent} (h : Interleaved client service start (x ++ [e]) s) :
    ∃ u m, Interleaved client service start x u ∧ u.move client service m = some (e, s) := by
  generalize hes : x ++ [e] = es at h
  cases h with
  | start => cases List.append_ne_nil_of_right_ne_nil x (List.cons_ne_nil e []) hes
  | move before m hm =>
    obtain ⟨rfl, he⟩ := List.append_inj' hes rfl
    cases he
    exact ⟨_, m, before, hm⟩

theorem play (h : Interleaved client service start es s) (ms : List GraphMove) :
    Interleaved client service start (es ++ (s.play client service ms).1) (s.play client service ms).2 := by
  induction ms generalizing es s with
  | nil => simpa [GraphState.play] using h
  | cons m ms ih =>
    rw [GraphState.play]
    split
    · rename_i e s' hm
      simpa using ih (h.move m hm)
    · exact ih h

theorem read (h : Interleaved client service start es s) : Interleaved client service start
    (es ++ [.called .cachedSnapshot] ++ [.did s.tasks.length .cachedSnapshot s.shared.snapshot])
    ⟨s.shared, s.tasks ++ [⟨.cachedSnapshot, .done s.shared.snapshot⟩]⟩ := by
  refine (h.move (.call .cachedSnapshot) rfl).move (.act s.tasks.length) ?_
  simp [GraphState.move, Service.carryOut, Program.act, Dialogue.question, Shared.perform]

end Interleaved

end BuildServer
