import BuildServer.Proofs.Graph.Announcement
import BuildServer.Proofs.Graph.Outcomes
import BuildServer.Proofs.Graph.RefreshPhases

namespace BuildServer

def GraphEvent.write? : GraphEvent → Option (Option Snapshot)
  | .called _ => none
  | .did _ a _ => a.write?

def slotOf (es : List GraphEvent) : Option Snapshot :=
  es.foldl (fun slot e => e.write?.getD slot) none

@[simp] theorem slotOf_concat {es : List GraphEvent} {e : GraphEvent} :
    slotOf (es ++ [e]) = e.write?.getD (slotOf es) := by
  rw [slotOf, List.foldl_append]
  rfl

def looksOf (i : Nat) (es : List GraphEvent) : List ((p : Probe) × p.Answer) :=
  (courseOf i es).filterMap look?

abbrev GraphEvent.put (i : Nat) (new : Snapshot) (x : List GraphEvent) : GraphEvent :=
  .did i (.replaceSnapshot new) (slotOf x)

/-- A call puts a snapshot in the slot, which it has built from all that it asks the build tool, and puts no
other. -/
structure PutBy {κ : Type} (service : Service) (es : List GraphEvent) (s : GraphState κ) (i : Nat)
    (new : Snapshot) (x : List GraphEvent) : Prop where
  here : x ++ [.put i new x] <+: es
  built : ∃ t cached, s.tasks[i]? = some t ∧ t.call.cached? = some cached ∧
    (Attempt.snapshot service.project service.active cached).run.Hears (looksOf i es) (.done (.ok new))
  complete : looksOf i x = looksOf i es
  once : ∀ other previous y, y ++ [.did i (.replaceSnapshot other) previous] <+: es → y = x

def LastPut (es : List GraphEvent) (i : Nat) (new : Snapshot) (x : List GraphEvent) : Prop :=
  ∃ y, es = x ++ [.put i new x] ++ y ∧ ∀ e ∈ y, e.write? = none

def Changes.Tell (c : Changes) (previous : Option Snapshot) (new : Snapshot) : Prop :=
  match previous with
  | none => c.targets = new.uris ∧ c.options = new.optionsByFile
  | some old => (∀ uri, uri ∈ c.targets ↔ old.entry uri ≠ new.entry uri) ∧
    ∀ file o, c.options.get? file = some o ↔
      new.optionsByFile.get? file = some o ∧ old.optionsByFile.get? file ≠ some o

theorem Snapshot.changesFrom_tell {previous : Option Snapshot} {new : Snapshot} (consistent : new.Consistent)
    (h : ∀ old, previous = some old → old.Consistent) : (new.changesFrom previous).Tell previous new := by
  cases previous with
  | none => exact ⟨rfl, rfl⟩
  | some old =>
    refine ⟨fun uri => mem_changedTargets (h old rfl) consistent, fun file o => ?_⟩
    change (new.changedOptions (some old)).get? file = some o ↔ _
    rw [changedOptions, Table.get?_filter, Option.filter_eq_some_iff, bne_iff_ne]

theorem before_event {α : Type} {es x : List α} {e : α} (h : x ++ [e] <+: es) : x <+: es :=
  (List.prefix_append x [e]).trans h

theorem first_of_two {α : Type} {es x y : List α} {e f : α} (hx : x ++ [e] <+: es) (hy : y ++ [f] <+: es) :
    x = y ∧ e = f ∨ x ++ [e] <+: y ∨ y ++ [f] <+: x := by
  rcases List.prefix_or_prefix_of_prefix hx hy with h | h
  · rcases List.prefix_concat_iff.mp h with h | h
    · obtain ⟨hx, he⟩ := List.append_inj' h rfl
      exact .inl ⟨hx, List.head_eq_of_cons_eq he⟩
    · exact .inr (.inl h)
  · rcases List.prefix_concat_iff.mp h with h | h
    · obtain ⟨hy, hf⟩ := List.append_inj' h rfl
      exact .inl ⟨hy.symm, (List.head_eq_of_cons_eq hf).symm⟩
    · exact .inr (.inr h)

theorem LastPut.here {es x : List GraphEvent} {i : Nat} {new : Snapshot} (h : LastPut es i new x) :
    x ++ [.put i new x] <+: es := by
  obtain ⟨y, rfl, -⟩ := h
  exact List.prefix_append _ y

theorem LastPut.latest {es x y : List GraphEvent} {e : GraphEvent} {i : Nat} {new : Snapshot}
    (h : LastPut es i new x) (hy : y ++ [e] <+: es) (writes : e.write? ≠ none) :
    y = x ∧ e = .put i new x ∨ y ++ [e] <+: x := by
  obtain ⟨z, rfl, quiet⟩ := h
  rcases first_of_two hy (List.prefix_append _ z) with h | h | ⟨w, rfl⟩
  · exact .inl h
  · exact .inr h
  · obtain ⟨v, hv⟩ := hy
    simp only [List.append_assoc] at hv
    have hz := List.append_cancel_left (List.append_cancel_left hv)
    exact absurd (quiet e (by simp [← hz])) writes

theorem Shared.perform_slot {κ : Type} {client : Client κ} {a : Action} {x : a.Answer} {s s' : Shared κ}
    (h : perform client a s = some (x, s')) : s'.snapshot = a.write?.getD s.snapshot := by
  rw [perform_snapshot h]
  cases a <;> rfl

namespace Interleaved

variable {κ : Type} {client : Client κ} {service : Service} {site : κ} {store : Store} {start : Shared κ}
  {es x y : List GraphEvent} {s : GraphState κ} {i j : Nat} {a : Action} {answer : a.Answer}
  {new one two : Snapshot}

theorem slot_eq (h : Interleaved client service (.initial site store) es s) :
    s.shared.snapshot = slotOf es := by
  generalize hstart : Shared.initial site store = start at h
  induction h with
  | start =>
    subst hstart
    rfl
  | move _ m hm ih =>
    rw [slotOf_concat, ← ih]
    rcases GraphState.move_cases hm with ⟨c, rfl, shared, -⟩ | ⟨i, c, a, go, x, rfl, -, answered, -⟩
    · exact congrArg Shared.snapshot shared
    · exact Shared.perform_slot answered

theorem answered (h : Interleaved client service start es s) (here : x ++ [.did i a answer] <+: es) :
    ∃ u v, Interleaved client service start x u ∧ Shared.perform client a u.shared = some (answer, v) := by
  obtain ⟨v, hv⟩ := h.of_prefix here
  obtain ⟨u, m, hu, hm⟩ := hv.moved
  rcases GraphState.move_cases hm with ⟨c, he, -⟩ | ⟨j, c, b, go, z, he, -, performed, -⟩
  · cases he
  · cases he
    exact ⟨u, _, hu, performed⟩

theorem read_eq {found : Option Snapshot} (h : Interleaved client service (.initial site store) es s)
    (here : x ++ [.did i .cachedSnapshot found] <+: es) : found = slotOf x := by
  obtain ⟨u, v, hu, performed⟩ := h.answered here
  cases performed
  exact hu.slot_eq

theorem previous_eq {previous : Option Snapshot} (h : Interleaved client service (.initial site store) es s)
    (here : x ++ [.did i (.replaceSnapshot new) previous] <+: es) : previous = slotOf x := by
  obtain ⟨u, v, hu, performed⟩ := h.answered here
  cases performed
  exact hu.slot_eq

theorem last_put (h : Interleaved client service (.initial site store) es s) (cached : slotOf es = some new) :
    ∃ i x, LastPut es i new x := by
  generalize hstart : Shared.initial site store = start at h
  induction h with
  | start => cases cached
  | @move es e s s' before m hm ih =>
    subst hstart
    have after := before.move m hm
    cases hw : e.write? with
    | none =>
      rw [slotOf_concat, hw] at cached
      obtain ⟨i, x, y, rfl, quiet⟩ := ih cached
      refine ⟨i, x, y ++ [e], by simp, fun f hf => ?_⟩
      rcases List.mem_append.mp hf with hf | hf
      · exact quiet f hf
      · exact List.mem_singleton.mp hf ▸ hw
    | some written =>
      rw [slotOf_concat, hw] at cached
      obtain rfl : written = some new := cached
      cases e with
      | called c => cases hw
      | did i a answer =>
        cases a <;> cases hw
        obtain rfl := after.previous_eq (List.prefix_refl _)
        exact ⟨i, es, [], by simp, by simp⟩

theorem phase_put {previous : Option Snapshot} (h : Interleaved client service start es s)
    (here : x ++ [.did i (.replaceSnapshot new) previous] <+: es) :
    RefreshPhase.of i x = some .asking ∧
      RefreshPhase.of i (x ++ [.did i (.replaceSnapshot new) previous]) = some .swapped := by
  obtain ⟨u, hu⟩ := h.of_prefix here
  obtain ⟨st, st', hst, hnext, hst'⟩ := hu.phase_did
  obtain ⟨rfl, rfl⟩ := RefreshPhase.asking_of_replaceSnapshot hnext
  exact ⟨hst, hst'⟩

theorem not_put_twice {previous previous' : Option Snapshot} (h : Interleaved client service start es s)
    (here : x ++ [.did i (.replaceSnapshot one) previous] <+: y)
    (again : y ++ [.did i (.replaceSnapshot two) previous'] <+: es) : False := by
  have first := (h.phase_put (here.trans (before_event again))).2
  have second := (h.phase_put again).1
  obtain ⟨z, rfl⟩ := here
  rw [RefreshPhase.of_append, first] at second
  rcases RefreshPhase.before_or_asking second with h | h <;> cases h

theorem looksOf_behind {previous : Option Snapshot} (h : Interleaved client service start es s)
    (here : x ++ [.did i (.replaceSnapshot new) previous] <+: es) : looksOf i x = looksOf i es := by
  have swapped := (h.phase_put here).2
  obtain ⟨z, rfl⟩ := here
  obtain ⟨st, hst⟩ := h.phased i
  rw [RefreshPhase.of_append, swapped] at hst
  have finishes := RefreshPhase.finishes_of_swapped hst
  have silent : (courseOf i z).filterMap look? = [] :=
    filterMap_look?_eq_nil fun p hp => nomatch finishes _ hp
  rw [looksOf, looksOf, courseOf_append, courseOf_append, courseOf_did, List.filterMap_append,
    List.filterMap_append, silent, List.append_nil]
  exact (List.append_nil _).symm

theorem putBy (h : Interleaved client service (.initial site store) es s) (here : x ++ [.put i new x] <+: es) :
    PutBy service es s i new x where
  here := here
  complete := h.looksOf_behind here
  once other previous y hy := by
    rcases first_of_two hy here with ⟨rfl, -⟩ | later | earlier
    · rfl
    · exact (h.not_put_twice later here).elim
    · exact (h.not_put_twice earlier hy).elim
  built := by
    have looks := h.looksOf_behind here
    obtain ⟨z, hes⟩ := here
    have course : courseOf i es = courseOf i x ++ ⟨.replaceSnapshot new, slotOf x⟩ :: courseOf i z := by
      rw [← hes, courseOf_append, courseOf_append, courseOf_did, List.append_assoc]
      rfl
    cases ht : s.tasks[i]? with
    | none => simp [h.heard.unmade i ht] at course
    | some t =>
      have hears := h.heard.made i t ht
      rw [course] at hears
      obtain ⟨go, hput, -⟩ := hears.split
      obtain ⟨cached, hc, built⟩ := Service.carryOut_put hput
      exact ⟨t, cached, rfl, hc, looks ▸ built⟩

theorem put_in_order {previous previous' : Option Snapshot}
    (h : Interleaved client service (.initial site store) es s)
    (first : x ++ [.did i (.replaceSnapshot one) previous] <+: y)
    (second : y ++ [.did j (.replaceSnapshot two) previous'] <+: es) : looksOf j x = [] := by
  have held := (h.phase_put (first.trans (before_event second))).1
  have asking := (h.phase_put second).1
  have distinct : i ≠ j := by
    rintro rfl
    exact h.not_put_twice first second
  have past : x <+: y := before_event first
  obtain ⟨u, hu⟩ := h.of_prefix (past.trans (before_event second))
  obtain ⟨st, hst⟩ := hu.phased j
  obtain ⟨z, rfl⟩ := past
  rw [RefreshPhase.of_append, hst] at asking
  -- At the first put `j` is to refresh later. It does not refresh already, for `i` does.
  rcases RefreshPhase.before_or_asking asking with rfl | rfl
  · exact filterMap_look?_eq_nil (RefreshPhase.silent_of_before hst).2
  · exact absurd (hu.exclusive.alone i j ⟨_, held, rfl⟩ ⟨_, hst, rfl⟩) distinct

theorem event_of_heard (h : ⟨a, answer⟩ ∈ courseOf i es) : ∃ x, x ++ [.did i a answer] <+: es := by
  obtain ⟨x, y, rfl⟩ := List.append_of_mem (mem_courseOf.mp h)
  exact ⟨x, y, by simp⟩

theorem putBy_of_heard {previous : Option Snapshot} (h : Interleaved client service (.initial site store) es s)
    (heard : ⟨.replaceSnapshot new, previous⟩ ∈ courseOf i es) :
    ∃ x, previous = slotOf x ∧ PutBy service es s i new x := by
  obtain ⟨x, here⟩ := event_of_heard heard
  obtain rfl := h.previous_eq here
  exact ⟨x, rfl, h.putBy here⟩

theorem putBy_of_slot (h : Interleaved client service (.initial site store) es s) (hx : x <+: es)
    (cached : slotOf x = some new) : ∃ j y, LastPut x j new y ∧ PutBy service es s j new y := by
  obtain ⟨u, hu⟩ := h.of_prefix hx
  obtain ⟨j, y, last⟩ := hu.last_put cached
  exact ⟨j, y, last, h.putBy (last.here.trans hx)⟩

theorem putBy_of_read (h : Interleaved client service (.initial site store) es s)
    (read : x ++ [.did i .cachedSnapshot (some new)] <+: es) :
    ∃ j y, LastPut x j new y ∧ PutBy service es s j new y :=
  h.putBy_of_slot (before_event read) (h.read_eq read).symm

end Interleaved

theorem PutBy.consistent {κ : Type} {service : Service} {es x : List GraphEvent} {s : GraphState κ} {i : Nat}
    {new : Snapshot} (h : PutBy service es s i new x) : new.Consistent := by
  obtain ⟨t, cached, -, -, built⟩ := h.built
  exact (Attempt.ensures_snapshot service.project service.active cached).hears built new rfl

/-- However calls take turns, what a caller gets is the work of one refresh, no read goes back behind an earlier
one, a call that fails leaves the slot alone, and a refresh tells the changes from what it has replaced. -/
theorem readers_see_refreshes_in_order {κ : Type} {client : Client κ} {service : Service} {site : κ}
    {store : Store} {es : List GraphEvent} {s : GraphState κ}
    (h : Interleaved client service (.initial site store) es s) :
    (∀ i c a new, s.tasks[i]? = some ⟨c, .done a⟩ → c.given? a = some new →
      ∃ j x, PutBy service es s j new x ∧
        (j = i ∨ ∃ y, y ++ [.did i .cachedSnapshot (some new)] <+: es ∧ LastPut y j new x)) ∧
    (∀ u r one v r' two, u ++ [.did r .cachedSnapshot (some one)] <+: v →
      v ++ [.did r' .cachedSnapshot (some two)] <+: es →
      ∃ i x j y, LastPut u i one x ∧ PutBy service es s i one x ∧ LastPut v j two y ∧
        PutBy service es s j two y ∧ (j = i ∧ y = x ∨ x ++ [.put i one x] <+: y ∧ looksOf j x = [])) ∧
    (∀ i c a, s.tasks[i]? = some ⟨c, .done a⟩ → c.failed a = true →
      ∀ b answer, .did i b answer ∈ es → b.write? = none) ∧
    (∀ i cached r, s.tasks[i]? = some ⟨.refresh cached, .done (.ok r)⟩ →
      ∃ x, PutBy service es s i r.snapshot x ∧ r.changes.Tell (slotOf x) r.snapshot) ∧
    ∀ x, x <+: es →
      ∃ u, Interleaved client service (.initial site store) x u ∧ u.shared.snapshot = slotOf x := by
  refine ⟨fun i c a new ht given => ?_, fun u r one v r' two first second => ?_,
    fun i c a ht failed b answer hb => ?_, fun i cached r ht => ?_, fun x hx => ?_⟩
  · rcases Service.carryOut_given (h.heard.made i _ ht) given with read | ⟨previous, put⟩
    · obtain ⟨y, read⟩ := Interleaved.event_of_heard read
      obtain ⟨j, x, last, put⟩ := h.putBy_of_read read
      exact ⟨j, x, put, .inr ⟨y, read, last⟩⟩
    · obtain ⟨x, -, put⟩ := h.putBy_of_heard put
      exact ⟨i, x, put, .inl rfl⟩
  · obtain ⟨i, x, last, put⟩ := h.putBy_of_read (first.trans (before_event second))
    obtain ⟨j, y, last', put'⟩ := h.putBy_of_read second
    refine ⟨i, x, j, y, last, put, last', put', ?_⟩
    have earlier : x ++ [.put i one x] <+: v := last.here.trans (before_event first)
    have writes : (GraphEvent.put i one x).write? ≠ none := Option.some_ne_none _
    rcases last'.latest earlier writes with ⟨rfl, same⟩ | before
    · cases same
      exact .inl ⟨rfl, rfl⟩
    · exact .inr ⟨before, h.put_in_order before put'.here⟩
  · exact Service.carryOut_failed (h.heard.made i _ ht) failed ⟨b, answer⟩ (mem_courseOf.mpr hb)
  · rcases Service.refresh_done (h.heard.made i _ ht) with ⟨⟨e, he⟩, -⟩ | ⟨new, previous, hr, heard⟩
    · cases he
    · cases hr
      obtain ⟨x, rfl, put⟩ := h.putBy_of_heard heard
      refine ⟨x, put, Snapshot.changesFrom_tell put.consistent fun old cached => ?_⟩
      obtain ⟨j, y, -, putOld⟩ := h.putBy_of_slot (before_event put.here) cached
      exact putOld.consistent
  · obtain ⟨u, hu⟩ := h.of_prefix hx
    exact ⟨u, hu, hu.slot_eq⟩

section

def leavingClient : Client Bool where
  answer c k := ((testsClient.answer c k).1, match c with | .index _ _ => false | _ => k)
  view := testsClient.view

def leavingStart : Shared Bool := .initial true (.memory .empty)

def afterRead (s : GraphState Bool) : GraphState Bool :=
  ⟨s.shared, s.tasks ++ [⟨.cachedSnapshot, .done s.shared.snapshot⟩]⟩

def seeing : List GraphMove := .call (.refresh true) :: .replicate 9 (.act 0)

def leaving : List GraphMove :=
  [.call (.refresh false), .act 2, .act 2, .call .invalidate, .act 3] ++ .replicate 9 (.act 2)

def testsSeen : GraphState Bool := (GraphState.play leavingClient appService seeing ⟨leavingStart, []⟩).2

def testsGone : GraphState Bool := (GraphState.play leavingClient appService leaving (afterRead testsSeen)).2

theorem read_before_and_after_tests_left : ∃ es s u one v two,
    Interleaved leavingClient appService leavingStart es s ∧
      u ++ [.did 1 .cachedSnapshot (some one)] <+: v ∧ v ++ [.did 4 .cachedSnapshot (some two)] <+: es ∧
      testsListed one = true ∧ testsListed two = false ∧
      ∃ i x j y, LastPut u i one x ∧ PutBy appService es s i one x ∧ LastPut v j two y ∧
        PutBy appService es s j two y ∧
        (j = i ∧ y = x ∨ x ++ [.put i one x] <+: y ∧ looksOf j x = []) := by
  have seen : testsSeen.tasks.length = 1 ∧ testsSeen.shared.snapshot.map testsListed = some true := by
    decide +kernel
  have gone : testsGone.tasks.length = 4 ∧ testsGone.shared.snapshot.map testsListed = some false := by
    decide +kernel
  obtain ⟨one, hone, listed⟩ := Option.map_eq_some_iff.mp seen.2
  obtain ⟨two, htwo, unlisted⟩ := Option.map_eq_some_iff.mp gone.2
  have first : ∃ u, Interleaved leavingClient appService leavingStart
      (u ++ [.did 1 .cachedSnapshot (some one)]) (afterRead testsSeen) := by
    rw [← seen.1, ← hone]
    exact ⟨_, (Interleaved.start.play seeing).read⟩
  obtain ⟨u, first⟩ := first
  have second : ∃ w, Interleaved leavingClient appService leavingStart
      (u ++ [.did 1 .cachedSnapshot (some one)] ++ w ++ [.called .cachedSnapshot] ++
        [.did 4 .cachedSnapshot (some two)]) (afterRead testsGone) := by
    rw [← gone.1, ← htwo]
    exact ⟨_, (first.play leaving).read⟩
  obtain ⟨w, second⟩ := second
  have later := (List.prefix_append (u ++ [.did 1 .cachedSnapshot (some one)]) w).trans
    (List.prefix_append _ [.called .cachedSnapshot])
  have last := List.prefix_refl
    (u ++ [.did 1 .cachedSnapshot (some one)] ++ w ++ [.called .cachedSnapshot] ++
      [.did 4 .cachedSnapshot (some two)])
  exact ⟨_, _, u, one, _, two, second, later, last, listed, unlisted,
    (readers_see_refreshes_in_order second).2.1 u 1 one _ 4 two later last⟩

end

end BuildServer
