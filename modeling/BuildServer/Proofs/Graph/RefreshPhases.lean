import BuildServer.Proofs.Graph.Interleaving

namespace BuildServer

inductive RefreshPhase where
  | before
  | asking
  | swapped
  | finished
  deriving DecidableEq, Repr

namespace RefreshPhase

def holds : RefreshPhase → Bool
  | asking => true
  | swapped => true
  | _ => false

def next : RefreshPhase → Action → Option RefreshPhase
  | before, .beginRefresh => some asking
  | before, .cachedSnapshot => some before
  | before, .invalidate => some before
  | asking, .probe _ => some asking
  | asking, .replaceSnapshot _ => some swapped
  | asking, .finishRefresh => some finished
  | swapped, .finishRefresh => some finished
  | _, _ => none

variable {st st' : RefreshPhase} {a : Action} {actions : List Action}

theorem next_before (h : next st a = some before) : st = before ∧ ∀ p, a ≠ .probe p := by
  cases st <;> cases a <;> simp_all [next]

theorem next_asking (h : next st a = some asking) : st = before ∨ st = asking := by
  cases st <;> cases a <;> simp_all [next]

theorem next_swapped (h : next swapped a = some st) : a = .finishRefresh ∧ st = finished := by
  cases a <;> simp_all [next]

theorem asking_of_replaceSnapshot {new : Snapshot} (h : next st (.replaceSnapshot new) = some st') :
    st = asking ∧ st' = swapped := by
  cases st <;> simp_all [next]

theorem holds_of_finishRefresh (h : next st .finishRefresh = some st') : st.holds = true ∧ st' = finished := by
  cases st <;> simp_all [next, holds]

theorem holds_next (h : next st a = some st') (begins : a ≠ .beginRefresh) (finishes : a ≠ .finishRefresh) :
    st'.holds = st.holds := by
  cases st <;> cases a <;> simp_all [next] <;> subst h <;> rfl

theorem silent_of_before (h : actions.foldlM next st = some before) :
    st = before ∧ ∀ p, .probe p ∉ actions := by
  induction actions generalizing st with
  | nil => exact ⟨Option.some.inj h, fun _ => List.not_mem_nil⟩
  | cons a actions ih =>
    rw [List.foldlM_cons, Option.bind_eq_bind, Option.bind_eq_some_iff] at h
    obtain ⟨st₁, hnext, h⟩ := h
    obtain ⟨rfl, silent⟩ := ih h
    obtain ⟨hst, ha⟩ := next_before hnext
    refine ⟨hst, fun p hp => ?_⟩
    rcases List.mem_cons.mp hp with rfl | hp
    · exact ha p rfl
    · exact silent p hp

theorem before_or_asking (h : actions.foldlM next st = some asking) : st = before ∨ st = asking := by
  induction actions generalizing st with
  | nil => exact .inr (Option.some.inj h)
  | cons a actions ih =>
    rw [List.foldlM_cons, Option.bind_eq_bind, Option.bind_eq_some_iff] at h
    obtain ⟨st₁, hnext, h⟩ := h
    rcases ih h with rfl | rfl
    · exact .inl (next_before hnext).1
    · exact next_asking hnext

theorem finishes_of_swapped (h : actions.foldlM next swapped = some st) :
    ∀ a ∈ actions, a = .finishRefresh := by
  cases actions with
  | nil => simp
  | cons a actions =>
    rw [List.foldlM_cons, Option.bind_eq_bind, Option.bind_eq_some_iff] at h
    obtain ⟨st₁, hnext, h⟩ := h
    obtain ⟨rfl, rfl⟩ := next_swapped hnext
    cases actions with
    | nil => simp
    | cons b actions => cases h

theorem keeps_refresh (service : Service) (cached : Bool) :
    (service.refresh cached).Keeps next (fun _ _ => True) before := by
  have asks : (Program.inquire (Attempt.snapshot service.project service.active cached).run).Keeps next
      (fun st _ => st = asking) asking :=
    Dialogue.keeps_via (f := fun p => Program.act (.probe p)) (fun _ => ⟨asking, rfl, fun _ => rfl⟩) _
  rw [Service.refresh_eq]
  refine ⟨asking, rfl, fun _ => (Dialogue.keeps_bind _ _).mpr (asks.mono ?_)⟩
  rintro _ r rfl
  cases r with
  | error e => exact ⟨finished, rfl, fun _ => trivial⟩
  | ok new => exact ⟨swapped, rfl, fun _ => ⟨finished, rfl, fun _ => trivial⟩⟩

theorem keeps_carryOut (service : Service) (c : GraphCall) :
    (service.carryOut c).Keeps next (fun _ _ => True) before := by
  cases c with
  | refresh cached => exact keeps_refresh service cached
  | snapshot =>
    rw [Service.carryOut, Service.snapshot_eq]
    refine ⟨before, rfl, fun found => ?_⟩
    cases found with
    | some found => trivial
    | none => exact (Dialogue.keeps_bind _ _).mpr ((keeps_refresh service true).mono fun _ _ _ => trivial)
  | cachedSnapshot => exact ⟨before, rfl, fun _ => trivial⟩
  | invalidate => exact ⟨before, rfl, fun _ => trivial⟩

def of (i : Nat) (es : List GraphEvent) : Option RefreshPhase :=
  ((courseOf i es).map Sigma.fst).foldlM next before

theorem of_append {i : Nat} {es fs : List GraphEvent} : of i (es ++ fs) =
    (of i es).bind fun st => ((courseOf i fs).map Sigma.fst).foldlM next st := by
  rw [of, courseOf_append, List.map_append, List.foldlM_append]
  rfl

end RefreshPhase

namespace Interleaved

open RefreshPhase (next)

variable {κ : Type} {client : Client κ} {service : Service} {site : κ} {store : Store} {start : Shared κ}
  {es : List GraphEvent} {e : GraphEvent} {s s' : GraphState κ} {m : GraphMove} {i j : Nat}

theorem phased (h : Interleaved client service start es s) (i : Nat) :
    ∃ st, RefreshPhase.of i es = some st := by
  cases ht : s.tasks[i]? with
  | none =>
    rw [RefreshPhase.of, h.heard.unmade i ht]
    exact ⟨.before, rfl⟩
  | some t =>
    obtain ⟨st, hst, -⟩ := (RefreshPhase.keeps_carryOut service t.call).hears (h.heard.made i t ht)
    exact ⟨st, hst⟩

def Holds (i : Nat) (es : List GraphEvent) : Prop :=
  ∃ st, RefreshPhase.of i es = some st ∧ st.holds = true

theorem phase_did {a : Action} {x : a.Answer} (h : Interleaved client service start (es ++ [.did i a x]) s) :
    ∃ st st', RefreshPhase.of i es = some st ∧ next st a = some st' ∧
      RefreshPhase.of i (es ++ [.did i a x]) = some st' := by
  obtain ⟨st', hst'⟩ := h.phased i
  obtain ⟨st, hst, hnext⟩ := Option.bind_eq_some_iff.mp (RefreshPhase.of_append.symm.trans hst')
  rw [courseOf_did] at hnext
  exact ⟨st, st', hst, by simpa using hnext, hst'⟩

theorem phase_other {a : Action} {x : a.Answer} (h : i ≠ j) :
    RefreshPhase.of j (es ++ [.did i a x]) = RefreshPhase.of j es := by
  rw [RefreshPhase.of, courseOf_append, courseOf_did_ne h, List.append_nil, RefreshPhase.of]

structure Exclusive (es : List GraphEvent) (s : GraphState κ) : Prop where
  locked : ∀ i, Holds i es → s.shared.refreshing = true
  alone : ∀ i j, Holds i es → Holds j es → i = j

theorem Exclusive.called {c : GraphCall} (h : Exclusive es s) (shared : s'.shared = s.shared) :
    Exclusive (es ++ [.called c]) s' := by
  have same (i : Nat) : Holds i (es ++ [.called c]) ↔ Holds i es := by
    rw [Holds, RefreshPhase.of, courseOf_append, courseOf_called, List.append_nil]
    rfl
  exact ⟨fun i hi => shared ▸ h.locked i ((same i).mp hi),
    fun i j hi hj => h.alone i j ((same i).mp hi) ((same j).mp hj)⟩

theorem Exclusive.did {a : Action} {x : a.Answer} (h : Exclusive es s)
    (after : Interleaved client service start (es ++ [.did i a x]) s')
    (answered : Shared.perform client a s.shared = some (x, s'.shared)) :
    Exclusive (es ++ [.did i a x]) s' := by
  obtain ⟨st, st', hst, hnext, hst'⟩ := after.phase_did
  have others {j : Nat} (hij : i ≠ j) (hj : Holds j (es ++ [.did i a x])) : Holds j es := by
    rwa [Holds, phase_other hij] at hj
  have refreshing := Shared.perform_refreshing answered
  by_cases begins : a = .beginRefresh
  · -- Nobody held: the action would have waited.
    subst begins
    have free (j : Nat) : ¬ Holds j es := fun hj => by
      have := h.locked j hj
      rw [Shared.perform_beginRefresh answered] at this
      cases this
    refine ⟨fun _ _ => refreshing, fun j k hj hk => ?_⟩
    have eq {l : Nat} (hl : Holds l (es ++ [.did i .beginRefresh x])) : i = l :=
      Classical.byContradiction fun hil => free l (others hil hl)
    exact (eq hj).symm.trans (eq hk)
  by_cases finishes : a = .finishRefresh
  · -- The one that held is over.
    subst finishes
    obtain ⟨held, rfl⟩ := RefreshPhase.holds_of_finishRefresh hnext
    have none (j : Nat) : ¬ Holds j (es ++ [.did i .finishRefresh x]) := by
      intro hj
      by_cases hij : i = j
      · subst hij
        obtain ⟨st, hst, holds⟩ := hj
        cases hst'.symm.trans hst
        cases holds
      · exact hij (h.alone i j ⟨st, hst, held⟩ (others hij hj))
    exact ⟨fun j hj => absurd hj (none j), fun j _ hj => absurd hj (none j)⟩
  · have back (j : Nat) (hj : Holds j (es ++ [.did i a x])) : Holds j es := by
      by_cases hij : i = j
      · subst hij
        obtain ⟨st₁, hst₁, holds⟩ := hj
        cases hst'.symm.trans hst₁
        exact ⟨st, hst, RefreshPhase.holds_next hnext begins finishes ▸ holds⟩
      · exact others hij hj
    have same : s'.shared.refreshing = s.shared.refreshing := by
      rw [refreshing]
      cases a <;> first | rfl | contradiction
    exact ⟨fun j hj => same ▸ h.locked j (back j hj), fun j k hj hk => h.alone j k (back j hj) (back k hk)⟩

theorem exclusive (h : Interleaved client service (.initial site store) es s) : Exclusive es s := by
  generalize hstart : Shared.initial site store = start at h
  induction h with
  | start =>
    have free (i : Nat) : ¬ Holds i [] := by
      rintro ⟨st, hst, holds⟩
      cases hst
      cases holds
    exact ⟨fun i hi => absurd hi (free i), fun i _ hi => absurd hi (free i)⟩
  | move before m hm ih =>
    rcases GraphState.move_cases hm with ⟨c, rfl, shared, -⟩ | ⟨i, c, a, go, x, rfl, -, answered, -⟩
    · exact ih.called shared
    · exact ih.did (before.move m hm) answered

end Interleaved

end BuildServer
