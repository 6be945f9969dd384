import BuildServer.Proofs.Graph.Interleaving

namespace BuildServer

def Action.write? : Action → Option (Option Snapshot)
  | .replaceSnapshot new => some (some new)
  | .invalidate => some none
  | _ => none

def look? : ((a : Action) × a.Answer) → Option ((p : Probe) × p.Answer)
  | ⟨.probe p, x⟩ => some ⟨p, x⟩
  | _ => none

def probed (look : (p : Probe) × p.Answer) : (a : Action) × a.Answer := ⟨.probe look.1, look.2⟩

def GraphCall.cached? : GraphCall → Option Bool
  | .refresh cached => some cached
  | .snapshot => some true
  | _ => none

variable {α : Type} {service : Service} {cached : Bool} {xs : List ((a : Action) × a.Answer)} {new : Snapshot}

theorem filterMap_probed (looks : List ((p : Probe) × p.Answer)) :
    (looks.map probed).filterMap look? = looks := by
  rw [List.filterMap_map]
  exact List.filterMap_some

theorem filterMap_look?_eq_nil (h : ∀ p, .probe p ∉ xs.map Sigma.fst) : xs.filterMap look? = [] := by
  refine List.filterMap_eq_nil_iff.mpr fun x hx => ?_
  obtain ⟨a, answer⟩ := x
  cases a with
  | probe p => exact absurd (List.mem_map_of_mem (f := Sigma.fst) hx) (h p)
  | _ => rfl

theorem hears_inquire {q : Inquiry α} {d : Program α} (h : (Program.inquire q).Hears xs d) :
    ∃ looks q', xs = looks.map probed ∧ q.Hears looks q' ∧ d = Program.inquire q' := by
  induction q generalizing xs with
  | done a =>
    cases h
    exact ⟨[], _, rfl, .stay, rfl⟩
  | ask p f ih =>
    cases h with
    | stay => exact ⟨[], _, rfl, .stay, rfl⟩
    | ask a h =>
      obtain ⟨looks, q', rfl, hq, rfl⟩ := ih a h
      exact ⟨⟨p, a⟩ :: looks, q', rfl, .ask (A := Probe.Answer) a hq, rfl⟩

namespace Service

theorem refresh_hears {d : Program (Except BuildError Refresh)} (h : (service.refresh cached).Hears xs d) :
    d = service.refresh cached ∨
      (∃ p f, d = .ask (.probe p) f) ∨
      ∃ looks r vs, xs = ⟨.beginRefresh, ()⟩ :: looks.map probed ++ vs ∧
        (Attempt.snapshot service.project service.active cached).run.Hears looks (.done r) ∧
        (conclude r).Hears vs d := by
  rw [refresh_eq] at h ⊢
  cases h with
  | stay => exact .inl rfl
  | ask _ h =>
    rcases h.bind_cases with ⟨e, he, rfl⟩ | ⟨us, vs, r, rfl, hr, hd⟩
    · obtain ⟨looks, q, rfl, hq, rfl⟩ := hears_inquire he
      cases q with
      | ask p f => exact .inr (.inl ⟨p, _, rfl⟩)
      | done r => exact .inr (.inr ⟨looks, r, [], by simp, hq, .stay⟩)
    · obtain ⟨looks, q, rfl, hq, hdone⟩ := hears_inquire hr
      cases q with
      | ask p f => cases hdone
      | done r' =>
        cases hdone
        exact .inr (.inr ⟨looks, r, vs, rfl, hq, hd⟩)

theorem looks_of_refresh (looks : List ((p : Probe) × p.Answer)) (silent : xs.filterMap look? = []) :
    ((⟨.beginRefresh, ()⟩ : (a : Action) × a.Answer) :: looks.map probed ++ xs).filterMap look? = looks := by
  rw [List.filterMap_append, silent, List.append_nil, List.filterMap_cons_none rfl, filterMap_probed]

theorem built_of_put {go : Option Snapshot → Program (Except BuildError Refresh)}
    (h : (service.refresh cached).Hears xs (.ask (.replaceSnapshot new) go)) :
    (Attempt.snapshot service.project service.active cached).run.Hears (xs.filterMap look?)
      (.done (.ok new)) := by
  rcases refresh_hears h with hd | ⟨p, f, hd⟩ | ⟨looks, r, vs, rfl, hlooks, hd⟩
  · cases hd
  · cases hd
  · cases r with
    | error e =>
      cases hd with
      | ask _ hd => cases hd
    | ok built =>
      cases hd with
      | stay => rwa [looks_of_refresh looks rfl]
      | ask _ hd =>
        cases hd with
        | ask _ hd => cases hd

theorem refresh_done {r : Except BuildError Refresh} (h : (service.refresh cached).Hears xs (.done r)) :
    (∃ e, r = .error e) ∧ (∀ y ∈ xs, y.1.write? = none) ∨
      ∃ new previous, r = .ok ⟨new, new.changesFrom previous⟩ ∧ ⟨.replaceSnapshot new, previous⟩ ∈ xs := by
  rcases refresh_hears h with hd | ⟨p, f, hd⟩ | ⟨looks, given, vs, rfl, -, hd⟩
  · cases hd
  · cases hd
  · cases given with
    | error e =>
      cases hd with
      | ask _ hd =>
        cases hd
        refine .inl ⟨⟨e, rfl⟩, fun y hy => ?_⟩
        rcases List.mem_append.mp hy with hy | hy
        · rcases List.mem_cons.mp hy with rfl | hy
          · rfl
          · obtain ⟨look, -, rfl⟩ := List.mem_map.mp hy
            rfl
        · obtain rfl := List.mem_singleton.mp hy
          rfl
    | ok new =>
      cases hd with
      | ask previous hd =>
        cases hd with
        | ask _ hd =>
          cases hd
          exact .inr ⟨new, previous, rfl, by simp⟩

theorem looks_of_done {r : Except BuildError Refresh} (h : (service.refresh cached).Hears xs (.done r)) :
    (Attempt.snapshot service.project service.active cached).run.Hears (xs.filterMap look?)
      (.done (r.map Refresh.snapshot)) := by
  rcases refresh_hears h with hd | ⟨p, f, hd⟩ | ⟨looks, given, vs, rfl, hlooks, hd⟩
  · cases hd
  · cases hd
  · cases given with
    | error e =>
      cases hd with
      | ask _ hd =>
        cases hd
        rwa [looks_of_refresh looks rfl]
    | ok new =>
      cases hd with
      | ask previous hd =>
        cases hd with
        | ask _ hd =>
          cases hd
          rwa [looks_of_refresh looks rfl]

theorem snapshot_hears {d : Program (Except BuildError Snapshot)} (h : service.snapshot.Hears xs d) :
    d = service.snapshot ∨
      (∃ found, xs = [⟨.cachedSnapshot, some found⟩] ∧ d = .done (.ok found)) ∨
      ∃ ys e, xs = ⟨.cachedSnapshot, none⟩ :: ys ∧ (service.refresh true).Hears ys e ∧
        d = e.bind fun r => .done (r.map Refresh.snapshot) := by
  rw [snapshot_eq] at h ⊢
  cases h with
  | stay => exact .inl rfl
  | ask found h =>
    cases found with
    | some found =>
      cases h
      exact .inr (.inl ⟨found, rfl, rfl⟩)
    | none =>
      obtain ⟨e, he, hd⟩ := h.of_bind_done
      exact .inr (.inr ⟨_, e, rfl, he, hd⟩)

theorem carryOut_put {c : GraphCall} {go : Option Snapshot → Program c.Answer}
    (h : (service.carryOut c).Hears xs (.ask (.replaceSnapshot new) go)) :
    ∃ cached, c.cached? = some cached ∧
      (Attempt.snapshot service.project service.active cached).run.Hears (xs.filterMap look?)
        (.done (.ok new)) := by
  cases c with
  | refresh cached => exact ⟨cached, rfl, built_of_put h⟩
  | snapshot =>
    rcases snapshot_hears h with hd | ⟨found, -, hd⟩ | ⟨ys, e, rfl, he, hd⟩
    · cases hd
    · cases hd
    · cases e with
      | done r => cases hd
      | ask a f =>
        cases hd
        refine ⟨true, rfl, ?_⟩
        rw [List.filterMap_cons_none rfl]
        exact built_of_put he
  | cachedSnapshot =>
    cases h with
    | ask _ h => cases h
  | invalidate =>
    cases h with
    | ask _ h => cases h

theorem carryOut_given {c : GraphCall} {a : c.Answer} (h : (service.carryOut c).Hears xs (.done a))
    (given : c.given? a = some new) :
    ⟨.cachedSnapshot, some new⟩ ∈ xs ∨ ∃ previous, ⟨.replaceSnapshot new, previous⟩ ∈ xs := by
  cases c with
  | refresh cached =>
    rcases refresh_done h with ⟨⟨e, rfl⟩, -⟩ | ⟨built, previous, rfl, put⟩
    · cases given
    · cases given
      exact .inr ⟨previous, put⟩
  | snapshot =>
    rcases snapshot_hears h with hd | ⟨found, rfl, hd⟩ | ⟨ys, e, rfl, he, hd⟩
    · cases hd
    · cases hd
      cases given
      exact .inl (List.mem_singleton.mpr rfl)
    · cases e with
      | ask b f => cases hd
      | done r =>
        cases hd
        rcases refresh_done he with ⟨⟨e, rfl⟩, -⟩ | ⟨built, previous, rfl, put⟩
        · cases given
        · cases given
          exact .inr ⟨previous, List.mem_cons_of_mem _ put⟩
  | cachedSnapshot =>
    cases h with
    | ask found h =>
      cases h
      cases given
      exact .inl (List.mem_singleton.mpr rfl)
  | invalidate => cases given

theorem carryOut_failed {c : GraphCall} {a : c.Answer} (h : (service.carryOut c).Hears xs (.done a))
    (failed : c.failed a = true) : ∀ y ∈ xs, y.1.write? = none := by
  cases c with
  | refresh cached =>
    rcases refresh_done h with ⟨-, quiet⟩ | ⟨built, previous, rfl, -⟩
    · exact quiet
    · cases failed
  | snapshot =>
    rcases snapshot_hears h with hd | ⟨found, rfl, hd⟩ | ⟨ys, e, rfl, he, hd⟩
    · cases hd
    · cases hd
      cases failed
    · cases e with
      | ask b f => cases hd
      | done r =>
        cases hd
        rcases refresh_done he with ⟨-, quiet⟩ | ⟨built, previous, rfl, -⟩
        · exact List.forall_mem_cons.mpr ⟨rfl, quiet⟩
        · cases failed
  | cachedSnapshot => cases failed
  | invalidate => cases failed

end Service

end BuildServer
