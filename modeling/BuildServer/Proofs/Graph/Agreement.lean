import BuildServer.Proofs.Graph.Questions
import BuildServer.Proofs.Graph.Retries
import BuildServer.Proofs.Graph.Views

namespace BuildServer

def Call.Uncached : Call → Prop
  | .list cached | .index _ cached | .settings _ cached => cached = false
  | .warmup _ => False

def Probe.Uncached : Probe → Prop
  | .call c => c.Uncached
  | .files => True

def Call.Within (wanted : Bool) : Call → Prop
  | .list cached | .index _ cached | .settings _ cached => cached ≤ wanted
  | .warmup _ => False

theorem Call.uncached_of_within {c : Call} (h : c.Within false) : c.Uncached := by
  cases c with
  | list cached | index _ cached | settings _ cached => exact Bool.eq_false_of_le_false h
  | warmup _ => exact h

variable {κ κ' : Type}

/-- From states that are related, uncached calls get the same answers and leave related states. -/
def Client.Agree (client : Client κ) (client' : Client κ') (R : κ → κ' → Prop) : Prop :=
  ∀ c : Call, c.Uncached → ∀ k k', R k k' →
    (client.answer c k).1 = (client'.answer c k').1 ∧ R (client.answer c k).2 (client'.answer c k').2

def Client.AgreeWithin (wanted : Bool) (client : Client κ) (client' : Client κ') (R : κ → κ' → Prop) : Prop :=
  ∀ c : Call, c.Within wanted → ∀ k k', R k k' →
    (client.answer c k).1 = (client'.answer c k').1 ∧ R (client.answer c k).2 (client'.answer c k').2

theorem Client.Agree.within {client : Client κ} {client' : Client κ'} {R : κ → κ' → Prop}
    (agree : client.Agree client' R) : client.AgreeWithin false client' R :=
  fun c h => agree c (Call.uncached_of_within h)

theorem Client.AgreeWithin.run {client : Client κ} {client' : Client κ'} {R : κ → κ' → Prop} {wanted : Bool}
    {α : Type} {d : Inquiry α} {k : κ} {k' : κ'} (agree : client.AgreeWithin wanted client' R)
    (h : d.Asks fun p => ∃ c, p = .call c ∧ c.Within wanted) (related : R k k') :
    (d.run client.probe k).1 = (d.run client'.probe k').1 ∧
      R (d.run client.probe k).2 (d.run client'.probe k').2 := by
  induction d generalizing k k' with
  | done a => exact ⟨rfl, related⟩
  | ask p f ih =>
    obtain ⟨⟨c, rfl, within⟩, hf⟩ := h
    obtain ⟨same, related⟩ := agree c within k k' related
    have rest := ih _ (hf (client.answer c k).1) related
    rw [Dialogue.run, Dialogue.run, Client.probe, Client.probe, ← same]
    exact rest

namespace SchemeReport

variable {xs xs' : List SchemeReport}

def SameSdks (x x' : SchemeReport) : Prop :=
  ∀ sdk, x.SdkPath sdk → x'.files.present sdk = x.files.present sdk

theorem members_of_settled (project : String) (h : xs.map settled = xs'.map settled)
    (same : ∀ p ∈ xs.zip xs', SameSdks p.1 p.2) : xs.map (members project) = xs'.map (members project) := by
  induction xs generalizing xs' with
  | nil =>
    obtain rfl := List.map_eq_nil_iff.mp h.symm
    rfl
  | cons x xs ih =>
    cases xs' with
    | nil => cases h
    | cons x' xs' =>
      obtain ⟨hsettled, hrest⟩ := List.cons_eq_cons.mp h
      obtain ⟨hscheme, hsettings⟩ := Prod.mk.inj hsettled
      obtain ⟨hx, hxs⟩ := List.forall_mem_cons.mp same
      rw [List.map_cons, List.map_cons, members_congr project hscheme.symm hsettings.symm hx, ih hrest hxs]

end SchemeReport

namespace Attempt

variable {α β γ δ : Type} {client : Client κ} {cached : Bool}

def Maps (client : Client κ) (m : α → β) (x : Attempt α) (y : Attempt β) : Prop :=
  ∀ k, (x.run.run client.probe k).map (Except.map m) id = y.run.run client.probe k

theorem Maps.bind {m : α → β} {n : γ → δ} {x : Attempt α} {y : Attempt β} {f : α → Attempt γ} {g : β → Attempt δ}
    (hx : Maps client m x y) (hf : ∀ a, Maps client n (f a) (g (m a))) : Maps client n (x >>= f) (y >>= g) := by
  intro k
  rw [run_bind, run_bind, ← hx k]
  obtain ⟨r, k'⟩ := x.run.run client.probe k
  cases r with
  | error e => rfl
  | ok a => exact hf a k'

theorem maps_id (x : Attempt α) : Maps client id x x := by
  intro k
  obtain ⟨r, k'⟩ := x.run.run client.probe k
  cases r <;> rfl

theorem Maps.mapM {m : α → β} {f : γ → Attempt α} {g : γ → Attempt β} (h : ∀ c, Maps client m (f c) (g c))
    (cs : List γ) : Maps client (List.map m) (cs.mapM f) (cs.mapM g) := by
  induction cs with
  | nil => exact fun _ => rfl
  | cons c cs ih =>
    rw [List.mapM_cons, List.mapM_cons]
    exact (h c).bind fun a => ih.bind fun as _ => rfl

def polls (active : List String) (cached : Bool) : Attempt SettingsOfSchemes := do
  (← schemes active cached).mapM fun scheme => do pure (scheme, ← settings cached scheme)

theorem maps_reports (active : List String) (cached : Bool) :
    Maps client (List.map SchemeReport.settled) (reports active cached) (polls active cached) :=
  (maps_id _).bind fun _ => .mapM (fun _ => (maps_id _).bind fun _ _ => rfl) _

theorem polls_within (active : List String) (cached : Bool) :
    (polls active cached).run.Asks fun p => ∃ c, p = .call c ∧ c.Within cached := by
  refine asks_bind (asks_schemes (fun c h => ⟨_, rfl, h⟩) active) (asks_mapM fun scheme => ?_)
  exact asks_bind (asks_settings (fun _ c h => ⟨_, rfl, h⟩) scheme) fun _ => trivial

theorem snapshot_uncached (project : String) (active : List String) :
    (snapshot project active false).run.Asks Probe.Uncached :=
  asks_snapshot (fun _ => Bool.eq_false_of_le_false) (fun _ _ => Bool.eq_false_of_le_false) (fun _ => rfl) trivial
    project active

/-- When the settings of schemes were asked for, the SDKs that they name were there for both clients or for
none. -/
def SeeSdksAlike (client : Client κ) (client' : Client κ') (active : List String) (cached : Bool) (k : κ)
    (k' : κ') : Prop :=
  ∀ xs l xs' l', Gives client k (reports active cached) xs l → Gives client' k' (reports active cached) xs' l' →
    ∀ p ∈ xs.zip xs', SchemeReport.SameSdks p.1 p.2

def SeeSameSdks (client : Client κ) (client' : Client κ') (active : List String) (k : κ) (k' : κ') : Prop :=
  ∀ xs l xs' l', Gives client k (reports active false) xs l → Gives client' k' (reports active false) xs' l' →
    ∀ p ∈ xs.zip xs', SchemeReport.SameSdks p.1 p.2

theorem seeSdksAlike_of_view {client' : Client κ'} {active : List String} {k : κ} {k' : κ'}
    (same : ∀ l l' sdk, (client'.view l').present sdk = (client.view l).present sdk) :
    SeeSdksAlike client client' active cached k k' := by
  intro xs l xs' l' h h' p hp sdk _
  obtain ⟨names, k₁, -, hxs⟩ := gives_bind.mp h
  obtain ⟨names', k₁', -, hxs'⟩ := gives_bind.mp h'
  obtain ⟨_, k₂, -, hfiles⟩ := (gives_reports_of hxs).2 p.1 (List.of_mem_zip hp).1
  obtain ⟨_, k₂', -, hfiles'⟩ := (gives_reports_of hxs').2 p.2 (List.of_mem_zip hp).2
  rw [hfiles, hfiles']
  exact same k₂ k₂' sdk

theorem seeSameSdks_of_view {client' : Client κ'} {active : List String} {k : κ} {k' : κ'}
    (same : ∀ l l' sdk, (client'.view l').present sdk = (client.view l).present sdk) :
    SeeSameSdks client client' active k k' :=
  seeSdksAlike_of_view same

section Agreeing

variable {client' : Client κ'} {R : κ → κ' → Prop} {k : κ} {k' : κ'}
  (agree : client.AgreeWithin cached client' R) (related : R k k')
include agree related

theorem reports_agree (active : List String) :
    ((reports active cached).run.run client.probe k).1.map (List.map SchemeReport.settled) =
      ((reports active cached).run.run client'.probe k').1.map (List.map SchemeReport.settled) ∧
    R ((reports active cached).run.run client.probe k).2 ((reports active cached).run.run client'.probe k').2 := by
  have polled := agree.run (polls_within active cached) related
  rw [← maps_reports active cached k, ← maps_reports active cached k'] at polled
  exact polled

theorem snapshot_agree (project : String) {active : List String}
    (sees : SeeSdksAlike client client' active cached k k') :
    ((snapshot project active cached).run.run client.probe k).1 =
      ((snapshot project active cached).run.run client'.probe k').1 := by
  obtain ⟨same, related⟩ := reports_agree agree related active
  unfold SeeSdksAlike Gives at sees
  rw [snapshot_eq, run_bind, run_bind]
  generalize (reports active cached).run.run client.probe k = asked at *
  generalize (reports active cached).run.run client'.probe k' = asked' at *
  obtain ⟨r, l⟩ := asked
  obtain ⟨r', l'⟩ := asked'
  cases r with
  | error e =>
    cases r' with
    | error e' => exact congrArg Except.error (Except.error.inj same)
    | ok xs' => cases same
  | ok xs =>
    cases r' with
    | error e' => cases same
    | ok xs' =>
      have hsettled := Except.ok.inj same
      have hschemes : xs.map SchemeReport.scheme = xs'.map SchemeReport.scheme := by
        have hfirst := congrArg (List.map Prod.fst) hsettled
        rwa [List.map_map, List.map_map] at hfirst
      have hmembers := SchemeReport.members_of_settled project hsettled (sees xs l xs' l' rfl rfl)
      have finished (names : List String) (groups : List (List Member)) :
          (finish cached names groups).run.Asks fun p => ∃ c, p = .call c ∧ c.Within cached :=
        asks_finish (fun _ => ⟨_, rfl, Bool.le_refl cached⟩) names groups
      dsimp only
      rw [hschemes, hmembers]
      exact (agree.run (finished _ _) related).1

end Agreeing

end Attempt

namespace Service

variable {client : Client κ} {service : Service} {s : Shared κ}

theorem calls_uncached {result : Except BuildError Refresh} {s' : Shared κ}
    (h : s.run client (service.refresh false) = some (result, s')) :
    ∀ x ∈ service.calls client false s, x.1.Uncached := by
  have looks := looks_of_done (Dialogue.hears_transcript h)
  have asked := (Dialogue.Asks.leads (Attempt.snapshot_uncached _ _)
    (Dialogue.leads_iff.mpr ⟨_, looks, rfl⟩)).1
  intro x hx
  obtain ⟨⟨p, answer⟩, hlook, hexchange⟩ := List.mem_filterMap.mp hx
  cases p with
  | files => cases hexchange
  | call c =>
    cases hexchange
    exact asked (.call c) (List.mem_map_of_mem (f := Sigma.fst) hlook)

theorem refresh_agrees {client' : Client κ'} {R : κ → κ' → Prop} {s' : Shared κ'}
    (agree : client.Agree client' R) (related : R s.site s'.site) (same : s.snapshot = s'.snapshot)
    (sees : Attempt.SeeSameSdks client client' service.active s.site s'.site)
    {result : Except BuildError Refresh} {result' : Except BuildError Refresh} {t : Shared κ} {t' : Shared κ'}
    (h : s.run client (service.refresh false) = some (result, t))
    (h' : s'.run client' (service.refresh false) = some (result', t')) :
    result = result' ∧ t.snapshot = t'.snapshot := by
  have hbuilt : (service.built client false s.site).1 = (service.built client' false s'.site).1 :=
    Attempt.snapshot_agree agree.within related service.project sees
  have hresult : result = result' := by
    rcases refresh_cases h with ⟨e, k, hb, rfl, -⟩ | ⟨new, k, hb, rfl, -⟩ <;>
      rcases refresh_cases h' with ⟨e', k', hb', rfl, -⟩ | ⟨new', k', hb', rfl, -⟩ <;>
      rw [hb, hb'] at hbuilt <;> cases hbuilt
    · rfl
    · rw [same]
  refine ⟨hresult, ?_⟩
  rw [slot_of_refresh h, slot_of_refresh h', hresult, same]

end Service

/-- A refresh asks anew where a cached answer is of no use, fails only with such a call and then at once, and
leaves the cached snapshot alone if it fails. Without cached answers it is the same for clients that agree. -/
theorem refresh_asks_anew (client : Client κ) (service : Service) {s : Shared κ} (free : s.refreshing = false) :
    (∀ cached, ∃ result t, s.run client (service.refresh cached) = some (result, t) ∧
      Built service.project service.active cached (service.calls client cached s) (result.map Refresh.snapshot) ∧
      FailsLast (service.calls client cached s) result ∧
      t.snapshot = (result.map Refresh.snapshot).toOption.or s.snapshot) ∧
    (∀ x ∈ service.calls client false s, x.1.Uncached) ∧
    ∀ (κ' : Type) (client' : Client κ') (R : κ → κ' → Prop) (s' : Shared κ'), client.Agree client' R →
      R s.site s'.site → s'.refreshing = false → s.snapshot = s'.snapshot →
      Attempt.SeeSameSdks client client' service.active s.site s'.site →
      ∃ result t t', s.run client (service.refresh false) = some (result, t) ∧
        s'.run client' (service.refresh false) = some (result, t') ∧ t.snapshot = t'.snapshot := by
  refine ⟨fun cached => ?_, ?_, fun κ' client' R s' agree related free' same sees => ?_⟩
  · obtain ⟨result, t, hrun⟩ := Service.exists_refresh client service cached free
    have built := Service.built_of_refresh hrun
    exact ⟨result, t, hrun, built, (failsLast_map _).mp built.failsLast, Service.slot_of_refresh hrun⟩
  · obtain ⟨result, t, hrun⟩ := Service.exists_refresh client service false free
    exact Service.calls_uncached hrun
  · obtain ⟨result, t, hrun⟩ := Service.exists_refresh client service false free
    obtain ⟨result', t', hrun'⟩ := Service.exists_refresh client' service false free'
    obtain ⟨rfl, hslot⟩ := Service.refresh_agrees agree related same sees hrun hrun'
    exact ⟨result, t, t', hrun, hrun', hslot⟩

def keepingClient (shown : Bool) : Client Bool where
  answer c kept :=
    match c with
    | .list cached => (.ok (if cached then .empty else ⟨some ⟨"App", ["App"], []⟩, none⟩), kept)
    | .index scheme cached =>
      let files : Table FileSettings := .ofList [("/p/A.swift", ⟨some ["-c", "-sdk", "/cache/App"], none, none⟩)]
      (.ok (if cached && !kept then .empty else .ofList [(scheme, files)]), kept)
    | .settings _ _ => (.ok [], kept)
    | .warmup _ => (.ok (), kept)
  view kept := ⟨fun _ => shown && kept, id⟩

theorem keepingClient_agree (shown : Bool) :
    (keepingClient shown).Agree (keepingClient shown) fun _ _ => True := by
  intro c uncached k k' _
  cases c with
  | list cached => exact ⟨rfl, trivial⟩
  | index scheme cached =>
    obtain rfl := uncached
    exact ⟨rfl, trivial⟩
  | settings scheme cached => exact ⟨rfl, trivial⟩
  | warmup scheme => cases uncached

theorem empty_answers_asked_anew : ∃ result t anew u u',
    Shared.run (keepingClient false) (appService.refresh true) (.initial false (.memory .empty)) =
      some (result, t) ∧
    FailsLast (appService.calls (keepingClient false) true (.initial false (.memory .empty))) result ∧
    (appService.calls (keepingClient false) true (.initial false (.memory .empty))).map Sigma.fst =
      [.list true, .list false, .index "App" true, .index "App" false, .settings "App" true] ∧
    Shared.run (keepingClient false) (appService.refresh false) (.initial false (.memory .empty)) =
      some (anew, u) ∧
    Shared.run (keepingClient false) (appService.refresh false) (.initial true (.memory .empty)) =
      some (anew, u') := by
  have hcalls : (appService.calls (keepingClient false) true (.initial false (.memory .empty))).map Sigma.fst =
      [.list true, .list false, .index "App" true, .index "App" false, .settings "App" true] := by
    decide +kernel
  obtain ⟨policy, -, agreement⟩ :=
    refresh_asks_anew (keepingClient false) appService (s := .initial false (.memory .empty)) rfl
  obtain ⟨result, t, hrun, -, fails, -⟩ := policy true
  have sees : Attempt.SeeSameSdks (keepingClient false) (keepingClient false) appService.active false true :=
    Attempt.seeSameSdks_of_view fun _ _ _ => rfl
  obtain ⟨anew, u, u', first, second, -⟩ := agreement Bool (keepingClient false) (fun _ _ => True)
    (.initial true (.memory .empty)) (keepingClient_agree false) trivial rfl rfl sees
  exact ⟨result, t, anew, u, u', hrun, fails, hcalls, first, second⟩

def CachedAnswersIrrelevant : Prop :=
  ∀ (client client' : Client Bool) (R : Bool → Bool → Prop) (service : Service) (s s' t t' : Shared Bool)
    (result result' : Except BuildError Refresh), client.Agree client' R → R s.site s'.site →
    s.snapshot = s'.snapshot → s.run client (service.refresh false) = some (result, t) →
    s'.run client' (service.refresh false) = some (result', t') → result = result'

theorem cached_files_taken_for_sdks : ¬CachedAnswersIrrelevant := by
  intro h
  have differ : ∃ x ∈ appService.refreshed? (keepingClient true) false (.initial false (.memory .empty)),
      ∃ y ∈ appService.refreshed? (keepingClient true) false (.initial true (.memory .empty)),
        x.1.snapshot.options ≠ y.1.snapshot.options := by
    decide +kernel
  obtain ⟨⟨r, s⟩, hr, ⟨r', s'⟩, hr', hne⟩ := differ
  have same : (Except.ok r : Except BuildError Refresh) = .ok r' :=
    h (keepingClient true) (keepingClient true) (fun _ _ => True) appService (.initial false (.memory .empty))
      (.initial true (.memory .empty)) s s' (.ok r) (.ok r') (keepingClient_agree true) trivial rfl
      (Service.run_of_refreshed? hr) (Service.run_of_refreshed? hr')
  exact hne (by rw [Except.ok.inj same])

end BuildServer
