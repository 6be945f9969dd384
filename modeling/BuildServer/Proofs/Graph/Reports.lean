import BuildServer.Proofs.Graph.Consistency
import BuildServer.Proofs.Server.Alone

namespace BuildServer

namespace Attempt

variable {κ α β : Type} {client : Client κ} {k k' : κ}

def Gives (client : Client κ) (k : κ) (x : Attempt α) (a : α) (k' : κ) : Prop :=
  x.run.run client.probe k = (.ok a, k')

theorem gives_pure {a b : α} : Gives client k (pure a) b k' ↔ a = b ∧ k = k' := by
  change ((.ok a : Except BuildError α), k) = (.ok b, k') ↔ _
  rw [Prod.mk.injEq, Except.ok.injEq]

theorem run_bind (x : Attempt α) (f : α → Attempt β) :
    (x >>= f).run.run client.probe k =
      match x.run.run client.probe k with
      | (.ok a, k') => (f a).run.run client.probe k'
      | (.error e, k') => (.error e, k') := by
  change Dialogue.run client.probe (x.run.bind (ExceptT.bindCont f)) k = _
  rw [Dialogue.run_bind]
  cases x.run.run client.probe k with
  | mk r k' => cases r <;> rfl

theorem gives_bind {x : Attempt α} {f : α → Attempt β} {b : β} :
    Gives client k (x >>= f) b k' ↔
      ∃ a k₁, Gives client k x a k₁ ∧ Gives client k₁ (f a) b k' := by
  unfold Gives
  rw [run_bind]
  obtain ⟨result, k₁⟩ := x.run.run client.probe k
  cases result with
  | error e =>
    constructor
    · intro h
      cases (Prod.mk.inj h).1
    · rintro ⟨a, k₂, h, -⟩
      cases (Prod.mk.inj h).1
  | ok a =>
    constructor
    · intro h
      exact ⟨a, k₁, rfl, h⟩
    · rintro ⟨a', k₂, h, hf⟩
      obtain ⟨ha, rfl⟩ := Prod.mk.inj h
      obtain rfl := Except.ok.inj ha
      exact hf

end Attempt

structure SchemeReport where
  scheme : String
  settings : IndexSettings
  files : FileView

namespace Attempt

def report (cached : Bool) (scheme : String) : Attempt SchemeReport := do
  let settings ← preferCached (!·.isEmpty) (Inquiry.index scheme) cached
  let files ← ExceptT.lift Inquiry.files
  pure ⟨scheme, settings, files⟩

def reports (active : List String) (cached : Bool) : Attempt (List SchemeReport) := do
  (← schemes active cached).mapM (report cached)

end Attempt

def SchemeReport.members (project : String) (x : SchemeReport) : List Member :=
  Member.ofScheme project x.scheme x.settings x.files.present

namespace Attempt

variable {κ : Type} {client : Client κ} {k k' : κ} {project : String} {active : List String} {cached : Bool}

theorem mapM_members {β : Type} (names : List String) (g : List String → List (List Member) → Attempt β) :
    (names.mapM (members project cached) >>= g names) =
      names.mapM (report cached) >>= fun xs =>
        g (xs.map SchemeReport.scheme) (xs.map (SchemeReport.members project)) := by
  induction names generalizing g with
  | nil => simp
  | cons name names ih =>
    simp only [List.mapM_cons, members, report, bind_assoc, pure_bind, List.map_cons]
    refine congrArg _ (funext fun settings => congrArg _ (funext fun files => ?_))
    exact ih fun names groups =>
      g (name :: names) (Member.ofScheme project name settings files.present :: groups)

def finish (cached : Bool) (names : List String) (groups : List (List Member)) : Attempt Snapshot := do
  let store ← match Vote.mostFrequent (groups.flatten.flatMap Member.indexStores) with
    | some store => pure (some store)
    | none => ExceptT.lift (fallbackStore cached names)
  pure (.ofMembers groups.flatten store)

theorem snapshot_eq (project : String) (active : List String) (cached : Bool) :
    snapshot project active cached = reports active cached >>= fun xs =>
      finish cached (xs.map SchemeReport.scheme) (xs.map (SchemeReport.members project)) := by
  rw [snapshot, reports, bind_assoc]
  exact congrArg _ (funext fun names => mapM_members names (finish cached))

theorem gives_snapshot {new : Snapshot} (h : Gives client k (snapshot project active cached) new k') :
    ∃ xs k₁ store, Gives client k (reports active cached) xs k₁ ∧
      new = .ofMembers (xs.flatMap (SchemeReport.members project)) store := by
  rw [snapshot_eq] at h
  obtain ⟨xs, k₁, hreports, h⟩ := gives_bind.mp h
  rw [finish, ← List.flatMap_def] at h
  split at h
  · obtain ⟨rfl, -⟩ := gives_pure.mp h
    exact ⟨xs, k₁, _, hreports, rfl⟩
  · obtain ⟨store, k₂, -, h⟩ := gives_bind.mp h
    obtain ⟨rfl, -⟩ := gives_pure.mp h
    exact ⟨xs, k₁, store, hreports, rfl⟩

end Attempt

theorem Service.reports_of_refresh {κ : Type} {client : Client κ} {service : Service} {cached : Bool}
    {s s' : Shared κ} {r : Refresh} (h : s.run client (service.refresh cached) = some (.ok r, s')) :
    ∃ xs store,
      ((Attempt.reports service.active cached).run.run client.probe s.site).1 = .ok xs ∧
        r.snapshot = .ofMembers (xs.flatMap (SchemeReport.members service.project)) store := by
  rcases refresh_cases h with ⟨e, k, -, he, -⟩ | ⟨new, k, hbuilt, hr, -⟩
  · cases he
  · obtain rfl := Except.ok.inj hr
    obtain ⟨xs, k₁, store, hxs, rfl⟩ := Attempt.gives_snapshot hbuilt
    exact ⟨xs, store, congrArg Prod.fst hxs, rfl⟩

end BuildServer
