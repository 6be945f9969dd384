import BuildServer.Proofs.Graph.Agreement
import BuildServer.Proofs.Graph.Announcement
import BuildServer.Proofs.Graph.Members

namespace BuildServer

namespace Snapshot

variable {p s : Snapshot} {uri file : String}

theorem empty_consistent : Snapshot.empty.Consistent := by
  have hempty : Snapshot.empty = .ofMembers [] none := by decide +kernel
  have coherent : Coherent [] := ⟨nofun, nofun⟩
  rw [hempty]
  exact consistent_ofMembers coherent none

theorem mem_uris_iff_entry (hs : s.Consistent) : uri ∈ s.uris ↔ s.entry uri ≠ (none, none) := by
  refine ⟨fun h hentry => ?_, mem_uris_of_entry hs⟩
  obtain ⟨files, hfiles⟩ := Table.mem_keys.mp ((hs.files_keys uri).mpr h)
  have hnone : s.files.get? uri = none := congrArg Prod.snd hentry
  rw [hnone] at hfiles
  cases hfiles

theorem mem_changedTargets_iff (hp : p.Consistent) (hs : s.Consistent) : uri ∈ s.changedTargets (some p) ↔
    p.target? uri ≠ s.target? uri ∨ p.files.get? uri ≠ s.files.get? uri := by
  rw [mem_changedTargets hp hs, entry, entry, ne_eq, Prod.mk.injEq, Classical.not_and_iff_not_or_not]

theorem changedTargets_increasing (p s : Snapshot) : (s.changedTargets (some p)).Pairwise (· < ·) :=
  (Table.keys_increasing _).filter _

theorem get?_changedOptions (p s : Snapshot) (file : String) (o : CompilerOptions) :
    (s.changedOptions (some p)).get? file = some o ↔
      s.optionsByFile.get? file = some o ∧ p.optionsByFile.get? file ≠ some o := by
  rw [changedOptions, Table.get?_filter, Option.filter_eq_some_iff, bne_iff_ne]

theorem mem_changedTargets_none (hs : s.Consistent) :
    uri ∈ s.changedTargets none ↔ uri ∈ s.changedTargets (some .empty) := by
  rw [mem_changedTargets empty_consistent hs, ne_comm]
  exact mem_uris_iff_entry hs

theorem changedOptions_none (s : Snapshot) : s.changedOptions none = s.changedOptions (some .empty) := by
  apply Table.eq_of_get?
  intro file
  apply Option.ext
  intro o
  rw [get?_changedOptions]
  exact (and_iff_left nofun).symm

theorem changesFrom_self (hs : s.Consistent) : s.changesFrom (some s) = ⟨[], .empty⟩ := by
  have targets : s.changedTargets (some s) = [] := by
    refine List.eq_nil_iff_forall_not_mem.mpr fun uri h => ?_
    exact (mem_changedTargets hs hs).mp h rfl
  have options : s.changedOptions (some s) = .empty := by
    apply Table.eq_of_get?
    intro file
    refine Option.eq_none_iff_forall_not_mem.mpr fun o h => ?_
    obtain ⟨found, differs⟩ := (get?_changedOptions s s file o).mp h
    exact differs found
  rw [changesFrom, targets, options]

end Snapshot

namespace Service

variable {κ : Type} {client : Client κ} {service : Service} {cached : Bool} {s t u : Shared κ} {r : Refresh}

theorem built_of_refreshed (h : s.run client (service.refresh cached) = some (.ok r, t)) :
    (service.built client cached s.site).1 = .ok r.snapshot := by
  rcases refresh_cases h with ⟨e, k, -, he, -⟩ | ⟨new, k, hbuilt, hr, -⟩
  · cases he
  · obtain rfl := Except.ok.inj hr
    exact congrArg Prod.fst hbuilt

theorem refresh_of_built {new : Snapshot} (free : u.refreshing = false)
    (h : (service.built client cached u.site).1 = .ok new) :
    ∃ u', u.run client (service.refresh cached) = some (.ok ⟨new, new.changesFrom u.snapshot⟩, u') := by
  obtain ⟨result, u', hrun⟩ := exists_refresh client service cached free
  rcases refresh_cases hrun with ⟨e, k, hbuilt, -, -⟩ | ⟨built, k, hbuilt, rfl, -⟩
  · rw [hbuilt] at h
    cases h
  · rw [hbuilt] at h
    obtain rfl := Except.ok.inj h
    exact ⟨u', hrun⟩

theorem refresh_again {R : κ → κ → Prop} (h : s.run client (service.refresh cached) = some (.ok r, t))
    (agree : client.AgreeWithin cached client R) (related : R s.site u.site)
    (sees : Attempt.SeeSdksAlike client client service.active cached s.site u.site)
    (kept : u.snapshot = some r.snapshot) (free : u.refreshing = false) :
    ∃ u', u.run client (service.refresh cached) = some (.ok ⟨r.snapshot, ⟨[], .empty⟩⟩, u') := by
  have hbuilt : (service.built client cached u.site).1 = .ok r.snapshot :=
    (Attempt.snapshot_agree agree related service.project sees).symm.trans (built_of_refreshed h)
  obtain ⟨u', hrun⟩ := refresh_of_built free hbuilt
  rw [kept, Snapshot.changesFrom_self (consistent_of_refresh h)] at hrun
  exact ⟨u', hrun⟩

end Service

/-- From one refreshed snapshot to another the changed targets are, in order, those with another record or other
files, and the changed options are those of the newer snapshot that the older has not. Without an older snapshot
the changes are those from the empty one. Refreshing again while the answers of the build tool and the SDKs stay
as they are gives the snapshot again and no changes. -/
theorem refreshed_changes_exact {κ κ' : Type} {client : Client κ} {client' : Client κ'} {service service' : Service}
    {cached cached' : Bool} {p r : Refresh} {t t' : Shared κ'} {s s' : Shared κ}
    (earlier : t.run client' (service'.refresh cached') = some (.ok p, t'))
    (later : s.run client (service.refresh cached) = some (.ok r, s')) :
    (∀ uri, uri ∈ r.snapshot.changedTargets (some p.snapshot) ↔
      p.snapshot.target? uri ≠ r.snapshot.target? uri ∨ p.snapshot.files.get? uri ≠ r.snapshot.files.get? uri) ∧
    (r.snapshot.changedTargets (some p.snapshot)).Pairwise (· < ·) ∧
    (∀ file o, (r.snapshot.changedOptions (some p.snapshot)).get? file = some o ↔
      r.snapshot.optionsByFile.get? file = some o ∧ p.snapshot.optionsByFile.get? file ≠ some o) ∧
    (∀ uri, uri ∈ r.snapshot.changedTargets none ↔ uri ∈ r.snapshot.changedTargets (some .empty)) ∧
    r.snapshot.changedOptions none = r.snapshot.changedOptions (some .empty) ∧
    r.changes = r.snapshot.changesFrom s.snapshot ∧
    ∀ (R : κ → κ → Prop) (u : Shared κ), client.AgreeWithin cached client R → R s.site u.site →
      Attempt.SeeSdksAlike client client service.active cached s.site u.site →
      u.snapshot = some r.snapshot → u.refreshing = false →
      ∃ u', u.run client (service.refresh cached) = some (.ok ⟨r.snapshot, ⟨[], .empty⟩⟩, u') := by
  have hp := Service.consistent_of_refresh earlier
  have hr := Service.consistent_of_refresh later
  exact ⟨fun _ => Snapshot.mem_changedTargets_iff hp hr, Snapshot.changedTargets_increasing _ _,
    Snapshot.get?_changedOptions _ _, fun _ => Snapshot.mem_changedTargets_none hr, Snapshot.changedOptions_none _,
    Service.changes_of_refresh later,
    fun _ _ agree related sees kept free => Service.refresh_again later agree related sees kept free⟩

theorem added_tests_reported_once : ∃ p t r s' u',
    Shared.run testsClient (appService.refresh true) (.initial false (.memory .empty)) = some (.ok p, t) ∧
    Shared.run testsClient (appService.refresh true) (.initial true (.memory .empty)) = some (.ok r, s') ∧
    testsUri ∈ r.snapshot.changedTargets (some p.snapshot) ∧
    s'.run testsClient (appService.refresh true) = some (.ok ⟨r.snapshot, ⟨[], .empty⟩⟩, u') := by
  have hrun : ∃ x ∈ appService.refreshed? testsClient true (.initial false (.memory .empty)),
      ∃ y ∈ appService.refreshed? testsClient true (.initial true (.memory .empty)),
        x.1.snapshot.files.get? testsUri ≠ y.1.snapshot.files.get? testsUri ∧ true = y.2.site ∧
        y.2.refreshing = false := by
    decide +kernel
  obtain ⟨⟨p, t⟩, hfirst, ⟨r, s'⟩, hsecond, differ, hsite, free⟩ := hrun
  have earlier := Service.run_of_refreshed? hfirst
  have later := Service.run_of_refreshed? hsecond
  obtain ⟨targets, -, -, -, -, -, again⟩ := refreshed_changes_exact earlier later
  have agree : testsClient.AgreeWithin true testsClient Eq := by
    rintro c - k _ rfl
    exact ⟨rfl, rfl⟩
  obtain ⟨u', hagain⟩ := again Eq s' agree hsite (Attempt.seeSdksAlike_of_view fun _ _ _ => rfl)
    (Service.snapshot_of_refresh later) free
  exact ⟨p, t, r, s', u', earlier, later, (targets testsUri).mpr (.inr differ), hagain⟩

end BuildServer
