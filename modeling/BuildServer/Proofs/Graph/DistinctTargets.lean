import BuildServer.Proofs.Graph.Exactness
import BuildServer.Proofs.Graph.FixedAnswers
import BuildServer.Proofs.Target.Parse

namespace BuildServer

namespace TargetUri

variable {project scheme scheme' name name' : String}

theorem nonempty?_inj (h : nonempty? name = nonempty? name') : name = name' := by
  unfold nonempty? at h
  split at h <;> split at h
  · next hname hname' => exact (String.isEmpty_iff.mp hname).trans (String.isEmpty_iff.mp hname').symm
  · cases h
  · cases h
  · exact Option.some.inj h

theorem render_nested_inj : (nested project scheme name).render = (nested project scheme' name').render ↔
    scheme = scheme' ∧ name = name' := by
  constructor
  · intro h
    have same : nested project scheme name = nested project scheme' name' := eq_of_render rfl h
    obtain ⟨-, hscheme, hname⟩ := TargetUri.mk.inj same
    exact ⟨hscheme, nonempty?_inj hname⟩
  · rintro ⟨rfl, rfl⟩
    rfl

end TargetUri

namespace SchemeReport

variable {project : String} {x y : SchemeReport} {xs : List SchemeReport}

def NestsUnnamed (x : SchemeReport) : Prop := "" ∈ Member.nestedNames x.scheme x.settings

instance (x : SchemeReport) : Decidable x.NestsUnnamed :=
  inferInstanceAs (Decidable ("" ∈ Member.nestedNames x.scheme x.settings))

def uris (project : String) (x : SchemeReport) : List String :=
  ("" :: Member.nestedNames x.scheme x.settings).map fun name => (TargetUri.nested project x.scheme name).render

theorem map_uri_members (project : String) (x : SchemeReport) :
    (x.members project).map Member.uri = x.uris project := by
  rw [members_eq, List.map_cons, List.map_map]
  rfl

theorem mem_uris_self (project : String) (x : SchemeReport) :
    (TargetUri.nested project x.scheme "").render ∈ x.uris project :=
  List.mem_map_of_mem List.mem_cons_self

theorem nodup_uris : (x.uris project).Nodup ↔ ¬x.NestsUnnamed := by
  have injective : Function.Injective fun name => (TargetUri.nested project x.scheme name).render :=
    fun _ _ h => (TargetUri.render_nested_inj.mp h).2
  have nested : (Member.nestedNames x.scheme x.settings).Nodup := Table.nodup_keys _
  rw [uris, List.nodup_map_iff injective, List.nodup_cons]
  exact and_iff_left nested

theorem disjoint_uris : List.Disjoint (x.uris project) (y.uris project) ↔ x.scheme ≠ y.scheme := by
  constructor
  · intro disjoint same
    exact disjoint (mem_uris_self project x) (same ▸ mem_uris_self project y)
  · intro differ uri hx hy
    obtain ⟨name, -, rfl⟩ := List.mem_map.mp hx
    obtain ⟨name', -, h⟩ := List.mem_map.mp hy
    exact differ (TargetUri.render_nested_inj.mp h).1.symm

theorem nodup_flatMap_uris :
    (xs.flatMap (uris project)).Nodup ↔ (xs.map scheme).Nodup ∧ ∀ x ∈ xs, ¬x.NestsUnnamed := by
  have disjoint : (Function.onFun List.Disjoint (uris project)) = fun x y => x.scheme ≠ y.scheme :=
    funext fun _ => funext fun _ => propext disjoint_uris
  have own : (∀ x ∈ xs, (x.uris project).Nodup) ↔ ∀ x ∈ xs, ¬x.NestsUnnamed :=
    forall₂_congr fun _ _ => nodup_uris
  rw [List.nodup_flatMap, own, disjoint, List.Nodup, List.pairwise_map, and_comm]

theorem depends_on_itself : (∃ m ∈ x.members project, m.uri ∈ m.target.dependencies) ↔ x.NestsUnnamed := by
  rw [members_eq]
  constructor
  · rintro ⟨m, hm, h⟩
    rcases List.mem_cons.mp hm with rfl | hm
    · obtain ⟨name, hname, huri⟩ := List.mem_map.mp h
      have same : (TargetUri.nested project x.scheme name).render =
          (TargetUri.nested project x.scheme "").render := huri
      obtain ⟨-, rfl⟩ := TargetUri.render_nested_inj.mp same
      exact hname
    · obtain ⟨name, -, rfl⟩ := List.mem_map.mp hm
      cases h
  · intro h
    exact ⟨_, List.mem_cons_self, List.mem_map.mpr ⟨"", h, rfl⟩⟩

end SchemeReport

namespace Snapshot

variable {project : String} {xs : List SchemeReport} {store : Option String}

theorem uris_perm (ms : List Member) (store : Option String) :
    (ofMembers ms store).uris.Perm (ms.map Member.uri) := by
  have sorted : (ofMembers ms store).targets.Perm (ms.map Member.target) := List.mergeSort_perm _ _
  have huris := sorted.map BuildTarget.uri
  rwa [List.map_map] at huris

theorem nodup_uris_iff : (ofMembers (xs.flatMap (SchemeReport.members project)) store).uris.Nodup ↔
    (xs.map SchemeReport.scheme).Nodup ∧ ∀ x ∈ xs, ¬x.NestsUnnamed := by
  have huris : (xs.flatMap (SchemeReport.members project)).map Member.uri =
      xs.flatMap (SchemeReport.uris project) := by
    rw [List.map_flatMap]
    exact congrArg (xs.flatMap ·) (funext (SchemeReport.map_uri_members project))
  rw [(uris_perm _ _).nodup_iff, huris, SchemeReport.nodup_flatMap_uris]

theorem no_target_on_itself_iff :
    (∀ t ∈ (ofMembers (xs.flatMap (SchemeReport.members project)) store).targets, t.uri ∉ t.dependencies) ↔
      ∀ x ∈ xs, ¬x.NestsUnnamed := by
  constructor
  · intro h x hx unnamed
    obtain ⟨m, hm, hself⟩ := SchemeReport.depends_on_itself.mpr unnamed
    exact h m.target (mem_targets.mpr ⟨m, List.mem_flatMap.mpr ⟨x, hx, hm⟩, rfl⟩) hself
  · intro h t ht hself
    obtain ⟨m, hm, rfl⟩ := mem_targets.mp ht
    obtain ⟨x, hx, hm⟩ := List.mem_flatMap.mp hm
    exact h x hx (SchemeReport.depends_on_itself.mp ⟨m, hm, hself⟩)

end Snapshot

namespace Attempt

theorem schemes_of_active {κ : Type} {client : Client κ} {active : List String} {cached : Bool} {k k' : κ}
    {xs : List SchemeReport} (h : Gives client k (reports active cached) xs k') (chosen : active ≠ []) :
    xs.map SchemeReport.scheme = active := by
  obtain ⟨names, k₁, hnames, hxs⟩ := gives_bind.mp h
  have hempty : active.isEmpty = false := List.isEmpty_eq_false_iff.mpr chosen
  rw [schemes, hempty] at hnames
  obtain ⟨rfl, -⟩ := gives_pure.mp hnames
  exact (gives_reports_of hxs).1

end Attempt

/-- The targets of a refreshed snapshot, which are those that the server lists, have distinct URIs exactly if the
schemes are distinct and no target without a name is nested in them. In the last case alone does a target depend
on itself. -/
theorem target_uris_distinct_iff {κ : Type} {client : Client κ} {service : Service} {cached : Bool}
    {s s' : Shared κ} {r : Refresh} (refreshed : s.run client (service.refresh cached) = some (.ok r, s')) :
    ∃ reports, ((Attempt.reports service.active cached).run.run client.probe s.site).1 = .ok reports ∧
      (service.active ≠ [] → reports.map SchemeReport.scheme = service.active) ∧
      (r.snapshot.uris.Nodup ↔
        (reports.map SchemeReport.scheme).Nodup ∧ ∀ x ∈ reports, ¬x.NestsUnnamed) ∧
      ((∀ t ∈ r.snapshot.targets, t.uri ∉ t.dependencies) ↔ ∀ x ∈ reports, ¬x.NestsUnnamed) ∧
      s'.run client service.buildTargets = some (.ok (Results.targets r.snapshot.targets), s') := by
  obtain ⟨xs, store, hreports, hsnapshot⟩ := Service.reports_of_refresh refreshed
  refine ⟨xs, hreports, Attempt.schemes_of_active (Prod.ext hreports rfl), ?_, ?_,
    Service.run_buildTargets (Service.snapshot_of_refresh refreshed)⟩
  · rw [hsnapshot]
    exact Snapshot.nodup_uris_iff
  · rw [hsnapshot]
    exact Snapshot.no_target_on_itself_iff

theorem of_exists_toOption {ε α : Type} {P : α → Prop} {x : Except ε α} {a : α} (hx : x = .ok a)
    (h : ∃ b ∈ x.toOption, P b) : P a := by
  obtain ⟨b, hb, hP⟩ := h
  rw [hx] at hb
  obtain rfl := Option.some.inj hb
  exact hP

theorem kit_targets_distinct : ∃ r s',
    Shared.run appClient (kitService.refresh true) (.initial () (.memory .empty)) = some (.ok r, s') ∧
    r.snapshot.files.keys.length = 5 ∧ r.snapshot.uris.Nodup ∧
    ∀ t ∈ r.snapshot.targets, t.uri ∉ t.dependencies := by
  have hran : ∃ x ∈ kitService.refreshed? appClient true (.initial () (.memory .empty)),
      x.1.snapshot.files.keys.length = 5 := by
    decide +kernel
  obtain ⟨⟨r, s'⟩, hr, hlength⟩ := hran
  have hrun := Service.run_of_refreshed? hr
  obtain ⟨reports, hreports, hactive, distinct, apart, -⟩ := target_uris_distinct_iff hrun
  have hasked : ∃ xs ∈ ((Attempt.reports ["App", "Kit"] true).run.run appClient.probe ()).1.toOption,
      ∀ x ∈ xs, ¬x.NestsUnnamed := by
    decide +kernel
  have named := of_exists_toOption hreports hasked
  have schemes : (reports.map SchemeReport.scheme).Nodup := by
    rw [hactive (by decide)]
    decide
  exact ⟨r, s', hrun, hlength, distinct.mpr ⟨schemes, named⟩, apart.mpr named⟩

section

def TargetUrisDistinct : Prop :=
  ∀ (client : Client Unit) (service : Service) (cached : Bool) (s s' : Shared Unit) (r : Refresh),
    s.run client (service.refresh cached) = some (.ok r, s') → r.snapshot.uris.Nodup

def NoTargetOnItself : Prop :=
  ∀ (client : Client Unit) (service : Service) (cached : Bool) (s s' : Shared Unit) (r : Refresh),
    s.run client (service.refresh cached) = some (.ok r, s') → ∀ t ∈ r.snapshot.targets, t.uri ∉ t.dependencies

def repeatedService : Service := { appService with active := ["App", "App"] }

def unnamedClient : Client Unit where
  answer c k :=
    match c with
    | .list _ => (.ok ⟨some ⟨"App", ["App"], []⟩, none⟩, k)
    | .index scheme _ =>
      let files (path : String) : Table FileSettings := .ofList [(path, ⟨some ["-c"], none, none⟩)]
      (.ok (.ofList [(scheme, files "/p/A.swift"), ("", files "/p/E.swift")]), k)
    | .settings _ _ => (.ok [], k)
    | .warmup _ => (.ok (), k)
  view _ := ⟨fun _ => false, id⟩

theorem repeated_and_unnamed_targets : ¬TargetUrisDistinct ∧ ¬NoTargetOnItself := by
  constructor
  · intro h
    have hran : (repeatedService.refreshed? appClient true (.initial () (.memory .empty))).isSome := by
      decide +kernel
    obtain ⟨⟨r, s'⟩, hr⟩ := Option.isSome_iff_exists.mp hran
    have hrun := Service.run_of_refreshed? hr
    obtain ⟨xs, store, hreports, hsnapshot⟩ := Service.reports_of_refresh hrun
    have hasked : ∃ xs ∈ ((Attempt.reports ["App", "App"] true).run.run appClient.probe ()).1.toOption,
        ¬(xs.map SchemeReport.scheme).Nodup := by
      decide +kernel
    have repeated := of_exists_toOption hreports hasked
    have distinct : r.snapshot.uris.Nodup := h appClient repeatedService true _ s' r hrun
    rw [hsnapshot] at distinct
    exact repeated (Snapshot.nodup_uris_iff.mp distinct).1
  · intro h
    have hran : (appService.refreshed? unnamedClient true (.initial () (.memory .empty))).isSome := by
      decide +kernel
    obtain ⟨⟨r, s'⟩, hr⟩ := Option.isSome_iff_exists.mp hran
    have hrun := Service.run_of_refreshed? hr
    obtain ⟨xs, store, hreports, hsnapshot⟩ := Service.reports_of_refresh hrun
    have hasked : ∃ xs ∈ ((Attempt.reports [] true).run.run unnamedClient.probe ()).1.toOption,
        ∃ x ∈ xs, x.NestsUnnamed := by
      decide +kernel
    obtain ⟨x, hx, unnamed⟩ := of_exists_toOption hreports hasked
    have apart := h unnamedClient appService true _ s' r hrun
    rw [hsnapshot] at apart
    exact Snapshot.no_target_on_itself_iff.mp apart x hx unnamed

end

end BuildServer
