import BuildServer.Proofs.Graph.FixedAnswers
import BuildServer.Proofs.Graph.Members
import BuildServer.Proofs.Graph.Views
import BuildServer.Proofs.Graph.Vote
import BuildServer.Proofs.Target.Parse

namespace BuildServer

namespace Attempt

variable {κ : Type} {client : Client κ} {cached : Bool} {k k' : κ}

theorem exists_finish (client : Client κ) (cached : Bool) (names : List String) (groups : List (List Member))
    (k : κ) : ∃ new k', Gives client k (finish cached names groups) new k' := by
  rw [finish]
  split
  · exact ⟨_, k, gives_pure.mpr ⟨rfl, rfl⟩⟩
  · have hlift (d : Inquiry (Option String)) :
        Gives client k (ExceptT.lift d) (d.run client.probe k).1 (d.run client.probe k).2 := by
      change (d.bind fun a => .done (Except.ok a)).run client.probe k = _
      rw [Dialogue.run_bind]
      rfl
    exact ⟨_, _, gives_bind.mpr ⟨_, _, hlift _, gives_pure.mpr ⟨rfl, rfl⟩⟩⟩

theorem finish_gives {names : List String} {groups : List (List Member)} {new : Snapshot}
    (h : Gives client k (finish cached names groups) new k') :
    ∃ store, new = .ofMembers groups.flatten store ∧ ∀ voted,
      Vote.mostFrequent (groups.flatten.flatMap Member.indexStores) = some voted → store = some voted := by
  rw [finish] at h
  split at h
  · next voted hvote =>
    obtain ⟨rfl, -⟩ := gives_pure.mp h
    refine ⟨some voted, rfl, fun voted' hvote' => ?_⟩
    rw [← hvote, hvote']
  · next hvote =>
    obtain ⟨store, k₁, -, h⟩ := gives_bind.mp h
    obtain ⟨rfl, -⟩ := gives_pure.mp h
    refine ⟨store, rfl, fun voted hvoted => ?_⟩
    rw [hvote] at hvoted
    cases hvoted

end Attempt

namespace SchemeReport

variable {project uri : String} {xs xs' : List SchemeReport} {x x' : SchemeReport}

def SeeAlike (xs xs' : List SchemeReport) : Prop :=
  ∀ x ∈ xs, ∀ x' ∈ xs', x'.scheme = x.scheme → ∀ sdk, x.SdkPath sdk → x'.files.present sdk = x.files.present sdk

def From {κ : Type} (client : Client κ) (cached : Bool) (xs : List SchemeReport) : Prop :=
  ∀ x ∈ xs, ∃ k k', Attempt.Gives client k (Attempt.settings cached x.scheme) x.settings k'

theorem membersAt_eq_nil
    (h : ∀ x ∈ xs, ∀ name, uri ≠ (TargetUri.nested project x.scheme name).render) :
    Snapshot.membersAt uri (xs.flatMap (members project)) = [] := by
  rw [Snapshot.membersAt, withKey, List.filter_eq_nil_iff]
  intro m hm
  obtain ⟨x, hx, hm⟩ := List.mem_flatMap.mp hm
  obtain ⟨name, huri⟩ := exists_nested hm
  simpa [huri] using (h x hx name).symm

theorem nested_ne {name name' : String} (h : x.scheme ≠ x'.scheme) :
    (TargetUri.nested project x.scheme name).render ≠ (TargetUri.nested project x'.scheme name').render := by
  intro hrender
  have hsame : TargetUri.nested project x.scheme name = .nested project x'.scheme name' :=
    TargetUri.eq_of_render rfl hrender
  exact h (congrArg TargetUri.scheme hsame)

theorem membersAt_flatMap (project : String) (distinct : (xs.map scheme).Nodup) (hx : x ∈ xs) (name : String) :
    Snapshot.membersAt (TargetUri.nested project x.scheme name).render (xs.flatMap (members project)) =
      Snapshot.membersAt (TargetUri.nested project x.scheme name).render (x.members project) := by
  obtain ⟨before, after, rfl⟩ := List.append_of_mem hx
  rw [List.map_append, List.map_cons, List.nodup_middle, ← List.map_append, List.nodup_cons] at distinct
  have others : ∀ y ∈ before ++ after, x.scheme ≠ y.scheme := by
    intro y hy he
    exact distinct.1 (he ▸ List.mem_map_of_mem hy)
  have outside (ys : List SchemeReport) (hys : ys ⊆ before ++ after) :
      Snapshot.membersAt (TargetUri.nested project x.scheme name).render (ys.flatMap (members project)) = [] :=
    membersAt_eq_nil fun y hy name' => nested_ne (others y (hys hy))
  have hbefore := outside before (List.subset_append_left _ _)
  have hafter := outside after (List.subset_append_right _ _)
  rw [Snapshot.membersAt, withKey] at hbefore hafter ⊢
  rw [List.flatMap_append, List.flatMap_cons, List.filter_append, List.filter_append, hbefore, hafter,
    List.nil_append, List.append_nil]

section Fixed

variable {κ : Type} {client : Client κ} {cached : Bool} (fixed : client.Fixed) (settled : From client cached xs)
  (settled' : From client cached xs') (alike : SeeAlike xs xs')
include fixed settled settled' alike

theorem members_eq_of_scheme (hx : x ∈ xs) (hx' : x' ∈ xs') (h : x'.scheme = x.scheme) :
    x'.members project = x.members project := by
  obtain ⟨k, k₁, hsettings⟩ := settled x hx
  obtain ⟨l, l₁, hsettings'⟩ := settled' x' hx'
  rw [h] at hsettings'
  exact members_congr project h ((Attempt.fixed_settings fixed cached x.scheme).unique hsettings' hsettings)
    (alike x hx x' hx' h)

theorem map_members_eq (project : String) (h : xs'.map scheme = xs.map scheme) :
    xs'.map (members project) = xs.map (members project) := by
  induction xs generalizing xs' with
  | nil =>
    obtain rfl := List.map_eq_nil_iff.mp h
    rfl
  | cons x xs ih =>
    cases xs' with
    | nil => cases h
    | cons x' xs' =>
      obtain ⟨hscheme, hrest⟩ := List.cons_eq_cons.mp h
      rw [List.map_cons, List.map_cons,
        members_eq_of_scheme fixed settled settled' alike List.mem_cons_self List.mem_cons_self hscheme,
        ih (fun y hy => settled y (List.mem_cons_of_mem x hy))
          (fun y hy => settled' y (List.mem_cons_of_mem x' hy))
          (fun y hy y' hy' => alike y (List.mem_cons_of_mem x hy) y' (List.mem_cons_of_mem x' hy')) hrest]

theorem membersAt_congr (distinct : (xs.map scheme).Nodup) (distinct' : (xs'.map scheme).Nodup) (hx : x ∈ xs)
    (among : x.scheme ∈ xs'.map scheme) (name : String) :
    Snapshot.membersAt (TargetUri.nested project x.scheme name).render (xs.flatMap (members project)) =
      Snapshot.membersAt (TargetUri.nested project x.scheme name).render (xs'.flatMap (members project)) := by
  obtain ⟨x', hx', hscheme⟩ := List.mem_map.mp among
  have hmembers := membersAt_flatMap project distinct' hx' name
  rw [hscheme, members_eq_of_scheme fixed settled settled' alike hx hx' hscheme] at hmembers
  rw [hmembers, membersAt_flatMap project distinct hx]

theorem membersAt_perm (distinct : (xs.map scheme).Nodup) (order : (xs'.map scheme).Perm (xs.map scheme))
    (uri : String) : Snapshot.membersAt uri (xs.flatMap (members project)) =
      Snapshot.membersAt uri (xs'.flatMap (members project)) := by
  by_cases owned : ∃ x ∈ xs, ∃ name, uri = (TargetUri.nested project x.scheme name).render
  · obtain ⟨x, hx, name, rfl⟩ := owned
    exact membersAt_congr fixed settled settled' alike distinct (order.nodup_iff.mpr distinct) hx
      (order.mem_iff.mpr (List.mem_map_of_mem hx)) name
  · push Not at owned
    rw [membersAt_eq_nil owned, membersAt_eq_nil fun x' hx' name => ?_]
    obtain ⟨x, hx, hscheme⟩ := List.mem_map.mp (order.mem_iff.mp (List.mem_map_of_mem hx'))
    rw [← hscheme]
    exact owned x hx name

end Fixed

end SchemeReport

namespace Snapshot

variable {s s' : Snapshot} {ms ms' : List Member} {store store' : Option String}

/-- Snapshots that agree, and where options name index stores in the index store as well. -/
structure Agree (s s' : Snapshot) : Prop where
  targets : s.targets = s'.targets
  files : s.files = s'.files
  options : s.options = s'.options
  targetsByFile : s.targetsByFile = s'.targetsByFile
  optionsByFile : s.optionsByFile = s'.optionsByFile
  indexStore : (∃ o, s.Keeps o ∧ (Arguments.indexStorePath o.options).isSome) → s.indexStore = s'.indexStore

def Voted (ms : List Member) (store : Option String) : Prop :=
  ∀ voted, Vote.mostFrequent (ms.flatMap Member.indexStores) = some voted → store = some voted

theorem exists_vote {o : CompilerOptions} (kept : (ofMembers ms store).Keeps o)
    (named : (Arguments.indexStorePath o.options).isSome) :
    ∃ voted, Vote.mostFrequent (ms.flatMap Member.indexStores) = some voted := by
  obtain ⟨m, hm, file, ho⟩ := member_of_keeps kept
  obtain ⟨path, hpath⟩ := Option.isSome_iff_exists.mp named
  have hstores : path ∈ m.indexStores :=
    List.mem_filterMap.mpr ⟨o, Table.mem_values.mpr ⟨file, ho⟩, hpath⟩
  exact Option.isSome_iff_exists.mp (Vote.isSome_mostFrequent (List.mem_flatMap.mpr ⟨m, hm, hstores⟩))

theorem agree_ofMembers (same : ∀ uri, membersAt uri ms = membersAt uri ms') (voted : Voted ms store)
    (voted' : Voted ms' store') : Agree (ofMembers ms store) (ofMembers ms' store') where
  targets := targets_congr same
  files := files_congr same
  options := options_congr same
  targetsByFile := targetsByFile_congr same
  optionsByFile := optionsByFile_congr same
  indexStore := by
    rintro ⟨o, kept, named⟩
    obtain ⟨winner, hwinner⟩ := exists_vote kept named
    have hwinner' : Vote.mostFrequent (ms'.flatMap Member.indexStores) = some winner := by
      rw [← hwinner]
      exact (Vote.mostFrequent_perm ((perm_of_membersAt same).flatMap_right _)).symm
    exact (voted winner hwinner).trans (voted' winner hwinner').symm

end Snapshot

namespace Attempt

variable {κ : Type} {client : Client κ} {cached : Bool} {active active' names names' : List String}
  {k k' l l' : κ} {xs xs' : List SchemeReport} {project : String}

def SeeAlike (client : Client κ) (cached : Bool) (active active' : List String) (k l : κ) : Prop :=
  ∀ xs k' xs' l', Gives client k (reports active cached) xs k' →
    Gives client l (reports active' cached) xs' l' → SchemeReport.SeeAlike xs xs'

theorem gives_schemes (h : Gives client k (schemes active cached) names k') :
    active = [] ∨ names = active ∧ k' = k := by
  cases active with
  | nil => exact .inl rfl
  | cons name names =>
    obtain ⟨rfl, rfl⟩ := gives_pure.mp h
    exact .inr ⟨rfl, rfl⟩

theorem exists_schemes (h : active ≠ []) (k : κ) : Gives client k (schemes active cached) active k := by
  cases active with
  | nil => exact absurd rfl h
  | cons name names => exact gives_pure.mpr ⟨rfl, rfl⟩

theorem gives_reports (h : Gives client k (reports active cached) xs k') :
    SchemeReport.From client cached xs ∧ (active = [] ∨ xs.map SchemeReport.scheme = active) := by
  obtain ⟨names, k₁, hnames, hxs⟩ := gives_bind.mp h
  obtain ⟨hschemes, hsettings⟩ := gives_reports_of hxs
  refine ⟨fun x hx => ?_, (gives_schemes hnames).imp_right fun hnames => hschemes.trans hnames.1⟩
  obtain ⟨l, l', hfound, -⟩ := hsettings x hx
  exact ⟨l, l', hfound⟩

theorem membersAt_reports (fixed : client.Fixed) (order : active'.Perm active) (distinct : active.Nodup)
    (h : Gives client k (reports active cached) xs k') (h' : Gives client l (reports active' cached) xs' l')
    (alike : SchemeReport.SeeAlike xs xs') (uri : String) :
    Snapshot.membersAt uri (xs.flatMap (SchemeReport.members project)) =
      Snapshot.membersAt uri (xs'.flatMap (SchemeReport.members project)) := by
  obtain ⟨settled, hschemes⟩ := gives_reports h
  obtain ⟨settled', hschemes'⟩ := gives_reports h'
  by_cases empty : active = []
  · subst empty
    obtain rfl := List.perm_nil.mp order
    obtain ⟨names, k₁, hnames, hxs⟩ := gives_bind.mp h
    obtain ⟨names', l₁, hnames', hxs'⟩ := gives_bind.mp h'
    obtain rfl := (fixed_schemes fixed [] cached).unique hnames hnames'
    have hmembers := SchemeReport.map_members_eq fixed settled settled' alike project
      ((gives_reports_of hxs').1.trans (gives_reports_of hxs).1.symm)
    rw [List.flatMap_def, List.flatMap_def, hmembers]
  · have nonempty : active' ≠ [] := fun he => empty (List.perm_nil.mp (he ▸ order.symm))
    have hnames := hschemes.resolve_left empty
    have hnames' := hschemes'.resolve_left nonempty
    exact SchemeReport.membersAt_perm fixed settled settled' alike (hnames ▸ distinct)
      (hnames ▸ hnames' ▸ order) uri

theorem exists_reports_order (fixed : client.Fixed) (order : active'.Perm active)
    (h : Gives client k (reports active cached) xs k') (l : κ) :
    ∃ xs' l', Gives client l (reports active' cached) xs' l' := by
  obtain ⟨names, k₁, hnames, hxs⟩ := gives_bind.mp h
  by_cases empty : active = []
  · subst empty
    obtain rfl := List.perm_nil.mp order
    obtain ⟨l₁, hnames'⟩ := (fixed_schemes fixed [] cached).gives hnames l
    obtain ⟨xs', l', hxs'⟩ := exists_reports_perm fixed (.refl names) hxs l₁
    exact ⟨xs', l', gives_bind.mpr ⟨names, l₁, hnames', hxs'⟩⟩
  · have nonempty : active' ≠ [] := fun he => empty (List.perm_nil.mp (he ▸ order.symm))
    obtain ⟨rfl, rfl⟩ := (gives_schemes hnames).resolve_left empty
    obtain ⟨xs', l', hxs'⟩ := exists_reports_perm fixed order hxs l
    exact ⟨xs', l', gives_bind.mpr ⟨active', l, exists_schemes nonempty l, hxs'⟩⟩

theorem exists_reports_more (fixed : client.Fixed) {new : String} (order : active'.Perm (new :: active))
    (h : Gives client k (reports active cached) xs k') {x : SchemeReport} {j j' : κ}
    (hx : Gives client j (report cached new) x j') (l : κ) :
    ∃ xs' l', Gives client l (reports active' cached) xs' l' := by
  have nonempty : active' ≠ [] := by
    rintro rfl
    cases List.nil_perm.mp order
  obtain ⟨settled, hschemes⟩ := gives_reports h
  have settles : ∀ name ∈ active', ∀ l, ∃ found l', Gives client l (settings cached name) found l' := by
    intro name hname l
    rcases List.mem_cons.mp (order.mem_iff.mp hname) with rfl | hname
    · exact ⟨x.settings, (fixed_settings fixed cached name).gives (gives_report.mp hx).2.1 l⟩
    · obtain ⟨y, hy, rfl⟩ := List.mem_map.mp ((hschemes.resolve_left (List.ne_nil_of_mem hname)) ▸ hname)
      obtain ⟨k₁, k₂, hfound⟩ := settled y hy
      exact ⟨y.settings, (fixed_settings fixed cached y.scheme).gives hfound l⟩
  obtain ⟨xs', l', hxs'⟩ := exists_reports_of settles l
  exact ⟨xs', l', gives_bind.mpr ⟨active', l, exists_schemes nonempty l, hxs'⟩⟩

theorem membersAt_among (project : String) (fixed : client.Fixed) (distinct : active.Nodup) {new : String}
    (fresh : new ∉ active)
    (order : active'.Perm (new :: active)) (h : Gives client k (reports active cached) xs k')
    (h' : Gives client l (reports active' cached) xs' l') (alike : SchemeReport.SeeAlike xs xs')
    {scheme : String} (hscheme : scheme ∈ active) (name : String) :
    Snapshot.membersAt (TargetUri.nested project scheme name).render
        (xs'.flatMap (SchemeReport.members project)) =
      Snapshot.membersAt (TargetUri.nested project scheme name).render
        (xs.flatMap (SchemeReport.members project)) := by
  obtain ⟨settled, hschemes⟩ := gives_reports h
  obtain ⟨settled', hschemes'⟩ := gives_reports h'
  have hnames := hschemes.resolve_left (List.ne_nil_of_mem hscheme)
  have among : scheme ∈ active' := order.mem_iff.mpr (List.mem_cons_of_mem new hscheme)
  have hnames' := hschemes'.resolve_left (List.ne_nil_of_mem among)
  have distinct' : active'.Nodup := order.nodup_iff.mpr (List.nodup_cons.mpr ⟨fresh, distinct⟩)
  obtain ⟨x, hx, rfl⟩ := List.mem_map.mp (hnames ▸ hscheme)
  exact (SchemeReport.membersAt_congr fixed settled settled' alike (hnames ▸ distinct) (hnames' ▸ distinct') hx
    (hnames' ▸ among) name).symm

end Attempt

namespace Service

variable {κ : Type} {client : Client κ} {service : Service} {cached : Bool} {s s' t : Shared κ} {r : Refresh}

theorem voted_of_refresh (h : s.run client (service.refresh cached) = some (.ok r, s')) :
    ∃ xs k store, Attempt.Gives client s.site (Attempt.reports service.active cached) xs k ∧
      r.snapshot = .ofMembers (xs.flatMap (SchemeReport.members service.project)) store ∧
      Snapshot.Voted (xs.flatMap (SchemeReport.members service.project)) store := by
  rcases refresh_cases h with ⟨e, k, -, he, -⟩ | ⟨new, k, hbuilt, hr, -⟩
  · cases he
  · obtain rfl := Except.ok.inj hr
    change Attempt.Gives client s.site (Attempt.snapshot service.project service.active cached) new k at hbuilt
    rw [Attempt.snapshot_eq] at hbuilt
    obtain ⟨xs, k₁, hxs, hfinish⟩ := Attempt.gives_bind.mp hbuilt
    obtain ⟨store, rfl, voted⟩ := Attempt.finish_gives hfinish
    rw [← List.flatMap_def] at voted ⊢
    exact ⟨xs, k₁, store, hxs, rfl, voted⟩

theorem exists_refreshed (free : s.refreshing = false) {xs : List SchemeReport} {k : κ}
    (h : Attempt.Gives client s.site (Attempt.reports service.active cached) xs k) :
    ∃ r s', s.run client (service.refresh cached) = some (.ok r, s') := by
  obtain ⟨new, k', hfinish⟩ := Attempt.exists_finish client cached
    (xs.map SchemeReport.scheme) (xs.map (SchemeReport.members service.project)) k
  have hbuilt : service.built client cached s.site = (.ok new, k') := by
    change Attempt.Gives client s.site (Attempt.snapshot service.project service.active cached) new k'
    rw [Attempt.snapshot_eq]
    exact Attempt.gives_bind.mpr ⟨xs, k, h, hfinish⟩
  obtain ⟨result, s', hrun⟩ := exists_refresh client service cached free
  rcases refresh_cases hrun with ⟨e, k'', herror, -⟩ | ⟨new', k'', -, rfl, -⟩
  · rw [hbuilt] at herror
    cases herror
  · exact ⟨_, s', hrun⟩

theorem succeeds_in_order (fixed : client.Fixed) {active' : List String} (order : active'.Perm service.active)
    (free : t.refreshing = false) {result result' : Except BuildError Refresh} {t' : Shared κ}
    (h : s.run client (service.refresh cached) = some (result, s'))
    (h' : t.run client ({ service with active := active' }.refresh cached) = some (result', t'))
    (succeeds : result.toOption.isSome) : result'.toOption.isSome := by
  cases result with
  | error e => cases succeeds
  | ok r =>
    obtain ⟨xs, k, store, hxs, -⟩ := voted_of_refresh h
    obtain ⟨xs', l, hxs'⟩ := Attempt.exists_reports_order fixed order hxs t.site
    let other : Service := { service with active := active' }
    have hother : Attempt.Gives client t.site (Attempt.reports other.active cached) xs' l := hxs'
    obtain ⟨r', u, hrun⟩ := exists_refreshed free hother
    rw [h'] at hrun
    cases hrun
    rfl

end Service

/-- With a client whose answers depend on the calls alone, and SDKs that are seen alike at every look, neither
the order of the schemes nor further ones matter to what a snapshot has of a scheme. -/
theorem refresh_of_schemes_in_any_order {κ : Type} {client : Client κ} {service : Service} {cached : Bool}
    {s t : Shared κ} (fixed : client.Fixed) (distinct : service.active.Nodup) (free : s.refreshing = false)
    (free' : t.refreshing = false) :
    (∀ active' : List String, active'.Perm service.active →
      Attempt.SeeAlike client cached service.active active' s.site t.site →
      ∃ result s' result' t', s.run client (service.refresh cached) = some (result, s') ∧
        t.run client ({ service with active := active' }.refresh cached) = some (result', t') ∧
        (result.toOption.isSome ↔ result'.toOption.isSome) ∧
        ∀ r r', result = .ok r → result' = .ok r' → r.snapshot.Agree r'.snapshot) ∧
    (∀ (active' : List String) (new : String), new ∉ service.active → active'.Perm (new :: service.active) →
      (∃ x k k', Attempt.Gives client k (Attempt.report cached new) x k') →
      Attempt.SeeAlike client cached service.active active' s.site t.site →
      ∀ r s', s.run client (service.refresh cached) = some (.ok r, s') →
        ∃ r' t', t.run client ({ service with active := active' }.refresh cached) = some (.ok r', t') ∧
          ∀ scheme ∈ service.active, ∀ name,
            let uri := (TargetUri.nested service.project scheme name).render
            r'.snapshot.targets.filter (·.uri == uri) = r.snapshot.targets.filter (·.uri == uri) ∧
            r'.snapshot.files.get? uri = r.snapshot.files.get? uri ∧
            r'.snapshot.options.get? uri = r.snapshot.options.get? uri) := by
  constructor
  · intro active' order alike
    let other : Service := { service with active := active' }
    obtain ⟨result, s', hrun⟩ := Service.exists_refresh client service cached free
    obtain ⟨result', t', hrun'⟩ := Service.exists_refresh client other cached free'
    have back : service.active.Perm other.active := order.symm
    refine ⟨result, s', result', t', hrun, hrun', ⟨Service.succeeds_in_order fixed order free' hrun hrun',
      Service.succeeds_in_order fixed back free hrun' hrun⟩, ?_⟩
    rintro r r' rfl rfl
    obtain ⟨xs, k, store, hxs, hr, voted⟩ := Service.voted_of_refresh hrun
    obtain ⟨xs', l, store', hxs', hr', voted'⟩ := Service.voted_of_refresh hrun'
    rw [hr, hr']
    exact Snapshot.agree_ofMembers
      (Attempt.membersAt_reports fixed order distinct hxs hxs' (alike xs k xs' l hxs hxs')) voted voted'
  · rintro active' new fresh order ⟨x, j, j', hx⟩ alike r s' hrun
    obtain ⟨xs, k, store, hxs, hr, -⟩ := Service.voted_of_refresh hrun
    obtain ⟨xs', l, hxs'⟩ := Attempt.exists_reports_more fixed order hxs hx t.site
    let other : Service := { service with active := active' }
    have hother : Attempt.Gives client t.site (Attempt.reports other.active cached) xs' l := hxs'
    obtain ⟨r', t', hrun'⟩ := Service.exists_refreshed free' hother
    obtain ⟨ys, l', store', hys, hr', -⟩ := Service.voted_of_refresh hrun'
    refine ⟨r', t', hrun', fun scheme hscheme name => ?_⟩
    have hmembers := Attempt.membersAt_among service.project fixed distinct fresh order hxs hys
      (alike xs k ys l' hxs hys) hscheme name
    refine ⟨?_, ?_, ?_⟩
    · have htargets := congrArg (List.map Member.target) hmembers
      rw [← Snapshot.targets_withKey _ _ store', ← Snapshot.targets_withKey _ _ store, ← hr] at htargets
      rw [hr']
      exact htargets
    · rw [hr, hr']
      exact Snapshot.get?_files_congr hmembers
    · rw [hr, hr']
      exact Snapshot.get?_options_congr hmembers

section

theorem Attempt.seeAlike_of_view {κ : Type} {client : Client κ}
    (same : ∀ k k' path, (client.view k).present path = (client.view k').present path) {cached : Bool}
    {active active' : List String} {k l : κ} : SeeAlike client cached active active' k l := by
  intro xs k' xs' l' h h' x hx x' hx' _ sdk _
  obtain ⟨names, k₁, -, hxs⟩ := gives_bind.mp h
  obtain ⟨names', l₁, -, hxs'⟩ := gives_bind.mp h'
  obtain ⟨_, k₂, -, hfiles⟩ := (gives_reports_of hxs).2 x hx
  obtain ⟨_, l₂, -, hfiles'⟩ := (gives_reports_of hxs').2 x' hx'
  rw [hfiles, hfiles']
  exact same l₂ k₂ sdk

theorem appClient_fixed : appClient.Fixed := fun c _ _ => by cases c <;> rfl

theorem kit_refresh_in_any_order : ∃ r r' r'' s s' s'',
    Shared.run appClient (kitService.refresh true) (.initial () (.memory .empty)) = some (.ok r, s) ∧
    Shared.run appClient ({ kitService with active := ["Kit", "App"] }.refresh true)
      (.initial () (.memory .empty)) = some (.ok r', s') ∧
    Shared.run appClient ({ kitService with active := ["Kit", "Lib", "App"] }.refresh true)
      (.initial () (.memory .empty)) = some (.ok r'', s'') ∧
    r.snapshot.Agree r'.snapshot ∧
    r''.snapshot.options.get? "xcode://App?scheme=Kit&target=AppTests" =
      r.snapshot.options.get? "xcode://App?scheme=Kit&target=AppTests" := by
  have start : (kitService.refreshed? appClient true (.initial () (.memory .empty))).isSome := by
    decide +kernel
  obtain ⟨⟨r, s⟩, hr⟩ := Option.isSome_iff_exists.mp start
  have hrun := Service.run_of_refreshed? hr
  have steady (active' : List String) (k l : Unit) :
      Attempt.SeeAlike appClient true kitService.active active' k l :=
    Attempt.seeAlike_of_view fun _ _ _ => rfl
  have distinct : kitService.active.Nodup := by decide
  obtain ⟨ordered, more⟩ := refresh_of_schemes_in_any_order (s := .initial () (.memory .empty))
    (t := .initial () (.memory .empty)) appClient_fixed distinct rfl rfl
  obtain ⟨result, _, result', s', hrun₁, hrun', succeeds, agree⟩ :=
    ordered ["Kit", "App"] (by decide) (steady _ _ _)
  obtain ⟨rfl, -⟩ := Prod.mk.inj (Option.some.inj (hrun.symm.trans hrun₁))
  cases result' with
  | error e => cases succeeds.mp rfl
  | ok r' =>
    have lib : ∃ x k k', Attempt.Gives appClient k (Attempt.report true "Lib") x k' :=
      ⟨⟨"Lib", _, appClient.view ()⟩, (), (), Attempt.gives_report.mpr ⟨rfl, rfl, rfl⟩⟩
    obtain ⟨r'', s'', hrun'', same⟩ :=
      more ["Kit", "Lib", "App"] "Lib" (by decide) (by decide) lib (steady _ _ _) r s hrun
    have uri : (TargetUri.nested "App" "Kit" "AppTests").render = "xcode://App?scheme=Kit&target=AppTests" := by
      decide +kernel
    obtain ⟨-, -, hoptions⟩ := same "Kit" (by decide) "AppTests"
    exact ⟨r, r', r'', s, s', s'', hrun, hrun', hrun'', agree r r' rfl rfl, uri ▸ hoptions⟩

def makingClient : Client Bool where
  answer c made :=
    match c with
    | .list _ => (.ok ⟨some ⟨"App", ["App", "Kit"], []⟩, none⟩, made)
    | .index scheme _ =>
      let arguments := if scheme = "App" then ["-c", "-sdk", "/cache/Kit"] else ["-c"]
      let files : Table FileSettings := .ofList [("/p/A.swift", ⟨some arguments, none, none⟩)]
      (.ok (.ofList [(scheme, files)]), made || scheme == "Kit")
    | .settings _ _ => (.ok [], made)
    | .warmup _ => (.ok (), made)
  view made := ⟨fun _ => made, id⟩

def OrderOfSchemesIrrelevant : Prop :=
  ∀ (client : Client Bool) (service : Service) (active' : List String) (r r' : Refresh) (s s' : Shared Bool),
    client.Fixed → service.active.Nodup → active'.Perm service.active →
    Shared.run client (service.refresh true) (.initial false (.memory .empty)) = some (.ok r, s) →
    Shared.run client ({ service with active := active' }.refresh true) (.initial false (.memory .empty)) =
      some (.ok r', s') →
    r.snapshot.options = r'.snapshot.options

theorem order_matters_where_sdks_are_made : ¬OrderOfSchemesIrrelevant := by
  intro h
  have fixed : makingClient.Fixed := fun c _ _ => by cases c <;> rfl
  have differ : ∃ x ∈ kitService.refreshed? makingClient true (.initial false (.memory .empty)),
      ∃ y ∈ { kitService with active := ["Kit", "App"] }.refreshed? makingClient true
        (.initial false (.memory .empty)), x.1.snapshot.options ≠ y.1.snapshot.options := by
    decide +kernel
  obtain ⟨⟨r, s⟩, hr, ⟨r', s'⟩, hr', hne⟩ := differ
  exact hne (h makingClient kitService ["Kit", "App"] r r' s s' fixed (by decide) (by decide)
    (Service.run_of_refreshed? hr) (Service.run_of_refreshed? hr'))

end

end BuildServer
