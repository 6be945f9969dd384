import BuildServer.Proofs.Graph.Difference
import BuildServer.Proofs.Graph.Lookup
import BuildServer.Proofs.Graph.Reports

/-!
Which changed answers the difference of two snapshots tells of. It knows one set of options for every
file, that of the first target with the file, so it can miss what changes in the others.
-/

namespace BuildServer

theorem or_ne_or {α : Type} {a a' b b' : Option α} (h : a.or b ≠ a'.or b')
    (hnone : a = none ↔ a' = none) : (∃ o o', a = some o ∧ a' = some o' ∧ o ≠ o') ∨
      a = none ∧ a' = none ∧ b ≠ b' := by
  cases a with
  | none =>
    obtain rfl := hnone.mp rfl
    exact .inr ⟨rfl, rfl, h⟩
  | some o =>
    cases a' with
    | none => cases hnone.mpr rfl
    | some o' => exact .inl ⟨o, o', rfl, rfl, fun heq => h (heq ▸ rfl)⟩

namespace Snapshot

variable {p s : Snapshot} {resolve : String → String} {path file t : String}

namespace Consistent

theorem exists_first (hs : s.Consistent) {o : CompilerOptions} (h : s.optionsByFile.get? file = some o) :
    ∃ u, s.optionsIn u file = some o ∧ ∀ t, s.Contains t file → u ≤ t := by
  obtain ⟨u, table, htable, ho, hfirst⟩ := hs.optionsByFile file o h
  exact ⟨u, Option.bind_eq_some_iff.mpr ⟨table, htable, ho⟩, hfirst⟩

theorem first_or_before (hs : s.Consistent) {o o' : CompilerOptions}
    (hown : s.optionsIn t file = some o) (hfile : s.optionsByFile.get? file = some o') :
    o = o' ∨ ∃ u, u < t ∧ s.Contains u file := by
  obtain ⟨u, hu, hfirst⟩ := hs.exists_first hfile
  by_cases hut : u < t
  · exact .inr ⟨u, hut, hs.contains_iff.mpr ⟨o', hu⟩⟩
  · have hle : u ≤ t := hfirst t (hs.contains_iff.mpr ⟨o, hown⟩)
    obtain rfl : u = t := String.le_antisymm hle (String.not_lt.mp hut)
    exact .inl (Option.some.inj (hown.symm.trans hu))

end Consistent

theorem contains_of_entry (h : p.entry t = s.entry t) : p.Contains t file ↔ s.Contains t file := by
  have hfiles : p.files.get? t = s.files.get? t := congrArg Prod.snd h
  rw [Contains, Contains, hfiles]

theorem unchanged_options (h : file ∉ (s.changedOptions (some p)).keys) {o : CompilerOptions}
    (ho : s.optionsByFile.get? file = some o) : p.optionsByFile.get? file = some o := by
  by_cases hsame : p.optionsByFile.get? file = some o
  · exact hsame
  · exact absurd (mem_changedOptions.mpr ⟨o, ho, hsame⟩) h

/-- How changes tell of other options of a file in a target, or why they do not: the options that an answer
gave are gone with a target that changed, or an earlier target has the file too. -/
inductive Traced (changes : Changes) (p s : Snapshot) (t file : String) (answer : Option CompilerOptions) :
    Prop
  | options (changed : file ∈ changes.options.keys)
  | gone (given : answer = p.optionsByFile.get? file) (old : file ∈ p.optionsByFile.keys)
    (gone : file ∉ s.optionsByFile.keys) (u : String) (listed : p.Contains u file)
    (changed : u ∈ changes.targets)
  | shared (old : p.Contains t file) (new : s.Contains t file) (u : String) (before : u < t)
    (listed : p.Contains u file ∨ s.Contains u file)

variable {answer : Option CompilerOptions}

theorem traced_of_own (hp : p.Consistent) (hs : s.Consistent) {o o' : CompilerOptions}
    (ho : p.optionsIn t file = some o) (ho' : s.optionsIn t file = some o') (differ : o ≠ o') :
    Traced (s.changesFrom (some p)) p s t file answer := by
  by_cases hchanged : file ∈ (s.changedOptions (some p)).keys
  · exact .options hchanged
  have hold : p.Contains t file := hp.contains_iff.mpr ⟨o, ho⟩
  have hnew : s.Contains t file := hs.contains_iff.mpr ⟨o', ho'⟩
  obtain ⟨first, hfirst⟩ := Table.mem_keys.mp ((hs.optionsByFile_keys file).mpr ⟨t, hnew⟩)
  rcases hp.first_or_before ho (unchanged_options hchanged hfirst) with rfl | ⟨u, hut, hu⟩
  · rcases hs.first_or_before ho' hfirst with rfl | ⟨u, hut, hu⟩
    · exact absurd rfl differ
    · exact .shared hold hnew u hut (.inr hu)
  · exact .shared hold hnew u hut (.inl hu)

theorem traced_of_file (hp : p.Consistent) (hs : s.Consistent)
    (differ : p.optionsByFile.get? file ≠ s.optionsByFile.get? file)
    (given : p.optionsByFile.get? file ≠ none → answer = p.optionsByFile.get? file) :
    Traced (s.changesFrom (some p)) p s t file answer := by
  cases hnew : s.optionsByFile.get? file with
  | some o => exact .options (mem_changedOptions.mpr ⟨o, hnew, hnew ▸ differ⟩)
  | none =>
    have hne : p.optionsByFile.get? file ≠ none := hnew ▸ differ
    have hkey : file ∈ p.optionsByFile.keys :=
      Table.mem_keys.mpr (Option.ne_none_iff_exists'.mp hne)
    have hgone : file ∉ s.optionsByFile.keys := by
      rw [Table.mem_keys, hnew]
      rintro ⟨_, ⟨⟩⟩
    obtain ⟨u, hu⟩ := (hp.optionsByFile_keys file).mp hkey
    refine .gone (given hne) hkey hgone u hu ((mem_changedTargets hp hs).mpr fun hentry => hgone ?_)
    exact (hs.optionsByFile_keys file).mpr ⟨u, (contains_of_entry hentry).mp hu⟩

theorem traced_of_differ (hp : p.Consistent) (hs : s.Consistent)
    (differ : p.optionsFor resolve path (some t) ≠ s.optionsFor resolve path (some t)) :
    t ∈ s.changedTargets (some p) ∨
      ∃ file, (file = Path.normalize path ∨ file = resolve (Path.normalize path)) ∧
        Traced (s.changesFrom (some p)) p s t file (p.optionsFor resolve path (some t)) := by
  by_cases hentry : p.entry t = s.entry t
  case neg => exact .inl ((mem_changedTargets hp hs).mpr hentry)
  right
  -- With the same files, the target has options of its own in both snapshots or in none.
  have hown (file : String) : p.optionsIn t file = none ↔ s.optionsIn t file = none := by
    rw [hp.optionsIn_eq_none, hs.optionsIn_eq_none, contains_of_entry hentry]
  have hanswer := optionsFor_some p resolve path t
  generalize p.optionsFor resolve path (some t) = answer at differ hanswer ⊢
  rw [hanswer, optionsFor_some] at differ
  generalize Path.normalize path = n at differ hanswer ⊢
  rcases or_ne_or differ (hown n) with ⟨o, o', ho, ho', hne⟩ | ⟨hn, -, differ⟩
  · exact ⟨n, .inl rfl, traced_of_own hp hs ho ho' hne⟩
  rcases or_ne_or differ (hown (resolve n)) with ⟨o, o', ho, ho', hne⟩ | ⟨hl, -, differ⟩
  · exact ⟨resolve n, .inr rfl, traced_of_own hp hs ho ho' hne⟩
  have hfiles : answer = (p.optionsByFile.get? n).or (p.optionsByFile.get? (resolve n)) := by
    rw [hanswer, hn, hl, Option.none_or, Option.none_or]
  by_cases hsame : p.optionsByFile.get? n = s.optionsByFile.get? n
  · rw [← hsame] at differ
    have hnone : p.optionsByFile.get? n = none := by
      cases h : p.optionsByFile.get? n with
      | none => rfl
      | some o => simp [h] at differ
    rw [hnone, Option.none_or, Option.none_or] at differ
    exact ⟨resolve n, .inr rfl, traced_of_file hp hs differ fun _ => by rw [hfiles, hnone, Option.none_or]⟩
  · refine ⟨n, .inl rfl, traced_of_file hp hs hsame fun hne => ?_⟩
    rw [hfiles, Option.or_of_isSome (Option.isSome_iff_ne_none.mpr hne)]

end Snapshot

/-- Between two refreshes in a row, with nothing else cached in between, an answer that changes for a target
is one of a changed target, or is traced by one of the two paths of the file. -/
theorem changed_answers_traced {κ : Type} {client client' : Client κ} {service : Service}
    {cached cached' : Bool} {s₁ s₂ s₃ s₄ : Shared κ} {p r : Refresh} {resolve : String → String}
    {path t : String} (first : s₁.run client (service.refresh cached) = some (.ok p, s₂))
    (kept : s₃.snapshot = s₂.snapshot)
    (second : s₃.run client' (service.refresh cached') = some (.ok r, s₄))
    (differ : p.snapshot.optionsFor resolve path (some t) ≠ r.snapshot.optionsFor resolve path (some t)) :
    t ∈ r.changes.targets ∨
      ∃ file, (file = Path.normalize path ∨ file = resolve (Path.normalize path)) ∧
        Snapshot.Traced r.changes p.snapshot r.snapshot t file
          (p.snapshot.optionsFor resolve path (some t)) := by
  have hp : p.snapshot.Consistent := Service.consistent_of_refresh first
  have hs : r.snapshot.Consistent := Service.consistent_of_refresh second
  have hslot : s₃.snapshot = some p.snapshot := kept.trans (Service.snapshot_of_refresh first)
  have hchanges : r.changes = r.snapshot.changesFrom (some p.snapshot) := by
    rw [← hslot]
    exact Service.changes_of_refresh second
  rw [hchanges]
  exact Snapshot.traced_of_differ hp hs differ

def sharedClient : Client Bool where
  answer c k :=
    match c with
    | .list _ => (.ok ⟨some ⟨"App", ["App"], []⟩, none⟩, k)
    | .index _ _ =>
      let shared (options : List String) := ("/p/S.swift", FileSettings.mk (some options) none none)
      let link := ("/p/L.swift", FileSettings.mk (some ["-l"]) none none)
      let app := if k then [link, shared ["-c"]] else [shared ["-c"]]
      let tests := [shared (if k then ["-c"] else ["-g"])]
      (.ok (.ofList [("App", .ofList app), ("AppTests", .ofList tests)]), k)
    | .settings _ _ => (.ok [], k)
    | .warmup _ => (.ok (), k)
  view _ := ⟨fun _ => false, id⟩

def sharedLinks (path : String) : String :=
  if path = "/p/L.swift" then "/p/S.swift" else path

def sharedQueries : List (String × String) :=
  [("/p/S.swift", (TargetUri.nested "App" "App" "AppTests").render),
    ("/p/L.swift", (TargetUri.forScheme "App" "Kit").render)]

theorem exists_shared_refreshes : ∃ p r s₁ s₂,
    Shared.run sharedClient (appService.refresh true) (.initial true (.memory .empty)) =
      some (.ok p, s₁) ∧
    Shared.run sharedClient (appService.refresh true) { s₁ with site := false } = some (.ok r, s₂) ∧
    ∀ q ∈ sharedQueries,
      p.snapshot.optionsFor sharedLinks q.1 (some q.2) ≠ r.snapshot.optionsFor sharedLinks q.1 (some q.2) ∧
      p.snapshot.files.get? q.2 = r.snapshot.files.get? q.2 ∧ r.changes.options.keys = [] ∧
      r.snapshot.optionsFor sharedLinks q.1 (some q.2) ≠ none := by
  have hrun : ∃ x ∈ appService.refreshed? sharedClient true (.initial true (.memory .empty)),
      ∃ y ∈ appService.refreshed? sharedClient true { x.2 with site := false }, ∀ q ∈ sharedQueries,
        x.1.snapshot.optionsFor sharedLinks q.1 (some q.2) ≠
          y.1.snapshot.optionsFor sharedLinks q.1 (some q.2) ∧
        x.1.snapshot.files.get? q.2 = y.1.snapshot.files.get? q.2 ∧ y.1.changes.options.keys = [] ∧
        y.1.snapshot.optionsFor sharedLinks q.1 (some q.2) ≠ none := by
    decide +kernel
  obtain ⟨⟨p, s₁⟩, hfirst, ⟨r, s₂⟩, hsecond, hqueries⟩ := hrun
  exact ⟨p, r, s₁, s₂, Service.run_of_refreshed? hfirst, Service.run_of_refreshed? hsecond, hqueries⟩

theorem shared_answer_traced : ∃ p r s₁ s₂,
    Shared.run sharedClient (appService.refresh true) (.initial true (.memory .empty)) =
      some (.ok p, s₁) ∧
    Shared.run sharedClient (appService.refresh true) { s₁ with site := false } = some (.ok r, s₂) ∧
    ∀ q ∈ sharedQueries, q.2 ∈ r.changes.targets ∨
      ∃ file, (file = Path.normalize q.1 ∨ file = sharedLinks (Path.normalize q.1)) ∧
        Snapshot.Traced r.changes p.snapshot r.snapshot q.2 file
          (p.snapshot.optionsFor sharedLinks q.1 (some q.2)) := by
  obtain ⟨p, r, s₁, s₂, hfirst, hsecond, hqueries⟩ := exists_shared_refreshes
  have kept : ({ s₁ with site := false } : Shared Bool).snapshot = s₁.snapshot := rfl
  exact ⟨p, r, s₁, s₂, hfirst, hsecond, fun q hq =>
    changed_answers_traced hfirst kept hsecond (hqueries q hq).1⟩

theorem shared_answer_can_change_untold : ∃ p r s₁ s₂,
    Shared.run sharedClient (appService.refresh true) (.initial true (.memory .empty)) =
      some (.ok p, s₁) ∧
    Shared.run sharedClient (appService.refresh true) { s₁ with site := false } = some (.ok r, s₂) ∧
    ∀ q ∈ sharedQueries,
      p.snapshot.optionsFor sharedLinks q.1 (some q.2) ≠ r.snapshot.optionsFor sharedLinks q.1 (some q.2) ∧
      q.2 ∉ r.changes.targets ∧ Path.normalize q.1 ∉ r.changes.options.keys ∧
      sharedLinks (Path.normalize q.1) ∉ r.changes.options.keys ∧
      r.snapshot.optionsFor sharedLinks q.1 (some q.2) ≠ none := by
  obtain ⟨p, r, s₁, s₂, hfirst, hsecond, hqueries⟩ := exists_shared_refreshes
  refine ⟨p, r, s₁, s₂, hfirst, hsecond, fun q hq => ?_⟩
  obtain ⟨hdiffer, hfiles, hkeys, hanswer⟩ := hqueries q hq
  refine ⟨hdiffer, fun hchanged => ?_, by simp [hkeys], by simp [hkeys], hanswer⟩
  have hreported : ((Attempt.reports [] true).run.run sharedClient.probe true).1.toOption.map
        (fun xs => (xs.flatMap (SchemeReport.members "App")).map Member.target) =
      ((Attempt.reports [] true).run.run sharedClient.probe false).1.toOption.map
        (fun xs => (xs.flatMap (SchemeReport.members "App")).map Member.target) := by
    decide +kernel
  obtain ⟨xs, store, hxs, hp⟩ := Service.reports_of_refresh hfirst
  obtain ⟨ys, store', hys, hr⟩ := Service.reports_of_refresh hsecond
  change ((Attempt.reports [] true).run.run sharedClient.probe true).1 = _ at hxs
  change ((Attempt.reports [] true).run.run sharedClient.probe false).1 = _ at hys
  rw [hxs, hys] at hreported
  have htargets : p.snapshot.targets = r.snapshot.targets := by
    rw [hp, hr, Snapshot.ofMembers, Snapshot.ofMembers]
    exact congrArg (List.mergeSort · _) (Option.some.inj hreported)
  rw [Service.changes_of_refresh hsecond] at hchanged
  change q.2 ∈ r.snapshot.changedTargets s₁.snapshot at hchanged
  rw [Service.snapshot_of_refresh hfirst, Snapshot.mem_changedTargets
    (Service.consistent_of_refresh hfirst) (Service.consistent_of_refresh hsecond)] at hchanged
  apply hchanged
  rw [Snapshot.entry, Snapshot.entry, Snapshot.target?, Snapshot.target?, htargets, hfiles]

end BuildServer
