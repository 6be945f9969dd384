import BuildServer.Proofs.Graph.Announcement

namespace BuildServer

structure BuildState.Covers (state : BuildState) (old new : Snapshot) : Prop where
  targets : ∀ uri, old.entry uri ≠ new.entry uri → uri ∈ state.targets.keys
  options : ∀ file o, new.optionsByFile.get? file = some o →
    old.optionsByFile.get? file = some o ∨ state.options.get? file = some o
  current : ∀ file o o', state.options.get? file = some o → new.optionsByFile.get? file = some o' → o = o'

namespace BuildState.Covers

variable {state : BuildState} {old middle new : Snapshot}

theorem refl (empty : state.options = .empty) (s : Snapshot) : state.Covers s s where
  targets uri differ := absurd rfl differ
  options file o h := .inl h
  current file o o' h := by
    rw [empty] at h
    cases h

theorem record (covers : state.Covers old middle) (hmiddle : middle.Consistent) (hnew : new.Consistent) :
    (state.record (new.changesFrom (some middle))).Covers old new := by
  have recorded (file : String) : (state.record (new.changesFrom (some middle))).options.get? file =
      ((new.optionsByFile.get? file).filter fun o => middle.optionsByFile.get? file != some o).or
        (state.options.get? file) := by
    rw [BuildState.record, Table.get?_union, Snapshot.changesFrom, Snapshot.changedOptions, Table.get?_filter]
  -- The last refresh that has changed the options of a file is this one or an earlier one.
  have last {file : String} {o : CompilerOptions} (h : new.optionsByFile.get? file = some o) :
      (state.record (new.changesFrom (some middle))).options.get? file = some o ∨
        middle.optionsByFile.get? file = some o ∧
          (state.record (new.changesFrom (some middle))).options.get? file = state.options.get? file := by
    rw [recorded, h]
    by_cases hsame : middle.optionsByFile.get? file = some o
    · exact .inr ⟨hsame, by simp [hsame, Option.filter]⟩
    · exact .inl (by simp [hsame, Option.filter])
  exact {
    targets := by
      intro uri differ
      refine Names.mem_foldl_add.mpr ?_
      by_cases hsame : old.entry uri = middle.entry uri
      · exact .inl ((Snapshot.mem_changedTargets hmiddle hnew).mpr (hsame ▸ differ))
      · exact .inr (covers.targets uri hsame)
    options := by
      intro file o h
      rcases last h with hrecorded | ⟨hmid, hkept⟩
      · exact .inr hrecorded
      · rw [hkept]
        exact covers.options file o hmid
    current := by
      intro file o o' hpending h
      rcases last h with hrecorded | ⟨hmid, hkept⟩
      · exact Option.some.inj (hpending.symm.trans hrecorded)
      · exact covers.current file o o' (hkept.symm.trans hpending) hmid }

end BuildState.Covers

namespace Service

variable {κ : Type} {client : Client κ} {service : Service} {s s' : Shared κ} {u : GraphUse} {r : Report}
  {old new : Snapshot}

theorem use_state (h : s.run client (service.use u) = some (r, s')) (cached : s.snapshot = some old) :
    (∃ new, r = .recorded ⟨new, new.changesFrom (some old)⟩ ∧ new.Consistent ∧ s'.snapshot = some new ∧
      s'.state = s.state.record (new.changesFrom (some old))) ∨
    u = .invalidate ∨
    (r.snapshot? = none ∨ r.snapshot? = some old) ∧ s'.snapshot = some old ∧ s'.state = s.state := by
  cases u with
  | refresh cached' =>
    obtain ⟨result, s₁, hrefresh, h⟩ := Shared.run_bind.mp h
    rcases refresh_cases hrefresh with ⟨e, k, -, rfl, rfl⟩ | ⟨new, k, -, rfl, rfl⟩
    · obtain ⟨rfl, rfl⟩ := Shared.run_pure.mp h
      exact .inr (.inr ⟨.inl rfl, cached, rfl⟩)
    · obtain ⟨_, s₂, hrecord, h⟩ := Shared.run_bind.mp h
      rw [Shared.run_act] at hrecord
      obtain ⟨-, rfl⟩ := Prod.mk.inj (Option.some.inj hrecord)
      obtain ⟨rfl, rfl⟩ := Shared.run_pure.mp h
      rw [cached] at hrefresh ⊢
      exact .inl ⟨new, rfl, consistent_of_refresh hrefresh, rfl, rfl⟩
  | query =>
    obtain ⟨result, s₁, hsnapshot, hreport⟩ := Shared.run_bind.mp h
    rw [run_snapshot_of_cached cached] at hsnapshot
    obtain ⟨rfl, rfl⟩ := Prod.mk.inj (Option.some.inj hsnapshot)
    obtain ⟨rfl, rfl⟩ := Shared.run_pure.mp hreport
    exact .inr (.inr ⟨.inr rfl, cached, rfl⟩)
  | invalidate => exact .inr (.inl rfl)

theorem reports_cover {uses : List (κ × GraphUse)} {rs : List Report} {first : Snapshot}
    (used : service.reports client uses s = some (rs, s')) (kept : ∀ u ∈ uses, u.2 ≠ .invalidate)
    (cached : s.snapshot = some old) (consistent : old.Consistent) (covers : s.state.Covers first old) :
    s'.snapshot = some (latest old rs) ∧ s'.state.Covers first (latest old rs) := by
  induction uses generalizing s rs old with
  | nil =>
    obtain ⟨rfl, rfl⟩ := Prod.mk.inj (Option.some.inj used)
    exact ⟨cached, covers⟩
  | cons ku uses ih =>
    obtain ⟨k, u⟩ := ku
    obtain ⟨r, rest, s₁, hr, hrest, rfl⟩ := reports_cons.mp used
    have keptRest : ∀ u ∈ uses, u.2 ≠ .invalidate := fun u hu => kept u (List.mem_cons_of_mem _ hu)
    rcases use_state (s := { s with site := k }) hr cached with
      ⟨new, rfl, hnew, hslot, hstate⟩ | rfl | ⟨hgiven, hslot, hstate⟩
    · change s'.snapshot = some (latest new rest) ∧ s'.state.Covers first (latest new rest)
      exact ih hrest keptRest hslot hnew (hstate ▸ covers.record consistent hnew)
    · exact absurd rfl (kept _ List.mem_cons_self)
    · have hlatest : latest old (r :: rest) = latest old rest := by
        rcases hgiven with hgiven | hgiven <;> simp [latest, hgiven]
      rw [hlatest]
      exact ih hrest keptRest hslot consistent (hstate ▸ covers)

end Service

/-- After refreshes with nothing forgotten in between, what is drained names in order all targets that differ
between the snapshot at the beginning, when no options were pending, and that at the end. It has the options of
every file whose options differ, and of no file other options than those at the end. -/
theorem drained_changes_cover {κ κ' : Type} {client : Client κ} {client' : Client κ'} {service service' : Service}
    {cached : Bool} {r : Refresh} {t t' : Shared κ'} {s s' : Shared κ} {uses : List (κ × GraphUse)}
    {rs : List Report} (first : t.run client' (service'.refresh cached) = some (.ok r, t'))
    (start : s.snapshot = some r.snapshot) (empty : s.state.options = .empty)
    (used : service.reports client uses s = some (rs, s')) (kept : ∀ u ∈ uses, u.2 ≠ .invalidate) :
    ∃ final changes s'', s'.snapshot = some final ∧ final = latest r.snapshot rs ∧
      s'.run client (Program.act .drain) = some (changes, s'') ∧ changes.targets.Pairwise (· < ·) ∧
      (∀ uri, r.snapshot.target? uri ≠ final.target? uri ∨ r.snapshot.files.get? uri ≠ final.files.get? uri →
        uri ∈ changes.targets) ∧
      (∀ file o, final.optionsByFile.get? file = some o → r.snapshot.optionsByFile.get? file ≠ some o →
        file ∈ changes.options.keys) ∧
      ∀ file o o', changes.options.get? file = some o → final.optionsByFile.get? file = some o' → o = o' := by
  obtain ⟨hslot, covers⟩ :=
    Service.reports_cover used kept start (Service.consistent_of_refresh first) (.refl empty r.snapshot)
  refine ⟨latest r.snapshot rs, s'.state.pending, _, hslot, rfl, Shared.run_act _, Table.keys_increasing _, ?_, ?_,
    covers.current⟩
  · intro uri differ
    refine covers.targets uri fun hentry => ?_
    obtain ⟨htarget, hfiles⟩ := Prod.mk.inj hentry
    exact differ.elim (absurd htarget) (absurd hfiles)
  · intro file o h differ
    exact Table.mem_keys.mpr ⟨o, (covers.options file o h).resolve_left differ⟩

def testsReturn : List (Bool × GraphUse) :=
  [(true, .refresh false), (false, .refresh true), (true, .refresh false)]

theorem returned_tests_drained : ∃ r t rs s' changes s'',
    Shared.run testsClient (appService.refresh true) (.initial false (.memory .empty)) = some (.ok r, t) ∧
    appService.reports testsClient testsReturn t = some (rs, s') ∧
    s'.run testsClient (Program.act .drain) = some (changes, s'') ∧
    testsUri ∈ changes.targets ∧ "/p/T.swift" ∈ changes.options.keys := by
  have hrun : ∃ x ∈ appService.refreshed? testsClient true (.initial false (.memory .empty)),
      ∃ y ∈ appService.reports testsClient testsReturn x.2, x.2.state.options = .empty ∧
        x.1.snapshot.files.get? testsUri ≠ (latest x.1.snapshot y.1).files.get? testsUri ∧
        x.1.snapshot.optionsByFile.get? "/p/T.swift" = none ∧
        ((latest x.1.snapshot y.1).optionsByFile.get? "/p/T.swift").isSome := by
    decide +kernel
  obtain ⟨⟨r, t⟩, hfirst, ⟨rs, s'⟩, hused, empty, hfiles, hnone, hsome⟩ := hrun
  have first := Service.run_of_refreshed? hfirst
  obtain ⟨_, changes, s'', -, rfl, drain, -, targets, options, -⟩ :=
    drained_changes_cover first (Service.snapshot_of_refresh first) empty hused (by decide)
  obtain ⟨o, ho⟩ := Option.isSome_iff_exists.mp hsome
  exact ⟨r, t, rs, s', changes, s'', first, hused, drain, targets testsUri (.inr hfiles),
    options "/p/T.swift" o ho (by simp [hnone])⟩

end BuildServer
