import BuildServer.Proofs.Graph.Difference
import BuildServer.Proofs.Server.Alone

namespace BuildServer

inductive GraphUse where
  | refresh (cached : Bool)
  | query
  | invalidate
  deriving DecidableEq, Repr

inductive Report where
  | recorded (r : Refresh)
  | answered (s : Snapshot)
  | failed (e : BuildError)
  | forgotten
  deriving DecidableEq

namespace Report

def snapshot? : Report → Option Snapshot
  | .recorded r => some r.snapshot
  | .answered s => some s
  | .failed _ | .forgotten => none

def targets : Report → List String
  | .recorded r => r.changes.targets
  | .answered _ | .failed _ | .forgotten => []

end Report

namespace Service

open Program

def use (service : Service) : GraphUse → Program Report
  | .refresh cached => do
    match ← service.refresh cached with
    | .error e => pure (.failed e)
    | .ok r =>
      act (.record r.changes)
      pure (.recorded r)
  | .query => do
    match ← service.snapshot with
    | .error e => pure (.failed e)
    | .ok s => pure (.answered s)
  | .invalidate => do
    act .invalidate
    pure .forgotten

def reports {κ : Type} (service : Service) (client : Client κ) :
    List (κ × GraphUse) → Shared κ → Option (List Report × Shared κ)
  | [], s => some ([], s)
  | (k, u) :: uses, s => do
    let (r, s) ← { s with site := k }.run client (service.use u)
    let (rs, s) ← service.reports client uses s
    pure (r :: rs, s)

end Service

inductive Report.Effect (slot : Option Snapshot) : Report → Option Snapshot → Prop
  | failed (e : BuildError) : Effect slot (.failed e) slot
  | recorded (new : Snapshot) (consistent : new.Consistent) :
    Effect slot (.recorded ⟨new, new.changesFrom slot⟩) (some new)
  | found (old : Snapshot) (cached : slot = some old) : Effect slot (.answered old) slot
  | rebuilt (new : Snapshot) (consistent : new.Consistent) (empty : slot = none) :
    Effect slot (.answered new) (some new)
  | forgotten : Effect slot .forgotten none

def Announced (uri : String) (reports : List Report) : Prop :=
  ∃ r ∈ reports, uri ∈ r.targets

instance (uri : String) (reports : List Report) : Decidable (Announced uri reports) :=
  inferInstanceAs (Decidable (∃ r ∈ reports, uri ∈ r.targets))

/-- Somewhere a snapshot was forgotten, and the next one, with another entry of the target, came from a
query or lacks the target. -/
inductive Missed (uri : String) (reports : List Report) : Prop
  | intro (before between after : List Report) (earlier later : Report) (old new : Snapshot)
    (split : reports = before ++ earlier :: between ++ later :: after)
    (last : earlier.snapshot? = some old) (none : ∀ r ∈ between, r.snapshot? = none)
    (forgotten : .forgotten ∈ between) (next : later.snapshot? = some new)
    (differ : old.entry uri ≠ new.entry uri) (unnamed : later = .answered new ∨ uri ∉ new.uris)

namespace Report.Effect

variable {slot slot' : Option Snapshot} {r : Report} {old new : Snapshot} {uri : String}

theorem given (effect : r.Effect slot slot') (h : r.snapshot? = some new) : slot' = some new := by
  cases effect with
  | failed e => cases h
  | recorded new consistent => exact h
  | found old cached => exact cached.trans h
  | rebuilt new consistent empty => exact h
  | forgotten => cases h

theorem quiet (effect : r.Effect slot slot') (h : r.snapshot? = none) :
    slot' = slot ∨ slot' = none ∧ r = .forgotten := by
  cases effect with
  | failed e => exact .inl rfl
  | recorded new consistent => cases h
  | found old cached => cases h
  | rebuilt new consistent empty => cases h
  | forgotten => exact .inr ⟨rfl, rfl⟩

theorem consistent (effect : r.Effect slot slot') (h : ∀ old, slot = some old → old.Consistent)
    {new : Snapshot} (hnew : slot' = some new) : new.Consistent := by
  cases effect with
  | failed e => exact h new hnew
  | recorded new consistent => exact Option.some.inj hnew ▸ consistent
  | found old cached => exact h new hnew
  | rebuilt new consistent empty => exact Option.some.inj hnew ▸ consistent
  | forgotten => cases hnew

theorem names_difference (effect : r.Effect slot slot') (hslot : slot = some old ∨ slot = none)
    (hold : old.Consistent) (hnew : r.snapshot? = some new) (differ : old.entry uri ≠ new.entry uri) :
    Announced uri [r] ∨ slot = none ∧ (r = .answered new ∨ uri ∉ new.uris) := by
  cases effect with
  | failed e => cases hnew
  | forgotten => cases hnew
  | recorded built consistent =>
    obtain rfl := Option.some.inj hnew
    rcases hslot with rfl | rfl
    · left
      exact ⟨_, List.mem_singleton_self _, (Snapshot.mem_changedTargets hold consistent).mpr differ⟩
    · -- Against nothing all targets of the new snapshot count as changed, and no others.
      by_cases huri : uri ∈ Snapshot.uris built
      · left
        exact ⟨_, List.mem_singleton_self _, huri⟩
      · exact .inr ⟨rfl, .inr huri⟩
  | found found cached =>
    obtain rfl := Option.some.inj hnew
    rcases hslot with hslot | hslot
    · obtain rfl := Option.some.inj (cached.symm.trans hslot)
      exact absurd rfl differ
    · rw [hslot] at cached
      cases cached
  | rebuilt built consistent empty =>
    obtain rfl := Option.some.inj hnew
    exact .inr ⟨empty, .inl rfl⟩

theorem names_present (effect : r.Effect none slot') (hnew : r.snapshot? = some new)
    (named : uri ∈ r.targets) : uri ∈ new.uris := by
  cases effect with
  | recorded built consistent => exact Option.some.inj hnew ▸ named
  | failed e => cases hnew
  | found found cached => cases cached
  | rebuilt built consistent empty => cases named
  | forgotten => cases hnew

end Report.Effect

theorem Announced.mono {uri : String} {rs rs' : List Report} (h : Announced uri rs)
    (hsub : ∀ r ∈ rs, r ∈ rs') : Announced uri rs' := by
  obtain ⟨r, hr, huri⟩ := h
  exact ⟨r, hsub _ hr, huri⟩

theorem Missed.within {uri : String} {rs : List Report} (h : Missed uri rs) (front rest : List Report) :
    Missed uri (front ++ rs ++ rest) := by
  obtain ⟨before, between, after, earlier, later, old, new, split, last, none, forgotten, next, differ,
    unnamed⟩ := h
  have hsplit : front ++ rs ++ rest =
      (front ++ before) ++ earlier :: between ++ later :: (after ++ rest) := by
    rw [split]
    simp
  exact .intro _ between _ earlier later old new hsplit last none forgotten next differ unnamed

structure Since (last : Report) (old : Snapshot) (quiet : List Report) (slot : Option Snapshot) : Prop where
  given : last.snapshot? = some old
  consistent : old.Consistent
  silent : ∀ r ∈ quiet, r.snapshot? = none
  cached : slot = some old ∨ slot = none ∧ .forgotten ∈ quiet

namespace Since

variable {last r : Report} {old new : Snapshot} {quiet : List Report} {slot slot' : Option Snapshot}
  {uri : String}

theorem quiet_step (h : Since last old quiet slot) (effect : r.Effect slot slot')
    (hnone : r.snapshot? = none) : Since last old (quiet ++ [r]) slot' where
  given := h.given
  consistent := h.consistent
  silent q hq := by
    rcases List.mem_append.mp hq with hq | hq
    · exact h.silent q hq
    · rw [List.mem_singleton.mp hq, hnone]
  cached := by
    rcases effect.quiet hnone with hsame | ⟨hforgotten, rfl⟩
    · rw [hsame]
      exact h.cached.imp_right (And.imp_right (List.mem_append_left _))
    · exact .inr ⟨hforgotten, by simp⟩

theorem given_step (h : Since last old quiet slot) (effect : r.Effect slot slot')
    (hnew : r.snapshot? = some new) : Since r new [] slot' where
  given := hnew
  consistent := by
    apply effect.consistent _ (effect.given hnew)
    intro found hfound
    rcases h.cached with hslot | ⟨hslot, -⟩
    · rw [hslot] at hfound
      exact Option.some.inj hfound ▸ h.consistent
    · rw [hslot] at hfound
      cases hfound
  silent := by simp
  cached := .inl (effect.given hnew)

theorem told (h : Since last old quiet slot) (effect : r.Effect slot slot')
    (hnew : r.snapshot? = some new) (differ : old.entry uri ≠ new.entry uri) :
    Announced uri [r] ∨ Missed uri (last :: quiet ++ [r]) := by
  rcases effect.names_difference (h.cached.imp_right And.left) h.consistent hnew differ with
    hnamed | ⟨hnone, hunnamed⟩
  · exact .inl hnamed
  · have hforgotten : .forgotten ∈ quiet := by
      rcases h.cached with hslot | ⟨-, hforgotten⟩
      · rw [hnone] at hslot
        cases hslot
      · exact hforgotten
    exact .inr (.intro [] quiet [] last r old new rfl h.given h.silent hforgotten hnew differ hunnamed)

end Since

def latest (s : Snapshot) (reports : List Report) : Snapshot :=
  reports.foldl (fun s r => r.snapshot?.getD s) s

namespace Service

variable {κ : Type} {client : Client κ} {service : Service} {s s' : Shared κ}

theorem use_invalidate :
    s.run client (service.use .invalidate) = some (.forgotten, { s with snapshot := none }) :=
  rfl

theorem use_effect {u : GraphUse} {r : Report} (h : s.run client (service.use u) = some (r, s')) :
    r.Effect s.snapshot s'.snapshot := by
  cases u with
  | refresh cached =>
    obtain ⟨result, s₁, hrefresh, h⟩ := Shared.run_bind.mp h
    rcases refresh_cases hrefresh with ⟨e, k, -, rfl, rfl⟩ | ⟨new, k, -, rfl, rfl⟩
    · obtain ⟨rfl, rfl⟩ := Shared.run_pure.mp h
      exact .failed e
    · obtain ⟨_, s₂, hrecord, h⟩ := Shared.run_bind.mp h
      rw [Shared.run_act] at hrecord
      obtain ⟨-, rfl⟩ := Prod.mk.inj (Option.some.inj hrecord)
      obtain ⟨rfl, rfl⟩ := Shared.run_pure.mp h
      exact .recorded new (consistent_of_refresh hrefresh)
  | query =>
    obtain ⟨result, s₁, hsnapshot, hreport⟩ := Shared.run_bind.mp h
    rcases snapshot_cases hsnapshot with ⟨found, hslot, rfl, hs₁⟩ | ⟨hslot, result, hrefresh, rfl⟩
    · obtain ⟨rfl, rfl⟩ := Shared.run_pure.mp hreport
      rw [hs₁]
      exact .found found hslot
    · rcases refresh_cases hrefresh with ⟨e, k, -, rfl, rfl⟩ | ⟨new, k, -, rfl, rfl⟩
      · obtain ⟨rfl, rfl⟩ := Shared.run_pure.mp hreport
        exact .failed e
      · obtain ⟨rfl, rfl⟩ := Shared.run_pure.mp hreport
        exact .rebuilt new (consistent_of_refresh hrefresh) hslot
  | invalidate =>
    rw [use_invalidate] at h
    obtain ⟨rfl, rfl⟩ := Prod.mk.inj (Option.some.inj h)
    exact .forgotten

theorem reports_cons {k : κ} {u : GraphUse} {uses : List (κ × GraphUse)} {rs : List Report} :
    service.reports client ((k, u) :: uses) s = some (rs, s') ↔
      ∃ r rest s₁, { s with site := k }.run client (service.use u) = some (r, s₁) ∧
        service.reports client uses s₁ = some (rest, s') ∧ rs = r :: rest := by
  simp only [reports, Option.bind_eq_bind, Option.bind_eq_some_iff, Prod.exists, Option.pure_def,
    Option.some.injEq, Prod.mk.injEq]
  constructor
  · rintro ⟨r, s₁, hr, rest, _, hrest, rfl, rfl⟩
    exact ⟨r, rest, s₁, hr, hrest, rfl⟩
  · rintro ⟨r, rest, s₁, hr, hrest, rfl⟩
    exact ⟨r, s₁, hr, rest, s', hrest, rfl, rfl⟩

theorem reports_append {uses : List (κ × GraphUse)} {before rest : List Report}
    (h : service.reports client uses s = some (before ++ rest, s')) : ∃ first second s₁,
      service.reports client first s = some (before, s₁) ∧
        service.reports client second s₁ = some (rest, s') := by
  induction before generalizing uses s with
  | nil => exact ⟨[], uses, s, rfl, h⟩
  | cons r before ih =>
    cases uses with
    | nil =>
      obtain ⟨hnil, -⟩ := Prod.mk.inj (Option.some.inj h)
      cases hnil
    | cons ku uses =>
      obtain ⟨k, u⟩ := ku
      obtain ⟨r', rest', s₁, hr, hrest, hsplit⟩ := reports_cons.mp h
      obtain ⟨rfl, rfl⟩ := List.cons.inj hsplit
      obtain ⟨first, second, s₂, hfirst, hsecond⟩ := ih hrest
      exact ⟨(k, u) :: first, second, s₂, reports_cons.mpr ⟨r, before, s₁, hr, hfirst, rfl⟩, hsecond⟩

theorem reports_consistent {uses : List (κ × GraphUse)} {rs : List Report}
    (h : service.reports client uses s = some (rs, s'))
    (start : ∀ old, s.snapshot = some old → old.Consistent) {new : Snapshot}
    (hnew : s'.snapshot = some new) : new.Consistent := by
  induction uses generalizing s rs with
  | nil =>
    obtain ⟨-, rfl⟩ := Prod.mk.inj (Option.some.inj h)
    exact start new hnew
  | cons ku uses ih =>
    obtain ⟨k, u⟩ := ku
    obtain ⟨r, rest, s₁, hr, hrest, -⟩ := reports_cons.mp h
    have effect : r.Effect s.snapshot s₁.snapshot := use_effect (s := { s with site := k }) hr
    exact ih hrest fun old hold => effect.consistent start hold

theorem reports_last {uses : List (κ × GraphUse)} {rs : List Report} {r : Report} {new : Snapshot}
    (h : service.reports client uses s = some (rs ++ [r], s')) (hnew : r.snapshot? = some new) :
    s'.snapshot = some new := by
  obtain ⟨_, second, s₁, -, hsecond⟩ := reports_append h
  cases second with
  | nil =>
    obtain ⟨hnil, -⟩ := Prod.mk.inj (Option.some.inj hsecond)
    cases hnil
  | cons ku uses =>
    obtain ⟨k, u⟩ := ku
    obtain ⟨r', rest, s₂, hr, hrest, hcons⟩ := reports_cons.mp hsecond
    obtain ⟨rfl, rfl⟩ := List.cons.inj hcons
    cases uses with
    | cons ku uses =>
      obtain ⟨_, _, _, -, -, hnil⟩ := reports_cons.mp hrest
      cases hnil
    | nil =>
      obtain ⟨-, rfl⟩ := Prod.mk.inj (Option.some.inj hrest)
      have effect : r.Effect s₁.snapshot s₂.snapshot := use_effect (s := { s₁ with site := k }) hr
      exact effect.given hnew

theorem announced_or_missed {uses : List (κ × GraphUse)} {rs quiet : List Report} {last : Report}
    {old : Snapshot} {uri : String} (h : service.reports client uses s = some (rs, s'))
    (since : Since last old quiet s.snapshot) (differ : old.entry uri ≠ (latest old rs).entry uri) :
    Announced uri rs ∨ Missed uri (last :: quiet ++ rs) := by
  -- `last` is the last report so far that gave a snapshot, and moves on with the uses.
  induction uses generalizing s rs quiet last old with
  | nil =>
    obtain ⟨rfl, rfl⟩ := Prod.mk.inj (Option.some.inj h)
    exact absurd rfl differ
  | cons ku uses ih =>
    obtain ⟨k, u⟩ := ku
    obtain ⟨r, rest, s₁, hr, hrest, rfl⟩ := reports_cons.mp h
    have effect : r.Effect s.snapshot s₁.snapshot := use_effect (s := { s with site := k }) hr
    have later (h : Announced uri rest) : Announced uri (r :: rest) :=
      h.mono fun _ hmem => List.mem_cons_of_mem _ hmem
    cases hgiven : r.snapshot? with
    | none =>
      have hdiffer : old.entry uri ≠ (latest old rest).entry uri := by
        simpa [latest, hgiven] using differ
      have hstep := ih hrest (since.quiet_step effect hgiven) hdiffer
      simpa using hstep.imp_left later
    | some new =>
      by_cases hsame : old.entry uri = new.entry uri
      · have hdiffer : new.entry uri ≠ (latest new rest).entry uri := by
          simpa [latest, hgiven, hsame] using differ
        have hstep := ih hrest (since.given_step effect hgiven) hdiffer
        exact hstep.imp later fun hmissed => by simpa using hmissed.within (last :: quiet) []
      · rcases since.told effect hgiven hsame with hnamed | hmissed
        · exact .inl (hnamed.mono (by simp))
        · exact .inr (by simpa using hmissed.within [] rest)

end Service

/-- Between two snapshots that were given, every target with another record or other files is named by a
recorded refresh, or was missed. -/
theorem target_changes_announced {κ : Type} {client : Client κ} {service : Service} {k : κ}
    {store : Store} {uses : List (κ × GraphUse)} {s : Shared κ} {before between after : List Report}
    {x y : Report} {old new : Snapshot} {uri : String}
    (used : service.reports client uses (.initial k store) =
      some (before ++ x :: between ++ y :: after, s))
    (earlier : x.snapshot? = some old) (later : y.snapshot? = some new)
    (differ : old.target? uri ≠ new.target? uri ∨ old.files.get? uri ≠ new.files.get? uri) :
    Announced uri (between ++ [y]) ∨ Missed uri (x :: between ++ [y]) := by
  have hentry : old.entry uri ≠ (latest old (between ++ [y])).entry uri := by
    have hlatest : latest old (between ++ [y]) = new := by
      simp [latest, later]
    rw [hlatest, Snapshot.entry, Snapshot.entry, ne_eq, Prod.mk.injEq,
      Classical.not_and_iff_not_or_not]
    exact differ
  have hsplit : before ++ x :: between ++ y :: after = (before ++ [x]) ++ ((between ++ [y]) ++ after) := by
    simp
  rw [hsplit] at used
  obtain ⟨first, rest, s₁, hfirst, hrest⟩ := Service.reports_append used
  obtain ⟨middle, _, s₂, hmiddle, -⟩ := Service.reports_append hrest
  have hslot : s₁.snapshot = some old := Service.reports_last hfirst earlier
  have hold : old.Consistent := by
    apply Service.reports_consistent hfirst _ hslot
    intro cached hcached
    cases hcached
  have since : Since x old [] s₁.snapshot := ⟨earlier, hold, by simp, .inl hslot⟩
  exact Service.announced_or_missed hmiddle since hentry

def testsClient : Client Bool where
  answer c k :=
    match c with
    | .list _ => (.ok ⟨some ⟨"App", ["App"], []⟩, none⟩, k)
    | .index _ _ =>
      let files (path : String) : Table FileSettings := .ofList [(path, ⟨some ["-c"], none, none⟩)]
      let app := ("App", files "/p/A.swift")
      let tests := ("AppTests", files "/p/T.swift")
      (.ok (.ofList (if k then [app, tests] else [app])), k)
    | .settings _ _ => (.ok [], k)
    | .warmup _ => (.ok (), k)
  view _ := ⟨fun _ => false, id⟩

def testsUri : String := (TargetUri.nested "App" "App" "AppTests").render

def testsListed (s : Snapshot) : Bool := (s.files.get? testsUri).isSome

theorem exists_reports {uses : List (Bool × GraphUse)} {middle : Option Bool}
    (h : (appService.reports testsClient uses (.initial true (.memory .empty))).map
      (fun run => run.1.map fun r => r.snapshot?.map testsListed) =
        some [some true, middle, some false]) :
    ∃ x q y old new s,
      appService.reports testsClient uses (.initial true (.memory .empty)) = some ([x, q, y], s) ∧
        x.snapshot? = some old ∧ q.snapshot?.map testsListed = middle ∧ y.snapshot? = some new ∧
        old.files.get? testsUri ≠ new.files.get? testsUri ∧ testsUri ∉ new.files.keys := by
  obtain ⟨⟨rs, s⟩, hrun, hrs⟩ := Option.map_eq_some_iff.mp h
  obtain ⟨x, rs, rfl, hx, hrs⟩ := List.map_eq_cons_iff.mp hrs
  obtain ⟨q, rs, rfl, hq, hrs⟩ := List.map_eq_cons_iff.mp hrs
  obtain ⟨y, rs, rfl, hy, hrs⟩ := List.map_eq_cons_iff.mp hrs
  obtain rfl := List.map_eq_nil_iff.mp hrs
  obtain ⟨old, hx, hold⟩ := Option.map_eq_some_iff.mp hx
  obtain ⟨new, hy, hnew⟩ := Option.map_eq_some_iff.mp hy
  have hnone : new.files.get? testsUri = none := by simpa [testsListed] using hnew
  refine ⟨x, q, y, old, new, s, hrun, hx, hq, hy, fun heq => ?_, fun hmem => ?_⟩
  · rw [testsListed, heq, hnone] at hold
    cases hold
  · obtain ⟨files, hfiles⟩ := Table.mem_keys.mp hmem
    rw [hnone] at hfiles
    cases hfiles

theorem removed_tests_announced : ∃ x q y old new s,
    appService.reports testsClient [(true, .refresh true), (false, .query), (false, .refresh false)]
      (.initial true (.memory .empty)) = some ([x, q, y], s) ∧
    x.snapshot? = some old ∧ y.snapshot? = some new ∧
    old.files.get? testsUri ≠ new.files.get? testsUri ∧ Announced testsUri [q, y] := by
  have hlisted : (appService.reports testsClient
      [(true, .refresh true), (false, .query), (false, .refresh false)]
      (.initial true (.memory .empty))).map (fun run => run.1.map fun r => r.snapshot?.map testsListed) =
        some [some true, some true, some false] := by
    decide +kernel
  obtain ⟨x, q, y, old, new, s, hrun, hx, hq, hy, hdiffer, -⟩ := exists_reports hlisted
  have used : appService.reports testsClient
      [(true, .refresh true), (false, .query), (false, .refresh false)]
      (.initial true (.memory .empty)) = some ([] ++ x :: [q] ++ y :: [], s) := hrun
  have hmissed : ¬ Missed testsUri [x, q, y] := by
    rintro ⟨before, between, after, earlier, later, _, _, split, -, -, forgotten, -, -, -⟩
    have hmem : .forgotten ∈ [x, q, y] := by
      rw [split]
      simp [forgotten]
    simp only [List.mem_cons, List.not_mem_nil, or_false] at hmem
    rcases hmem with rfl | rfl | rfl
    · cases hx
    · cases hq
    · cases hy
  exact ⟨x, q, y, old, new, s, hrun, hx, hy, hdiffer,
    (target_changes_announced used hx hy (.inr hdiffer)).resolve_right hmissed⟩

def TestsGoUnannounced (last : GraphUse) : Prop :=
  ∃ x q y old new s,
    appService.reports testsClient [(true, .refresh true), (false, .invalidate), (false, last)]
      (.initial true (.memory .empty)) = some ([x, q, y], s) ∧
    x.snapshot? = some old ∧ y.snapshot? = some new ∧
    old.files.get? testsUri ≠ new.files.get? testsUri ∧ ¬ Announced testsUri [q, y]

theorem tests_go_unannounced {last : GraphUse} (h : (appService.reports testsClient
    [(true, .refresh true), (false, .invalidate), (false, last)] (.initial true (.memory .empty))).map
      (fun run => run.1.map fun r => r.snapshot?.map testsListed) = some [some true, none, some false]) :
    TestsGoUnannounced last := by
  obtain ⟨x, q, y, old, new, s, hrun, hx, -, hy, hdiffer, hnew⟩ := exists_reports h
  refine ⟨x, q, y, old, new, s, hrun, hx, hy, hdiffer, ?_⟩
  obtain ⟨_, _, s₁, -, hrest, heq⟩ := Service.reports_cons.mp hrun
  obtain ⟨rfl, rfl⟩ := List.cons.inj heq
  obtain ⟨_, _, s₂, hforget, hrest, heq⟩ := Service.reports_cons.mp hrest
  obtain ⟨rfl, rfl⟩ := List.cons.inj heq
  obtain ⟨_, _, s₃, hbuild, -, heq⟩ := Service.reports_cons.mp hrest
  obtain ⟨rfl, -⟩ := List.cons.inj heq
  rw [Service.use_invalidate] at hforget
  obtain ⟨rfl, rfl⟩ := Prod.mk.inj (Option.some.inj hforget)
  have effect : y.Effect none s₃.snapshot := Service.use_effect hbuild
  rintro ⟨r, hr, hnamed⟩
  rcases List.mem_cons.mp hr with rfl | hr
  · cases hnamed
  · rw [List.mem_singleton.mp hr] at hnamed
    have hconsistent : new.Consistent := by
      apply effect.consistent _ (effect.given hy)
      intro old hold
      cases hold
    exact hnew ((hconsistent.files_keys _).mpr (effect.names_present hy hnamed))

theorem removed_tests_can_go_unannounced :
    TestsGoUnannounced .query ∧ TestsGoUnannounced (.refresh false) := by
  constructor
  · apply tests_go_unannounced
    decide +kernel
  · apply tests_go_unannounced
    decide +kernel

end BuildServer
