import Mathlib.Data.List.Forall2
import BuildServer.Proofs.Build.Corruption
import BuildServer.Proofs.Graph.Views

namespace BuildServer

namespace Builder

variable {α β : Type} {b : Builder} {start : Files} {removed : Location → Prop} {s s' : Site}
  {R : α → α → Prop} {R' : β → β → Prop}

def Parallel (b : Builder) (start : Files) (removed : Location → Prop) (R : α → α → Prop)
    (d d' : Inquiry α) : Prop :=
  ∀ s s', b.Alike start removed s s' → R (d.run b.client.probe s).1 (d'.run b.client.probe s').1 ∧
    b.Alike start removed (d.run b.client.probe s).2 (d'.run b.client.probe s').2

def Both (R : α → α → Prop) (r r' : Except BuildError α) : Prop :=
  Option.Rel R r.toOption r'.toOption

theorem both_eq_iff {r r' : Except BuildError α} : Both (· = ·) r r' ↔ r.toOption = r'.toOption := by
  rw [Both]
  generalize r.toOption = o
  generalize r'.toOption = o'
  constructor
  · intro h
    cases h with
    | none => rfl
    | some h => rw [h]
  · rintro rfl
    cases o with
    | none => exact .none
    | some a => exact .some rfl

abbrev Attempts (b : Builder) (start : Files) (removed : Location → Prop) (R : α → α → Prop)
    (x x' : Attempt α) : Prop :=
  b.Parallel start removed (Both R) x.run x'.run

namespace Parallel

theorem done {a a' : α} (h : R a a') : b.Parallel start removed R (.done a) (.done a') :=
  fun _ _ alike => ⟨h, alike⟩

theorem bind {d d' : Inquiry α} {f f' : α → Inquiry β} (h : b.Parallel start removed R d d')
    (hf : ∀ a a', R a a' → b.Parallel start removed R' (f a) (f' a')) :
    b.Parallel start removed R' (d.bind f) (d'.bind f') := by
  intro s s' alike
  obtain ⟨result, alike⟩ := h s s' alike
  rw [Dialogue.run_bind, Dialogue.run_bind]
  exact hf _ _ result _ _ alike

theorem attempt_pure {a a' : α} (h : R a a') : b.Attempts start removed R (pure a) (pure a') :=
  done (.some h)

theorem attempt_bind {x x' : Attempt α} {f f' : α → Attempt β} (h : b.Attempts start removed R x x')
    (hf : ∀ a a', R a a' → b.Attempts start removed R' (f a) (f' a')) :
    b.Attempts start removed R' (x >>= f) (x' >>= f') := by
  refine bind h fun r r' both => ?_
  cases r with
  | error e =>
    cases r' with
    | error e' => exact done .none
    | ok a' => cases both
  | ok a =>
    cases r' with
    | error e' => cases both
    | ok a' =>
      cases both with
      | some h => exact hf a a' h

theorem lift {d d' : Inquiry α} (h : b.Parallel start removed R d d') :
    b.Attempts start removed R (ExceptT.lift d) (ExceptT.lift d') :=
  bind h fun _ _ h => done (.some h)

theorem mapM {γ : Type} {f : γ → Attempt α} (h : ∀ c, b.Attempts start removed R (f c) (f c)) (cs : List γ) :
    b.Attempts start removed (List.Forall₂ R) (cs.mapM f) (cs.mapM f) := by
  induction cs with
  | nil => exact attempt_pure .nil
  | cons c cs ih =>
    rw [List.mapM_cons]
    exact attempt_bind (h c) fun a a' ha =>
      attempt_bind ih fun as as' has => attempt_pure (.cons ha has)

theorem preferCached {useful : α → Bool} {ask : Bool → Inquiry (Except BuildError α)}
    (h : ∀ cached, b.Parallel start removed (fun r r' => r.toOption = r'.toOption) (ask cached) (ask cached))
    (cached : Bool) : b.Attempts start removed (· = ·) (Attempt.preferCached useful ask cached)
      (Attempt.preferCached useful ask cached) := by
  have anew : b.Attempts start removed (· = ·) (ExceptT.mk (ask false)) (ExceptT.mk (ask false)) :=
    fun s s' alike => (h false s s' alike).imp_left both_eq_iff.mpr
  cases cached with
  | false => exact anew
  | true =>
    rw [Attempt.preferCached, if_pos rfl]
    refine attempt_bind (lift (h true)) fun r r' hr => ?_
    cases r with
    | error e =>
      cases r' with
      | error e' => exact anew
      | ok a' => cases hr
    | ok a =>
      cases r' with
      | error e' => cases hr
      | ok a' =>
        obtain rfl : a = a' := Option.some.inj hr
        dsimp only
        split
        · exact attempt_pure rfl
        · exact anew

end Parallel

section Alike

variable (ready : b.Ready start) (constant : b.Constant)
include ready constant

theorem parallel_list (cached : Bool) : b.Parallel start removed (fun r r' => r.toOption = r'.toOption)
    (Inquiry.list cached) (Inquiry.list cached) := fun _ _ alike =>
  let answers := alike.ask ready constant .list cached
  ⟨answers.result, answers.alike⟩

theorem parallel_index (scheme : String) (cached : Bool) :
    b.Parallel start removed (fun r r' => r.toOption = r'.toOption)
      (Inquiry.index scheme cached) (Inquiry.index scheme cached) := fun _ _ alike =>
  let answers := alike.ask ready constant (.index scheme) cached
  ⟨answers.result, answers.alike⟩

theorem parallel_settings (scheme : String) (cached : Bool) :
    b.Parallel start removed (fun r r' => r.toOption = r'.toOption)
      (Inquiry.settings scheme cached) (Inquiry.settings scheme cached) := fun _ _ alike =>
  let answers := alike.ask ready constant (.settings scheme) cached
  ⟨answers.result, answers.alike⟩

theorem parallel_fallbackStore (cached : Bool) (names : List String) :
    b.Parallel start removed (· = ·) (Attempt.fallbackStore cached names)
      (Attempt.fallbackStore cached names) := by
  induction names with
  | nil => exact .done rfl
  | cons name names ih =>
    refine .bind (parallel_settings ready constant name cached) fun r r' hr => ?_
    cases r with
    | error e =>
      cases r' with
      | error e' => exact ih
      | ok a' => cases hr
    | ok settings =>
      cases r' with
      | error e' => cases hr
      | ok settings' =>
        obtain rfl : settings = settings' := Option.some.inj hr
        dsimp only
        split
        · exact .done rfl
        · exact ih

end Alike

structure Sees (start : Files) (removed : Location → Prop) (x x' : SchemeReport) : Prop where
  scheme : x'.scheme = x.scheme
  settings : x'.settings = x.settings
  present : ∀ path, (∀ l, removed l → start.locate path ≠ .ok l) →
    x'.files.present path = x.files.present path

theorem parallel_files (there : ∀ l, removed l → (start.node? l).isSome) : b.Parallel start removed
    (fun v v' => ∀ path, (∀ l, removed l → start.locate path ≠ .ok l) → v'.present path = v.present path)
    Inquiry.files Inquiry.files := by
  intro s s' alike
  refine ⟨fun path hpath => ?_, alike⟩
  obtain ⟨gone, hgone, pruned, -⟩ := alike.pruned
  refine pruned.present_eq fun l hl hlocate => hpath l (hgone l hl) ?_
  exact alike.ways.symm.locate hlocate (there l (hgone l hl))

theorem parallel_reports (ready : b.Ready start) (constant : b.Constant)
    (there : ∀ l, removed l → (start.node? l).isSome) (active : List String) (cached : Bool) :
    b.Attempts start removed (List.Forall₂ (Sees start removed)) (Attempt.reports active cached)
      (Attempt.reports active cached) := by
  have schemes : b.Attempts start removed (· = ·) (Attempt.schemes active cached)
      (Attempt.schemes active cached) := by
    rw [Attempt.schemes]
    split
    · refine .attempt_bind (.preferCached (parallel_list ready constant) cached) fun l l' hl => ?_
      rw [hl]
      exact .attempt_pure rfl
    · exact .attempt_pure rfl
  refine .attempt_bind schemes fun names names' hnames => ?_
  rw [← hnames]
  refine .mapM (fun name => ?_) names
  refine .attempt_bind (.preferCached (parallel_index ready constant name) cached) fun t t' ht => ?_
  exact .attempt_bind (.lift (parallel_files there)) fun v v' hv => .attempt_pure ⟨rfl, ht.symm, hv⟩

theorem parallel_finish (ready : b.Ready start) (constant : b.Constant) (cached : Bool) (names : List String)
    (groups : List (List Member)) : b.Attempts start removed (· = ·) (Attempt.finish cached names groups)
      (Attempt.finish cached names groups) := by
  rw [Attempt.finish]
  split
  · exact .attempt_pure rfl
  · refine .attempt_bind (.lift (parallel_fallbackStore ready constant cached names)) fun store store' h => ?_
    rw [h]
    exact .attempt_pure rfl

theorem Sees.forall_eq {xs xs' : List SchemeReport} (h : List.Forall₂ (Sees start removed) xs xs')
    (harmless : ∀ x ∈ xs, ∀ sdk, x.SdkPath sdk → ∀ l, removed l → start.locate sdk ≠ .ok l) (project : String) :
    xs'.map SchemeReport.scheme = xs.map SchemeReport.scheme ∧
      xs'.map (SchemeReport.members project) = xs.map (SchemeReport.members project) := by
  induction h with
  | nil => exact ⟨rfl, rfl⟩
  | @cons x x' xs xs' sees _ ih =>
    obtain ⟨schemes, members⟩ := ih fun y hy => harmless y (List.mem_cons_of_mem x hy)
    have hmembers : x'.members project = x.members project :=
      SchemeReport.members_congr project sees.scheme sees.settings fun sdk hsdk =>
        sees.present sdk (harmless x List.mem_cons_self sdk hsdk)
    exact ⟨by rw [List.map_cons, List.map_cons, sees.scheme, schemes],
      by rw [List.map_cons, List.map_cons, hmembers, members]⟩

theorem parallel_snapshot (ready : b.Ready start) (constant : b.Constant)
    (there : ∀ l, removed l → (start.node? l).isSome) (alike : b.Alike start removed s s')
    (project : String) {active : List String} {cached : Bool}
    (harmless : ∀ xs k, (Attempt.reports active cached).run.run b.client.probe s = (.ok xs, k) →
      ∀ x ∈ xs, ∀ sdk, x.SdkPath sdk → ∀ l, removed l → start.locate sdk ≠ .ok l) :
    ((Attempt.snapshot project active cached).run.run b.client.probe s).1.toOption =
      ((Attempt.snapshot project active cached).run.run b.client.probe s').1.toOption := by
  obtain ⟨both, alike'⟩ := parallel_reports ready constant there active cached s s' alike
  rw [Attempt.snapshot_eq, Attempt.run_bind, Attempt.run_bind]
  generalize (Attempt.reports active cached).run.run b.client.probe s = reported at both alike' harmless ⊢
  generalize (Attempt.reports active cached).run.run b.client.probe s' = reported' at both alike' ⊢
  obtain ⟨r, t⟩ := reported
  obtain ⟨r', t'⟩ := reported'
  cases r with
  | error e =>
    cases r' with
    | error e' => rfl
    | ok xs' => cases both
  | ok xs =>
    cases r' with
    | error e' => cases both
    | ok xs' =>
      cases both with
      | some sees =>
        obtain ⟨schemes, members⟩ := Sees.forall_eq sees (harmless xs t rfl) project
        dsimp only
        rw [schemes, members]
        obtain ⟨both, -⟩ := parallel_finish ready constant cached (xs.map SchemeReport.scheme)
          (xs.map (SchemeReport.members project)) t t' alike'
        exact both_eq_iff.mp both

end Builder

end BuildServer
