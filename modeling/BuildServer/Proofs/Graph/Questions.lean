import BuildServer.Proofs.Dialogue.Course
import BuildServer.Proofs.Graph.FixedAnswers

namespace BuildServer.Attempt

open Dialogue (Asks)

variable {α β : Type} {P : Probe → Prop} {x : Attempt α} {cached : Bool}

theorem asks_bind {f : α → Attempt β} (hx : x.run.Asks P) (hf : ∀ a, (f a).run.Asks P) :
    (x >>= f).run.Asks P := by
  apply Asks.bind hx
  intro r
  cases r with
  | error e => trivial
  | ok a => exact hf a

theorem asks_lift {d : Inquiry α} (h : d.Asks P) : (ExceptT.lift d : Attempt α).run.Asks P :=
  Asks.bind h fun _ => trivial

theorem asks_mapM {γ : Type} {f : γ → Attempt α} (h : ∀ c, (f c).run.Asks P) (cs : List γ) :
    (cs.mapM f).run.Asks P := by
  induction cs with
  | nil => trivial
  | cons c cs ih =>
    rw [List.mapM_cons]
    exact asks_bind (h c) fun _ => asks_bind ih fun _ => trivial

theorem asks_preferCached {useful : α → Bool} {ask : Bool → Inquiry (Except BuildError α)}
    (h : ∀ c ≤ cached, (ask c).Asks P) : (preferCached useful ask cached).run.Asks P := by
  have anew : (ask false).Asks P := h false (Bool.false_le cached)
  cases cached with
  | false => exact anew
  | true =>
    rw [preferCached, if_pos rfl]
    refine asks_bind (asks_lift (h true (Bool.le_refl true))) fun r => ?_
    cases r with
    | error e => exact anew
    | ok a =>
      dsimp only
      split
      · trivial
      · exact anew

theorem asks_schemes (list : ∀ c ≤ cached, P (.call (.list c))) (active : List String) :
    (schemes active cached).run.Asks P := by
  unfold schemes
  split
  · have listed (c : Bool) (hc : c ≤ cached) : (Inquiry.list c).Asks P := ⟨list c hc, fun _ => trivial⟩
    exact asks_bind (asks_preferCached listed) fun _ => trivial
  · trivial

theorem asks_settings (index : ∀ scheme, ∀ c ≤ cached, P (.call (.index scheme c))) (scheme : String) :
    (settings cached scheme).run.Asks P :=
  asks_preferCached fun c hc => ⟨index scheme c hc, fun _ => trivial⟩

theorem asks_fallbackStore (settings : ∀ scheme, P (.call (.settings scheme cached))) (names : List String) :
    (fallbackStore cached names).Asks P := by
  induction names with
  | nil => trivial
  | cons name names ih =>
    refine ⟨settings name, fun found => ?_⟩
    cases found with
    | error e => exact ih
    | ok found =>
      dsimp only [Dialogue.done_bind]
      split
      · trivial
      · exact ih

theorem asks_finish (settings : ∀ scheme, P (.call (.settings scheme cached))) (names : List String)
    (groups : List (List Member)) : (finish cached names groups).run.Asks P := by
  unfold finish
  split
  · trivial
  · exact asks_bind (asks_lift (asks_fallbackStore settings names)) fun _ => trivial

theorem asks_snapshot (list : ∀ c ≤ cached, P (.call (.list c)))
    (index : ∀ scheme, ∀ c ≤ cached, P (.call (.index scheme c)))
    (settings : ∀ scheme, P (.call (.settings scheme cached))) (files : P .files)
    (project : String) (active : List String) : (snapshot project active cached).run.Asks P := by
  have report (scheme : String) : (report cached scheme).run.Asks P :=
    asks_bind (asks_settings index scheme) fun _ => asks_bind (asks_lift ⟨files, fun _ => trivial⟩) fun _ => trivial
  rw [snapshot_eq]
  exact asks_bind (asks_bind (asks_schemes list active) (asks_mapM report)) fun _ => asks_finish settings _ _

end BuildServer.Attempt
