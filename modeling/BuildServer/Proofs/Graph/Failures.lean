import BuildServer.Proofs.Build.Keys
import BuildServer.Proofs.Graph.Views

namespace BuildServer

namespace Builder

variable {α β : Type} {b : Builder} {k : CacheKey} {s s' t t' : Site} {e : BuildError} {x : Attempt α}

def RunsWell (b : Builder) (k : CacheKey) (earlier : List (List String)) : Prop :=
  (b.tool.run earlier k.arguments).ending = .exited 0 ∧
    ∃ v, decodeText k.reader (b.tool.run earlier k.arguments).output = .ok v

inductive Blamed (b : Builder) (s s' : Site) : BuildError → Prop
  | start (shown : String) (e : LaunchError) : Blamed b s s' (.launch shown e)
  | run {e : BuildError} (k : CacheKey) (earlier : List (List String)) (since : s.runs <:+ earlier)
    (upTo : k.arguments :: earlier <:+ s'.runs) (badly : ¬b.RunsWell k earlier) : Blamed b s s' e

theorem Blamed.mono (h : b.Blamed s s' e) (hs : t.runs <:+ s.runs) (hs' : s'.runs <:+ t'.runs) :
    b.Blamed t t' e := by
  cases h with
  | start shown e => exact .start shown e
  | run k earlier since upTo badly => exact .run k earlier (hs.trans since) (upTo.trans hs') badly

theorem blamed_renewed (h : b.renewed k s = (.error e, s')) : b.Blamed s s' e := by
  have course := b.renewal k s
  rw [h] at course
  cases course with
  | refused shown e => exact .start shown e
  | failed e refusal ending =>
    exact .run k s.runs (List.suffix_refl _) (List.suffix_refl _) fun well => ending well.1
  | garbled e refusal ending decoded =>
    refine .run k s.runs (List.suffix_refl _) (List.suffix_refl _) fun well => ?_
    obtain ⟨v, hv⟩ := well.2
    rw [decoded] at hv
    cases hv

theorem blamed_ask (k : CacheKey) (cached : Bool) (h : (b.ask k cached).run.run s = (.error e, s')) :
    b.Blamed s s' e := by
  obtain ⟨v, hok⟩ | ⟨v, -, hok⟩ | honce | ⟨e₁, s₁, hfails, hagain⟩ := ask_cases b k cached s
  · rw [hok] at h
    cases h
  · rw [hok] at h
    cases h
  · exact blamed_renewed (honce.symm.trans h)
  · have hruns := renewed_runs b k s
    rw [hfails] at hruns
    exact (blamed_renewed (hagain.symm.trans h)).mono hruns (List.suffix_refl _)

theorem inquire_runs (b : Builder) (d : Inquiry α) (s : Site) : s.runs <:+ (d.run b.client.probe s).2.runs := by
  induction d generalizing s with
  | done a => exact List.suffix_refl _
  | ask p next ih => exact (probe_runs b p s).trans (ih _ _)

def Blames (b : Builder) (x : Attempt α) : Prop :=
  ∀ s e s', x.run.run b.client.probe s = (.error e, s') → b.Blamed s s' e

namespace Blames

theorem pure (a : α) : b.Blames (Pure.pure a : Attempt α) := by
  intro s e s' h
  cases (Prod.mk.inj h).1

theorem bind {f : α → Attempt β} (hx : b.Blames x) (hf : ∀ a, b.Blames (f a)) : b.Blames (x >>= f) := by
  intro s e s' h
  rw [Attempt.run_bind] at h
  have hruns := inquire_runs b x.run s
  have blamed := hx s
  generalize x.run.run b.client.probe s = result at h hruns blamed
  obtain ⟨r, s₁⟩ := result
  cases r with
  | error e₁ =>
    obtain ⟨he, rfl⟩ := Prod.mk.inj h
    exact blamed e s₁ (by rw [Except.error.inj he])
  | ok a => exact (hf a s₁ e s' h).mono hruns (List.suffix_refl _)

theorem lift (d : Inquiry α) : b.Blames (ExceptT.lift d) := by
  intro s e s' h
  change (d.bind fun a => .done (Except.ok a : Except BuildError α)).run b.client.probe s = _ at h
  rw [Dialogue.run_bind] at h
  cases (Prod.mk.inj h).1

theorem mapM {γ : Type} {f : γ → Attempt α} (hf : ∀ c, b.Blames (f c)) (cs : List γ) : b.Blames (cs.mapM f) := by
  induction cs with
  | nil => exact .pure []
  | cons c cs ih =>
    rw [List.mapM_cons]
    exact .bind (hf c) fun a => .bind ih fun as => .pure (a :: as)

theorem preferCached {useful : α → Bool} {ask : Bool → Inquiry (Except BuildError α)}
    (h : b.Blames (ExceptT.mk (ask false))) (cached : Bool) :
    b.Blames (Attempt.preferCached useful ask cached) := by
  rw [Attempt.preferCached]
  split
  · refine .bind (.lift (ask true)) fun r => ?_
    cases r with
    | error e => exact h
    | ok a =>
      dsimp only
      split
      · exact .pure a
      · exact h
  · exact h

end Blames

theorem blames_snapshot (b : Builder) (project : String) (active : List String) (cached : Bool) :
    b.Blames (Attempt.snapshot project active cached) := by
  have list : b.Blames (ExceptT.mk (Inquiry.list false)) := fun _ _ _ h => blamed_ask .list false h
  have index (scheme : String) : b.Blames (ExceptT.mk (Inquiry.index scheme false)) :=
    fun _ _ _ h => blamed_ask (.index scheme) false h
  have schemes : b.Blames (Attempt.schemes active cached) := by
    rw [Attempt.schemes]
    split
    · exact .bind (.preferCached list cached) fun l => .pure l.schemes
    · exact .pure active
  have members (scheme : String) : b.Blames (Attempt.members project cached scheme) :=
    .bind (.preferCached (index scheme) cached) fun settings =>
      .bind (.lift Inquiry.files) fun files => .pure _
  refine .bind schemes fun names => .bind (.mapM members names) fun groups => ?_
  dsimp only
  split
  · exact .pure _
  -- Without build settings of any scheme there is no index store, which is no failure.
  · exact .bind (.lift (Attempt.fallbackStore cached names)) fun store => .pure _

end Builder

end BuildServer
