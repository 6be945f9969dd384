import BuildServer.Proofs.Graph.Reports

namespace BuildServer

def Client.Fixed {κ : Type} (client : Client κ) : Prop :=
  ∀ c k k', (client.answer c k).1 = (client.answer c k').1

namespace Attempt

variable {κ α β : Type} {client : Client κ} {cached : Bool} {k k' : κ}

def Fixed (client : Client κ) (x : Attempt α) : Prop :=
  ∀ k k', (x.run.run client.probe k).1 = (x.run.run client.probe k').1

theorem fixed_pure (a : α) : Fixed client (pure a : Attempt α) := fun _ _ => rfl

theorem Fixed.bind {x : Attempt α} {f : α → Attempt β} (hx : Fixed client x)
    (hf : ∀ a, Fixed client (f a)) : Fixed client (x >>= f) := by
  intro k k'
  have hsame := hx k k'
  rw [run_bind, run_bind]
  generalize x.run.run client.probe k = r at hsame ⊢
  generalize x.run.run client.probe k' = r' at hsame ⊢
  obtain ⟨result, k₁⟩ := r
  obtain ⟨result', k₁'⟩ := r'
  obtain rfl : result = result' := hsame
  cases result with
  | error e => rfl
  | ok a => exact hf a k₁ k₁'

theorem Fixed.gives {x : Attempt α} {a : α} (hx : Fixed client x) (h : Gives client k x a k') (l : κ) :
    ∃ l', Gives client l x a l' := by
  have hsame : (x.run.run client.probe l).1 = .ok a := (hx l k).trans (congrArg Prod.fst h)
  exact ⟨_, Prod.ext hsame rfl⟩

theorem Fixed.unique {x : Attempt α} {a b : α} {l l' : κ} (hx : Fixed client x) (ha : Gives client k x a k')
    (hb : Gives client l x b l') : a = b := by
  have hsame := hx k l
  rw [ha, hb] at hsame
  exact Except.ok.inj hsame

theorem fixed_preferCached {useful : α → Bool} {ask : Bool → Inquiry (Except BuildError α)}
    (h : ∀ cached k k', ((ask cached).run client.probe k).1 = ((ask cached).run client.probe k').1)
    (cached : Bool) : Fixed client (preferCached useful ask cached) := by
  cases cached with
  | false => exact h false
  | true =>
    have first : Fixed client (ExceptT.lift (ask true)) := by
      intro k k'
      have hrun (k : κ) : ((ExceptT.lift (ask true) : Attempt _).run.run client.probe k).1 =
          .ok ((ask true).run client.probe k).1 := by
        change (((ask true).bind fun r => .done (Except.ok r)).run client.probe k).1 = _
        rw [Dialogue.run_bind]
        rfl
      rw [hrun, hrun, h true k k']
    rw [preferCached, if_pos rfl]
    refine first.bind fun r => ?_
    cases r with
    | error e => exact h false
    | ok a =>
      dsimp only
      split
      · exact fixed_pure a
      · exact h false

def settings (cached : Bool) (scheme : String) : Attempt IndexSettings :=
  preferCached (!·.isEmpty) (Inquiry.index scheme) cached

theorem gives_report {scheme : String} {x : SchemeReport} : Gives client k (report cached scheme) x k' ↔
    x.scheme = scheme ∧ Gives client k (settings cached scheme) x.settings k' ∧ x.files = client.view k' := by
  rw [report, gives_bind]
  constructor
  · rintro ⟨found, k₁, hfound, h⟩
    obtain ⟨hx, rfl⟩ := Prod.mk.inj h
    obtain rfl := Except.ok.inj hx
    exact ⟨rfl, hfound, rfl⟩
  · rintro ⟨rfl, hsettings, hfiles⟩
    obtain ⟨scheme, found, files⟩ := x
    cases hfiles
    exact ⟨found, k', hsettings, rfl⟩

theorem gives_reports_of {names : List String} {xs : List SchemeReport}
    (h : Gives client k (names.mapM (report cached)) xs k') : xs.map SchemeReport.scheme = names ∧
      ∀ x ∈ xs, ∃ k₁ k₂, Gives client k₁ (settings cached x.scheme) x.settings k₂ ∧
        x.files = client.view k₂ := by
  induction names generalizing xs k with
  | nil =>
    obtain ⟨rfl, -⟩ := gives_pure.mp h
    exact ⟨rfl, by simp⟩
  | cons name names ih =>
    rw [List.mapM_cons] at h
    obtain ⟨x, k₁, hx, h⟩ := gives_bind.mp h
    obtain ⟨xs, k₂, hxs, h⟩ := gives_bind.mp h
    obtain ⟨rfl, rfl⟩ := gives_pure.mp h
    obtain ⟨hscheme, hsettings, hfiles⟩ := gives_report.mp hx
    obtain ⟨hschemes, hall⟩ := ih hxs
    subst hscheme
    exact ⟨by rw [List.map_cons, hschemes], List.forall_mem_cons.mpr ⟨⟨k, k₁, hsettings, hfiles⟩, hall⟩⟩

theorem exists_reports_of {names : List String}
    (h : ∀ name ∈ names, ∀ k, ∃ found k', Gives client k (settings cached name) found k') (k : κ) :
    ∃ xs k', Gives client k (names.mapM (report cached)) xs k' := by
  induction names generalizing k with
  | nil => exact ⟨[], k, gives_pure.mpr ⟨rfl, rfl⟩⟩
  | cons name names ih =>
    obtain ⟨found, k₁, hfound⟩ := h name List.mem_cons_self k
    obtain ⟨xs, k₂, hxs⟩ := ih (fun name hname => h name (List.mem_cons_of_mem _ hname)) k₁
    have hreport : Gives client k (report cached name) ⟨name, found, client.view k₁⟩ k₁ :=
      gives_report.mpr ⟨rfl, hfound, rfl⟩
    refine ⟨⟨name, found, client.view k₁⟩ :: xs, k₂, ?_⟩
    rw [List.mapM_cons]
    exact gives_bind.mpr ⟨_, k₁, hreport, gives_bind.mpr ⟨xs, k₂, hxs, gives_pure.mpr ⟨rfl, rfl⟩⟩⟩

section Fixed

variable (fixed : client.Fixed)
include fixed

theorem fixed_settings (cached : Bool) (scheme : String) : Fixed client (settings cached scheme) :=
  fixed_preferCached (fun cached => fixed (.index scheme cached)) cached

theorem fixed_schemes (active : List String) (cached : Bool) : Fixed client (schemes active cached) := by
  rw [schemes]
  split
  · exact (fixed_preferCached (fun cached => fixed (.list cached)) cached).bind fun listing => fixed_pure _
  · exact fixed_pure active

theorem exists_reports_perm {names names' : List String} (order : names'.Perm names) {xs : List SchemeReport}
    (h : Gives client k (names.mapM (report cached)) xs k') (l : κ) :
    ∃ xs' l', Gives client l (names'.mapM (report cached)) xs' l' := by
  obtain ⟨rfl, hsettings⟩ := gives_reports_of h
  refine exists_reports_of (fun name hname l => ?_) l
  obtain ⟨x, hx, rfl⟩ := List.mem_map.mp (order.mem_iff.mp hname)
  obtain ⟨k₁, k₂, hfound, -⟩ := hsettings x hx
  exact ⟨x.settings, (fixed_settings fixed cached x.scheme).gives hfound l⟩

end Fixed

end Attempt

end BuildServer
