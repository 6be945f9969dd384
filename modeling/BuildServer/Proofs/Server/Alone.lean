import BuildServer.Server.Refresh
import BuildServer.Server.Shared

namespace BuildServer

theorem Dialogue.runIfAnswered_bind {Q σ α β : Type} {A : Q → Type}
    (answer : (q : Q) → σ → Option (A q × σ)) (d : Dialogue A α) (f : α → Dialogue A β) (s : σ) :
    (d.bind f).runIfAnswered answer s =
      (d.runIfAnswered answer s).bind fun r => (f r.1).runIfAnswered answer r.2 := by
  induction d generalizing s with
  | done a => rfl
  | ask q next ih => simp [Dialogue.bind, Dialogue.runIfAnswered, ih, Option.bind_assoc]

namespace Shared

variable {κ α β : Type} {client : Client κ} {s : Shared κ}

theorem run_bind {p : Program α} {f : α → Program β} {r : β × Shared κ} :
    s.run client (p >>= f) = some r ↔
      ∃ a s', s.run client p = some (a, s') ∧ s'.run client (f a) = some r := by
  change (p.bind f).runIfAnswered (perform client) s = some r ↔ _
  rw [Dialogue.runIfAnswered_bind, Option.bind_eq_some_iff]
  constructor
  · rintro ⟨⟨a, s'⟩, hp, hf⟩
    exact ⟨a, s', hp, hf⟩
  · rintro ⟨a, s', hp, hf⟩
    exact ⟨(a, s'), hp, hf⟩

theorem run_act (a : Action) : s.run client (Program.act a) = perform client a s := by
  change (perform client a s).bind (fun x => some (x.1, x.2)) = perform client a s
  cases perform client a s with
  | none => rfl
  | some x => rfl

theorem run_pure {a b : α} {s' : Shared κ} :
    s.run client (pure a : Program α) = some (b, s') ↔ a = b ∧ s = s' := by
  change some (a, s) = some (b, s') ↔ _
  simp

theorem run_inquire (q : Inquiry α) (s : Shared κ) : s.run client (Program.inquire q) =
    some ((q.run client.probe s.site).1, { s with site := (q.run client.probe s.site).2 }) := by
  induction q generalizing s with
  | done a => rfl
  | ask p next ih => exact ih (client.probe p s.site).1 { s with site := (client.probe p s.site).2 }

end Shared

namespace Service

variable {κ : Type} {client : Client κ} {service : Service} {cached : Bool} {s s' : Shared κ}

def built (service : Service) (client : Client κ) (cached : Bool) (k : κ) :
    Except BuildError Snapshot × κ :=
  (Attempt.snapshot service.project service.active cached).run.run client.probe k

theorem refresh_cases {result : Except BuildError Refresh}
    (h : s.run client (service.refresh cached) = some (result, s')) :
    (∃ e k, service.built client cached s.site = (.error e, k) ∧ result = .error e ∧
      s' = { s with site := k, refreshing := false }) ∨
    ∃ new k, service.built client cached s.site = (.ok new, k) ∧
      result = .ok ⟨new, new.changesFrom s.snapshot⟩ ∧
      s' = { s with site := k, refreshing := false, snapshot := some new } := by
  obtain ⟨_, s₁, hbegin, h⟩ := Shared.run_bind.mp h
  rw [Shared.run_act] at hbegin
  simp only [Shared.perform] at hbegin
  split at hbegin
  · cases hbegin
  obtain ⟨-, rfl⟩ := Prod.mk.inj (Option.some.inj hbegin)
  obtain ⟨answer, s₂, hasked, h⟩ := Shared.run_bind.mp h
  rw [Shared.run_inquire] at hasked
  obtain ⟨hanswer, rfl⟩ := Prod.mk.inj (Option.some.inj hasked)
  change (service.built client cached s.site).1 = answer at hanswer
  cases answer with
  | error e =>
    obtain ⟨_, s₃, hfinish, h⟩ := Shared.run_bind.mp h
    rw [Shared.run_act] at hfinish
    obtain ⟨-, rfl⟩ := Prod.mk.inj (Option.some.inj hfinish)
    obtain ⟨rfl, rfl⟩ := Shared.run_pure.mp h
    exact .inl ⟨e, _, Prod.ext hanswer rfl, rfl, rfl⟩
  | ok new =>
    obtain ⟨previous, s₃, hreplace, h⟩ := Shared.run_bind.mp h
    rw [Shared.run_act] at hreplace
    obtain ⟨rfl, rfl⟩ := Prod.mk.inj (Option.some.inj hreplace)
    obtain ⟨_, s₄, hfinish, h⟩ := Shared.run_bind.mp h
    rw [Shared.run_act] at hfinish
    obtain ⟨-, rfl⟩ := Prod.mk.inj (Option.some.inj hfinish)
    obtain ⟨rfl, rfl⟩ := Shared.run_pure.mp h
    exact .inr ⟨new, _, Prod.ext hanswer rfl, rfl, rfl⟩

theorem toOption_of_refresh {result : Except BuildError Refresh}
    (h : s.run client (service.refresh cached) = some (result, s')) :
    result.toOption = (service.built client cached s.site).1.toOption.map fun new =>
      ⟨new, new.changesFrom s.snapshot⟩ := by
  rcases refresh_cases h with ⟨e, k, hbuilt, rfl, -⟩ | ⟨new, k, hbuilt, rfl, -⟩
  · rw [hbuilt]
    rfl
  · rw [hbuilt]
    rfl

theorem exists_refresh (client : Client κ) (service : Service) (cached : Bool) (free : s.refreshing = false) :
    ∃ result s', s.run client (service.refresh cached) = some (result, s') := by
  have hbegin : s.run client (Program.act .beginRefresh) = some ((), { s with refreshing := true }) := by
    rw [Shared.run_act, Shared.perform, free]
    rfl
  obtain ⟨answer, site, hbuilt⟩ : ∃ answer site, service.built client cached s.site = (answer, site) :=
    ⟨_, _, rfl⟩
  have hasked : Shared.run client (Program.inquire (Attempt.snapshot service.project service.active cached).run)
      { s with refreshing := true } = some (answer, { s with site := site, refreshing := true }) := by
    rw [Shared.run_inquire]
    change some ((service.built client cached s.site).1,
      { s with site := (service.built client cached s.site).2, refreshing := true }) = _
    rw [hbuilt]
  have hfinish (s₁ : Shared κ) :
      s₁.run client (Program.act .finishRefresh) = some ((), { s₁ with refreshing := false }) :=
    Shared.run_act _
  cases answer with
  | error e =>
    exact ⟨.error e, _, Shared.run_bind.mpr ⟨(), _, hbegin, Shared.run_bind.mpr ⟨.error e, _, hasked,
      Shared.run_bind.mpr ⟨(), _, hfinish _, Shared.run_pure.mpr ⟨rfl, rfl⟩⟩⟩⟩⟩
  | ok new =>
    have hreplace (s₁ : Shared κ) : s₁.run client (Program.act (.replaceSnapshot new)) =
        some (s₁.snapshot, { s₁ with snapshot := some new }) := Shared.run_act _
    exact ⟨.ok ⟨new, new.changesFrom s.snapshot⟩, _, Shared.run_bind.mpr ⟨(), _, hbegin,
      Shared.run_bind.mpr ⟨.ok new, _, hasked, Shared.run_bind.mpr ⟨s.snapshot, _, hreplace _,
        Shared.run_bind.mpr ⟨(), _, hfinish _, Shared.run_pure.mpr ⟨rfl, rfl⟩⟩⟩⟩⟩⟩

theorem snapshot_of_refresh {r : Refresh}
    (h : s.run client (service.refresh cached) = some (.ok r, s')) : s'.snapshot = some r.snapshot := by
  rcases refresh_cases h with ⟨e, k, -, he, -⟩ | ⟨new, k, -, hr, rfl⟩
  · cases he
  · obtain rfl := Except.ok.inj hr
    rfl

theorem changes_of_refresh {r : Refresh}
    (h : s.run client (service.refresh cached) = some (.ok r, s')) :
    r.changes = r.snapshot.changesFrom s.snapshot := by
  rcases refresh_cases h with ⟨e, k, -, he, -⟩ | ⟨new, k, -, hr, -⟩
  · cases he
  · obtain rfl := Except.ok.inj hr
    rfl

def refreshed? (service : Service) (client : Client κ) (cached : Bool) (s : Shared κ) :
    Option (Refresh × Shared κ) :=
  (s.run client (service.refresh cached)).bind fun run => run.1.toOption.map fun r => (r, run.2)

theorem run_of_refreshed? {r : Refresh} (h : (r, s') ∈ service.refreshed? client cached s) :
    s.run client (service.refresh cached) = some (.ok r, s') := by
  obtain ⟨⟨result, s₁⟩, hrun, hresult⟩ := Option.bind_eq_some_iff.mp h
  cases result with
  | error e => cases hresult
  | ok r' =>
    obtain ⟨rfl, rfl⟩ := Prod.mk.inj (Option.some.inj hresult)
    exact hrun

theorem run_snapshot_of_cached {found : Snapshot} (h : s.snapshot = some found) :
    s.run client service.snapshot = some (.ok found, s) := by
  refine Shared.run_bind.mpr ⟨some found, s, ?_, Shared.run_pure.mpr ⟨rfl, rfl⟩⟩
  rw [Shared.run_act, Shared.perform, h]

theorem snapshot_cases {result : Except BuildError Snapshot}
    (h : s.run client service.snapshot = some (result, s')) :
    (∃ found, s.snapshot = some found ∧ result = .ok found ∧ s' = s) ∨
    s.snapshot = none ∧ ∃ r, s.run client (service.refresh true) = some (r, s') ∧
      result = r.map Refresh.snapshot := by
  cases hslot : s.snapshot with
  | some found =>
    rw [run_snapshot_of_cached hslot] at h
    obtain ⟨rfl, rfl⟩ := Prod.mk.inj (Option.some.inj h)
    exact .inl ⟨found, rfl, rfl, rfl⟩
  | none =>
    obtain ⟨slot, s₁, hlook, h⟩ := Shared.run_bind.mp h
    rw [Shared.run_act, Shared.perform, hslot] at hlook
    obtain ⟨rfl, rfl⟩ := Prod.mk.inj (Option.some.inj hlook)
    obtain ⟨r, s₂, hrefresh, h⟩ := Shared.run_bind.mp h
    obtain ⟨rfl, rfl⟩ := Shared.run_pure.mp h
    exact .inr ⟨rfl, r, hrefresh, rfl⟩

end Service

end BuildServer
