import BuildServer.Proofs.Build.Coherence

namespace BuildServer

namespace Builder

variable {b : Builder} {k : CacheKey} {cached : Bool} {s s' s'' : Site} {e : BuildError} {m n : Nat}

def Ran (k : CacheKey) (n : Nat) (s s' : Site) : Prop :=
  s'.runs = List.replicate n k.arguments ++ s.runs

/-- A call comes to the tool: a cached answer is not allowed, or there is none and the call does not do
without. -/
def Consults (b : Builder) (k : CacheKey) (cached : Bool) (s : Site) : Prop :=
  cached = true → (∀ scheme, k ≠ .index scheme) ∧ k.inMemory s.memory = none ∧ b.saved k s = none

inductive Repeatable (b : Builder) (k : CacheKey) (s : Site) : Prop
  | failed (ending : (b.tool.run s.runs k.arguments).ending ≠ .exited 0)
  | garbled (e : JsonError) (ending : (b.tool.run s.runs k.arguments).ending = .exited 0)
    (decoded : decodeText k.reader (b.tool.run s.runs k.arguments).output = .error e)
    (startable : b.refusal k.arguments
      (s.written (b.file k) (b.tool.run s.runs k.arguments).output).files = none)

/-- A call may use the cache but has nothing cached to go by, and the run that it makes instead goes wrong. -/
structure Repeats (b : Builder) (k : CacheKey) (cached : Bool) (s : Site) : Prop where
  allowed : cached = true
  queried : ∀ scheme, k ≠ .index scheme
  forgotten : k.inMemory s.memory = none
  unread : readCache (b.file k) s = none
  startable : b.refusal k.arguments s.files = none
  repeatable : b.Repeatable k s

theorem Ran.refl (k : CacheKey) (s : Site) : Ran k 0 s s := rfl

theorem Ran.trans (h : Ran k m s s') (h' : Ran k n s' s'') : Ran k (n + m) s s'' := by
  rw [Ran, h', h, ← List.append_assoc, List.replicate_append_replicate]

theorem renewed_ran (b : Builder) (k : CacheKey) (s : Site) :
    Ran k (if b.refusal k.arguments s.files = none then 1 else 0) s (b.renewed k s).2 := by
  have course := b.renewal k s
  generalize b.renewed k s = result at course ⊢
  cases course with
  | refused shown e refusal =>
    rw [if_neg (by simp [refusal])]
    exact .refl k s
  | failed e refusal =>
    rw [if_pos refusal]
    rfl
  | garbled e refusal =>
    rw [if_pos refusal]
    rfl
  | done v refusal =>
    rw [if_pos refusal]
    rfl

theorem startable_again_iff (h : b.renewed k s = (.error e, s')) :
    b.refusal k.arguments s'.files = none ↔
      b.refusal k.arguments s.files = none ∧ b.Repeatable k s := by
  have course := b.renewal k s
  rw [h] at course
  cases course with
  | refused shown e refusal => simp [refusal]
  | failed e refusal ending => exact ⟨fun _ => ⟨refusal, .failed ending⟩, fun _ => refusal⟩
  | garbled error refusal ending decoded =>
    constructor
    · intro startable
      exact ⟨refusal, .garbled error ending decoded startable⟩
    · rintro ⟨-, failed | ⟨error, -, -, startable⟩⟩
      · exact absurd ending failed
      · exact startable

theorem not_repeatable {v : k.Value} (h : b.renewed k s = (.ok v, s')) :
    b.refusal k.arguments s.files = none ∧ ¬b.Repeatable k s := by
  have course := b.renewal k s
  rw [h] at course
  cases course with
  | done v refusal ending decoded =>
    refine ⟨refusal, ?_⟩
    rintro (failed | ⟨error, -, garbled, -⟩)
    · exact failed ending
    · rw [decoded] at garbled
      cases garbled

theorem saved_of_unread (h : readCache (b.file k) s = none) : b.saved k s = none := by
  rw [saved, h]
  rfl

theorem Repeats.consults (h : b.Repeats k cached s) : b.Consults k cached s :=
  fun _ => ⟨h.queried, h.forgotten, saved_of_unread h.unread⟩

theorem ran_of_not_consults (h : ¬b.Consults k cached s) : Ran k 0 s ((b.ask k cached).run.run s).2 := by
  rw [Consults, Classical.not_imp] at h
  obtain ⟨rfl, hcached⟩ := h
  cases hmemory : k.inMemory s.memory with
  | some v =>
    rw [ask_recalled hmemory]
    exact .refl k s
  | none =>
    cases hsaved : b.saved k s with
    | some v =>
      rw [ask_saved hmemory hsaved]
      rfl
    | none =>
      have hk : ∃ scheme, k = .index scheme := by
        by_contra hk
        exact hcached ⟨fun scheme h => hk ⟨scheme, h⟩, hmemory, hsaved⟩
      obtain ⟨scheme, rfl⟩ := hk
      rw [index_unsaved hmemory hsaved]
      exact .refl _ s

theorem ask_eq_renewed (h : b.Consults k cached s)
    (hread : cached = true → readCache (b.file k) s ≠ none) :
    (b.ask k cached).run.run s = b.renewed k s := by
  cases cached with
  | false => exact ask_uncached b k s
  | true =>
    obtain ⟨hk, hmemory, hsaved⟩ := h rfl
    obtain ⟨data, hdata⟩ := Option.ne_none_iff_exists'.mp (hread rfl)
    exact ask_garbled hk hmemory hdata hsaved

theorem ran_unread (hk : ∀ scheme, k ≠ .index scheme) (hmemory : k.inMemory s.memory = none)
    (hread : readCache (b.file k) s = none) :
    ∃ n, Ran k n s ((b.ask k true).run.run s).2 ∧ n ≤ 2 ∧
      (0 < n ↔ b.refusal k.arguments s.files = none) ∧
      (n = 2 ↔ b.refusal k.arguments s.files = none ∧ b.Repeatable k s) := by
  rw [ask_unread hk hmemory hread]
  have first := b.renewed_ran k s
  cases hrenewed : b.renewed k s with
  | mk result s' =>
    rw [hrenewed] at first
    cases result with
    | ok v =>
      obtain ⟨startable, right⟩ := not_repeatable hrenewed
      rw [if_pos startable] at first
      exact ⟨1, first, by omega, by simp [startable], by simp [right]⟩
    | error e =>
      have again := startable_again_iff hrenewed
      have second := b.renewed_ran k s'
      by_cases startable : b.refusal k.arguments s.files = none
      · rw [if_pos startable] at first
        by_cases repeatable : b.Repeatable k s
        · rw [if_pos (again.2 ⟨startable, repeatable⟩)] at second
          exact ⟨2, first.trans second, by omega, by simp [startable], by simp [startable, repeatable]⟩
        · rw [if_neg fun h => repeatable (again.1 h).2] at second
          exact ⟨1, first.trans second, by omega, by simp [startable], by simp [repeatable]⟩
      · rw [if_neg startable] at first
        rw [if_neg fun h => startable (again.1 h).1] at second
        exact ⟨0, first.trans second, by omega, by simp [startable], by simp [startable]⟩

/-- A call runs the tool at most twice, and for its own entry only. It runs it at all exactly if it comes to the
tool and the tool can be started, and twice exactly if it may use the cache, has nothing cached to go by and the
first run goes wrong. So a call that had cached output to go by runs the tool at most once. -/
theorem runs_of_call (b : Builder) (k : CacheKey) (cached : Bool) (s : Site) :
    ∃ n, Ran k n s ((b.ask k cached).run.run s).2 ∧ n ≤ 2 ∧
      (0 < n ↔ b.Consults k cached s ∧ b.refusal k.arguments s.files = none) ∧
      (n = 2 ↔ b.Repeats k cached s) := by
  by_cases hconsults : b.Consults k cached s
  · by_cases hread : cached = true → readCache (b.file k) s ≠ none
    · have once := b.renewed_ran k s
      rw [← ask_eq_renewed hconsults hread] at once
      have hrepeats : ¬b.Repeats k cached s := fun h => hread h.allowed h.unread
      by_cases startable : b.refusal k.arguments s.files = none
      · rw [if_pos startable] at once
        exact ⟨1, once, by omega, by simp [hconsults, startable], by simp [hrepeats]⟩
      · rw [if_neg startable] at once
        exact ⟨0, once, by omega, by simp [startable], by simp [hrepeats]⟩
    · rw [Classical.not_imp, not_not] at hread
      obtain ⟨rfl, hread⟩ := hread
      obtain ⟨hk, hmemory, -⟩ := hconsults rfl
      obtain ⟨n, hran, hle, hsome, htwice⟩ := ran_unread hk hmemory hread
      refine ⟨n, hran, hle, by simp [hsome, hconsults], htwice.trans ?_⟩
      constructor
      · rintro ⟨startable, repeatable⟩
        exact ⟨rfl, hk, hmemory, hread, startable, repeatable⟩
      · intro h
        exact ⟨h.startable, h.repeatable⟩
  · refine ⟨0, ran_of_not_consults hconsults, by omega, by simp [hconsults], ?_⟩
    simpa using fun h : b.Repeats k cached s => hconsults h.consults

def failing : Builder := ⟨⟨true, fun _ _ => ⟨[], [], .exited 1⟩⟩, "/p", "/c"⟩

theorem failing_list_repeated :
    readCache failing.listFile plainSite = none ∧ plainSite.runs = [] ∧
      ((failing.list true).run.run plainSite).2.runs = [["-json", "-list"], ["-json", "-list"]] := by
  decide +kernel

end Builder

end BuildServer
