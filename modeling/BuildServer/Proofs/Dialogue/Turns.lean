import BuildServer.Proofs.Dialogue.Course

namespace BuildServer.Dialogue

variable {Q σ : Type} {A : Q → Type} {α : Type}

structure Turn (A : Q → Type) where
  who : Nat
  question : Q
  answer : A question

inductive TakeTurns (answers : (q : Q) → σ → Option (A q × σ)) (ds : List (Dialogue A α)) (start : σ) :
    List (Turn A) → List (Dialogue A α) → σ → Prop
  | start : TakeTurns answers ds start [] ds start
  | turn {ts : List (Turn A)} {now : List (Dialogue A α)} {s s' : σ} {i : Nat} {q : Q} {f : A q → Dialogue A α}
    {a : A q} (before : TakeTurns answers ds start ts now s) (here : now[i]? = some (.ask q f))
    (answered : answers q s = some (a, s')) : TakeTurns answers ds start (ts ++ [⟨i, q, a⟩]) (now.set i (f a)) s'

def heardBy (i : Nat) (ts : List (Turn A)) : List ((q : Q) × A q) :=
  ts.filterMap fun t => if t.who = i then some ⟨t.question, t.answer⟩ else none

section

variable {i j : Nat} {q : Q} {a : A q} {ts us : List (Turn A)}

theorem heardBy_append : heardBy i (ts ++ us) = heardBy i ts ++ heardBy i us :=
  List.filterMap_append

theorem heardBy_own (ts : List (Turn A)) : heardBy i (⟨i, q, a⟩ :: ts) = ⟨q, a⟩ :: heardBy i ts :=
  List.filterMap_cons_some (if_pos rfl)

theorem heardBy_other (h : j ≠ i) (ts : List (Turn A)) : heardBy i (⟨j, q, a⟩ :: ts) = heardBy i ts :=
  List.filterMap_cons_none (if_neg h)

theorem mem_heardBy : ⟨q, a⟩ ∈ heardBy i ts ↔ ⟨i, q, a⟩ ∈ ts := by
  rw [heardBy, List.mem_filterMap]
  constructor
  · rintro ⟨⟨j, q', a'⟩, ht, heard⟩
    simp only [Option.ite_none_right_eq_some, Option.some.injEq] at heard
    obtain ⟨rfl, heard⟩ := heard
    cases heard
    exact ht
  · exact fun h => ⟨_, h, if_pos rfl⟩

end

namespace TakeTurns

variable {answers : (q : Q) → σ → Option (A q × σ)} {ds now : List (Dialogue A α)} {start s : σ}
  {ts us : List (Turn A)} {t : Turn A} {i : Nat} {d d' : Dialogue A α}

theorem length_eq (h : TakeTurns answers ds start ts now s) : now.length = ds.length := by
  induction h with
  | start => rfl
  | turn _ _ _ ih => rwa [List.length_set]

theorem hears (h : TakeTurns answers ds start ts now s) (first : ds[i]? = some d) :
    ∃ d', now[i]? = some d' ∧ d.Hears (heardBy i ts) d' := by
  induction h with
  | start => exact ⟨d, first, .stay⟩
  | @turn ts now s s' j q f a before here _ ih =>
    obtain ⟨d', hd', heard⟩ := ih
    rw [heardBy_append]
    by_cases hij : j = i
    · subst hij
      obtain rfl := Option.some.inj (here.symm.trans hd')
      refine ⟨f a, List.getElem?_set_self (List.getElem?_eq_some_iff.mp here).1, ?_⟩
      rw [heardBy_own]
      exact heard.snoc a
    · refine ⟨d', by rw [List.getElem?_set_ne hij, hd'], ?_⟩
      rw [heardBy_other hij]
      simpa [heardBy] using heard

theorem asks {P : Q → Prop} (h : TakeTurns answers ds start ts now s) (first : ∀ d ∈ ds, d.Asks P) :
    (∀ t ∈ ts, P t.question) ∧ ∀ d ∈ now, d.Asks P := by
  induction h with
  | start => exact ⟨nofun, first⟩
  | turn before here _ ih =>
    obtain ⟨asked, rest⟩ := ih
    obtain ⟨hq, hf⟩ := rest _ (List.mem_of_getElem? here)
    refine ⟨fun t ht => ?_, fun d hd => ?_⟩
    · rcases List.mem_append.mp ht with ht | ht
      · exact asked t ht
      · obtain rfl := List.mem_singleton.mp ht
        exact hq
    · rcases List.mem_or_eq_of_mem_set hd with hd | rfl
      · exact rest d hd
      · exact hf _

theorem exists_first (h : TakeTurns answers ds start ts now s) (ht : t ∈ ts) : ∃ d, ds[t.who]? = some d := by
  induction h with
  | start => cases ht
  | @turn ts now s s' j q f a before here _ ih =>
    rcases List.mem_append.mp ht with ht | ht
    · exact ih ht
    · obtain rfl := List.mem_singleton.mp ht
      have hlt := (List.getElem?_eq_some_iff.mp here).1
      rw [before.length_eq] at hlt
      exact ⟨_, List.getElem?_eq_getElem hlt⟩

theorem heardBy_of_absent (h : TakeTurns answers ds start ts now s) (absent : ds[i]? = none) :
    heardBy i ts = [] := by
  refine List.filterMap_eq_nil_iff.mpr fun t ht => if_neg fun hwho => ?_
  obtain ⟨d, hd⟩ := h.exists_first ht
  rw [hwho, absent] at hd
  cases hd

theorem of_prefix (h : TakeTurns answers ds start ts now s) (hus : us <+: ts) :
    ∃ then' s', TakeTurns answers ds start us then' s' := by
  induction h with
  | start =>
    obtain rfl := List.prefix_nil.mp hus
    exact ⟨_, _, .start⟩
  | turn before here answered ih =>
    rcases List.prefix_concat_iff.mp hus with rfl | hus
    · exact ⟨_, _, before.turn here answered⟩
    · exact ih hus

theorem at_turn (h : TakeTurns answers ds start (ts ++ t :: us) now s) :
    ∃ before s₁ f s₂, TakeTurns answers ds start ts before s₁ ∧ before[t.who]? = some (.ask t.question f) ∧
      answers t.question s₁ = some (t.answer, s₂) := by
  have hbegins : ts ++ [t] <+: ts ++ t :: us := List.prefix_append_right_inj ts |>.mpr ⟨us, rfl⟩
  obtain ⟨_, _, h⟩ := h.of_prefix hbegins
  generalize hts : ts ++ [t] = us at h
  cases h with
  | start => cases List.append_ne_nil_of_right_ne_nil ts (List.cons_ne_nil t []) hts
  | turn before here answered =>
    obtain ⟨rfl, ht⟩ := List.append_inj' hts rfl
    cases ht
    exact ⟨_, _, _, _, before, here, answered⟩

section

variable {P : Q → Prop} (answerable : ∀ q s, P q → ∃ a s', answers q s = some (a, s'))

include answerable

theorem finish_one (h : TakeTurns answers ds start ts now s) (here : now[i]? = some d) (asks : d.Asks P) :
    ∃ more a s', TakeTurns answers ds start (ts ++ more) (now.set i (.done a)) s' := by
  induction d generalizing ts now s with
  | done a =>
    obtain ⟨hlt, hget⟩ := List.getElem?_eq_some_iff.mp here
    refine ⟨[], a, s, ?_⟩
    rw [← hget, List.set_getElem_self, List.append_nil]
    exact h
  | ask q f ih =>
    obtain ⟨a, s', answered⟩ := answerable q s asks.1
    have there : (now.set i (f a))[i]? = some (f a) :=
      List.getElem?_set_self (List.getElem?_eq_some_iff.mp here).1
    obtain ⟨more, b, s'', h'⟩ := ih a (h.turn here answered) there (asks.2 a)
    rw [List.set_set, List.append_assoc] at h'
    exact ⟨_, b, s'', h'⟩

theorem finish (h : TakeTurns answers ds start ts now s) (asks : ∀ d ∈ ds, d.Asks P) :
    ∃ more last s', TakeTurns answers ds start (ts ++ more) last s' ∧ ∀ d ∈ last, ∃ a, d = .done a := by
  -- One after the other: the first `n` have come to their ends.
  have firsts (n : Nat) (hn : n ≤ ds.length) : ∃ more last s', TakeTurns answers ds start (ts ++ more) last s' ∧
      ∀ i < n, ∃ a, last[i]? = some (.done a) := by
    induction n with
    | zero => exact ⟨[], now, s, by rwa [List.append_nil], nofun⟩
    | succ n ih =>
      obtain ⟨more, last, s', h', ended⟩ := ih (Nat.le_of_succ_le hn)
      obtain ⟨d, hd⟩ : ∃ d, last[n]? = some d := ⟨_, List.getElem?_eq_getElem (h'.length_eq ▸ hn)⟩
      have rest := (h'.asks asks).2 d (List.mem_of_getElem? hd)
      obtain ⟨more', a, s'', h''⟩ := h'.finish_one answerable hd rest
      rw [List.append_assoc] at h''
      refine ⟨_, _, s'', h'', fun i hi => ?_⟩
      rcases Nat.lt_succ_iff_lt_or_eq.mp hi with hi | rfl
      · obtain ⟨b, hb⟩ := ended i hi
        exact ⟨b, by rw [List.getElem?_set_ne (Nat.ne_of_gt hi), hb]⟩
      · exact ⟨a, List.getElem?_set_self (List.getElem?_eq_some_iff.mp hd).1⟩
  obtain ⟨more, last, s', h', ended⟩ := firsts ds.length (Nat.le_refl _)
  refine ⟨more, last, s', h', fun d hd => ?_⟩
  obtain ⟨i, hi, rfl⟩ := List.mem_iff_getElem.mp hd
  obtain ⟨a, ha⟩ := ended i (h'.length_eq ▸ hi)
  exact ⟨a, Option.some.inj ((List.getElem?_eq_getElem hi).symm.trans ha)⟩

end

end TakeTurns

end BuildServer.Dialogue
