import BuildServer.Proofs.Store.Isolation
import BuildServer.Target.Uri

namespace BuildServer

namespace TargetUri

def scopeTail : Option String → List Char
  | some name => ':' :: ':' :: name.toList
  | none => []

theorem toList_cacheScope (t : TargetUri) : t.cacheScope.toList = t.scheme.toList ++ scopeTail t.target := by
  obtain ⟨project, scheme, target⟩ := t
  cases target with
  | none => simp [cacheScope, scopeTail]
  | some name => simp [cacheScope, scopeTail, String.toList_append]

theorem scopeTail_injective {n n' : Option String} (h : scopeTail n = scopeTail n') : n = n' := by
  cases n with
  | none => cases n' <;> simp_all [scopeTail]
  | some n => cases n' <;> simp_all [scopeTail, String.toList_inj]

/-- The scheme of the second target goes on with what the scope of the first has behind its scheme. -/
def Overlaps (t u : TargetUri) : Prop :=
  ∃ more, more ≠ [] ∧ u.scheme.toList = t.scheme.toList ++ more ∧
    scopeTail t.target = more ++ scopeTail u.target

theorem Overlaps.cacheScope_eq {t u : TargetUri} (h : t.Overlaps u) : t.cacheScope = u.cacheScope := by
  obtain ⟨more, -, hscheme, htail⟩ := h
  rw [← String.toList_inj, toList_cacheScope, toList_cacheScope, hscheme, htail, List.append_assoc]

theorem same_or_overlaps {t u : TargetUri} {more : List Char}
    (hscheme : u.scheme.toList = t.scheme.toList ++ more)
    (htail : scopeTail t.target = more ++ scopeTail u.target) :
    t.scheme = u.scheme ∧ t.target = u.target ∨ t.Overlaps u := by
  by_cases hmore : more = []
  · rw [hmore, List.append_nil] at hscheme
    rw [hmore, List.nil_append] at htail
    exact .inl ⟨String.toList_inj.1 hscheme.symm, scopeTail_injective htail⟩
  · exact .inr ⟨more, hmore, hscheme, htail⟩

theorem cacheScope_eq_iff {t u : TargetUri} : t.cacheScope = u.cacheScope ↔
    t.scheme = u.scheme ∧ t.target = u.target ∨ t.Overlaps u ∨ u.Overlaps t := by
  constructor
  · intro h
    have texts : t.scheme.toList ++ scopeTail t.target = u.scheme.toList ++ scopeTail u.target := by
      rw [← toList_cacheScope, h, toList_cacheScope]
    rcases List.append_eq_append_iff.1 texts with ⟨more, hscheme, htail⟩ | ⟨more, hscheme, htail⟩
    · exact (same_or_overlaps hscheme htail).imp_right .inl
    · exact (same_or_overlaps hscheme htail).imp (.imp Eq.symm Eq.symm) .inr
  · rintro (⟨hscheme, htarget⟩ | h | h)
    · rw [cacheScope, cacheScope, hscheme, htarget]
    · exact h.cacheScope_eq
    · exact h.cacheScope_eq.symm

def Opens (scheme other : String) : Prop :=
  scheme.toList ++ [':', ':'] <+: other.toList ++ [':']

instance (scheme other : String) : Decidable (Opens scheme other) :=
  inferInstanceAs (Decidable (_ <+: _))

theorem Overlaps.opens {t u : TargetUri} (h : t.Overlaps u) : Opens t.scheme u.scheme := by
  obtain ⟨more, hmore, hscheme, htail⟩ := h
  rw [Opens, hscheme, List.append_assoc, List.prefix_append_right_inj]
  cases ht : t.target with
  | none =>
    rw [ht] at htail
    exact absurd (List.append_eq_nil_iff.1 htail.symm).1 hmore
  | some name =>
    rw [ht] at htail
    rcases more with _ | ⟨c, more⟩
    · exact absurd rfl hmore
    · obtain ⟨hc, tail⟩ := List.cons.inj htail
      rw [← hc]
      rcases more with _ | ⟨d, more⟩
      · exact List.prefix_refl _
      · obtain ⟨hd, -⟩ := List.cons.inj tail
        rw [← hd]
        exact ⟨more ++ [':'], rfl⟩

theorem cacheScope_nested {name : String} (h : name ≠ "") (project scheme : String) :
    (nested project scheme name).cacheScope = scheme ++ "::" ++ name := by
  have hname : nonempty? name = some name := by simp [nonempty?, h]
  rw [nested, hname, cacheScope]

theorem exists_common_scope {scheme other : String} (h : Opens scheme other) (project : String) :
    ∃ n n', (nested project scheme n).cacheScope = (nested project other n').cacheScope := by
  obtain ⟨rest, hrest⟩ := h
  -- The names are made to end alike, so that neither is empty.
  refine ⟨String.ofList (rest ++ [':', 'x']), "x", ?_⟩
  rw [cacheScope_nested (by simp), cacheScope_nested (by decide)]
  apply String.toList_inj.1
  have hother := congrArg (· ++ [':', 'x']) hrest
  simpa [String.toList_append] using hother

theorem apart_iff {scheme other : String} (h : scheme ≠ other) (project : String) :
    (∀ n n', (nested project scheme n).cacheScope ≠ (nested project other n').cacheScope) ↔
      ¬Opens scheme other ∧ ¬Opens other scheme := by
  constructor
  · intro apart
    refine ⟨fun opens => ?_, fun opens => ?_⟩
    · obtain ⟨n, n', same⟩ := exists_common_scope opens project
      exact apart n n' same
    · obtain ⟨n, n', same⟩ := exists_common_scope opens project
      exact apart n' n same.symm
  · rintro ⟨hopens, hopens'⟩ n n' same
    rcases cacheScope_eq_iff.1 same with ⟨hscheme, -⟩ | overlaps | overlaps
    · exact h hscheme
    · exact hopens overlaps.opens
    · exact hopens' overlaps.opens

end TargetUri

/-- Two targets have one scope exactly if they overlap. If they do not, an update for one of them leaves
everything as it is that can be fetched for the other. -/
theorem prepared_arguments_isolated {t u : TargetUri} {store store' : Store} {arguments : ArgumentsByPath}
    (differ : t.scheme ≠ u.scheme ∨ t.target ≠ u.target) (sound : store.Sound)
    (updated : store.update arguments t.cacheScope = .ok store') :
    (t.cacheScope = u.cacheScope ↔ t.Overlaps u ∨ u.Overlaps t) ∧
      (¬t.Overlaps u → ¬u.Overlaps t → ∀ path,
        store'.fetch path u.cacheScope = store.fetch path u.cacheScope) := by
  have same : t.cacheScope = u.cacheScope ↔ t.Overlaps u ∨ u.Overlaps t := by
    rw [TargetUri.cacheScope_eq_iff]
    apply or_iff_right
    rintro ⟨hscheme, htarget⟩
    exact differ.elim (absurd hscheme) (absurd htarget)
  refine ⟨same, fun before behind => Store.fetch_update sound updated fun h => ?_⟩
  exact (same.1 h.symm).elim before behind

section

def ScopesIsolated : Prop :=
  ∀ (t u : TargetUri) (store store' : Store) (arguments : ArgumentsByPath) (path : String),
    t.project = u.project → t.scheme ≠ u.scheme ∨ t.target ≠ u.target → store.Sound →
    store.update arguments t.cacheScope = .ok store' →
    store'.fetch path u.cacheScope = store.fetch path u.cacheScope

def someArguments : ArgumentsByPath := .ofList [("/p/A.swift", ["-c", "/p/A.swift"])]

def newStore : Store := .database .empty

theorem sound_newStore : newStore.Sound := fun _ hr => nomatch hr

theorem scopes_not_isolated : ¬ScopesIsolated := by
  intro h
  have same := h (.forScheme "Demo" "App::Tests") (.nested "Demo" "App" "Tests") newStore _ someArguments
    "/p/A.swift" rfl (by decide) sound_newStore rfl
  exact absurd same (by decide +kernel)

theorem tests_keep_arguments : ∃ first second : Store,
    newStore.update someArguments (TargetUri.nested "Demo" "App" "Tests").cacheScope = .ok first ∧
      first.update .empty (TargetUri.forScheme "Demo" "App").cacheScope = .ok second ∧
      second.fetch "/p/A.swift" (TargetUri.nested "Demo" "App" "Tests").cacheScope =
        .ok ["-c", "/p/A.swift"] := by
  obtain ⟨first, hfirst⟩ : ∃ first, newStore.update someArguments
      (TargetUri.nested "Demo" "App" "Tests").cacheScope = .ok first := ⟨_, rfl⟩
  obtain ⟨second, hsecond⟩ : ∃ second, first.update .empty
      (TargetUri.forScheme "Demo" "App").cacheScope = .ok second := by
    obtain rfl := Except.ok.inj hfirst
    exact ⟨_, rfl⟩
  have apart : ¬TargetUri.Opens "App" "App" := by decide +kernel
  obtain ⟨-, kept⟩ := prepared_arguments_isolated (t := .forScheme "Demo" "App")
    (u := .nested "Demo" "App" "Tests") (by decide) (sound_newStore.update hfirst) hsecond
  have same := kept (fun h => apart h.opens) (fun h => apart h.opens) "/p/A.swift"
  refine ⟨first, second, hfirst, hsecond, same.trans ?_⟩
  obtain rfl := Except.ok.inj hfirst
  decide +kernel

end

end BuildServer
