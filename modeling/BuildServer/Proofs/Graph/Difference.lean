import BuildServer.Proofs.Graph.Consistency

namespace BuildServer

namespace Snapshot

variable {p s : Snapshot} {uri file : String}

def entry (s : Snapshot) (uri : String) : Option BuildTarget × Option (List String) :=
  (s.target? uri, s.files.get? uri)

theorem mem_uris_of_target? {t : BuildTarget} (h : s.target? uri = some t) : uri ∈ s.uris := by
  have hmem := List.mem_of_find?_eq_some h
  have huri : t.uri = uri := by simpa using List.find?_some h
  exact List.mem_map.mpr ⟨t, hmem, huri⟩

theorem mem_uris_of_entry (hs : s.Consistent) (h : s.entry uri ≠ (none, none)) : uri ∈ s.uris := by
  cases ht : s.target? uri with
  | some t => exact mem_uris_of_target? ht
  | none =>
    cases hf : s.files.get? uri with
    | some files => exact (hs.files_keys uri).mp (Table.mem_keys.mpr ⟨files, hf⟩)
    | none =>
      rw [entry, ht, hf] at h
      exact absurd rfl h

theorem mem_changedTargets (hp : p.Consistent) (hs : s.Consistent) :
    uri ∈ s.changedTargets (some p) ↔ p.entry uri ≠ s.entry uri := by
  have hdiffers : (p.target? uri != s.target? uri || p.files.get? uri != s.files.get? uri) = true ↔
      p.entry uri ≠ s.entry uri := by
    rw [entry, entry, ne_eq, Prod.mk.injEq, Classical.not_and_iff_not_or_not, Bool.or_eq_true,
      bne_iff_ne, bne_iff_ne]
  have hnamed : p.entry uri ≠ s.entry uri → uri ∈ (p.targets ++ s.targets).map BuildTarget.uri := by
    intro hne
    rw [List.map_append, List.mem_append]
    by_cases hentry : p.entry uri = (none, none)
    · right
      exact mem_uris_of_entry hs fun h => hne (hentry.trans h.symm)
    · left
      exact mem_uris_of_entry hp hentry
  rw [changedTargets, List.mem_filter, Names.mem_sorted, hdiffers]
  exact and_iff_right_of_imp hnamed

theorem mem_changedOptions : file ∈ (s.changedOptions (some p)).keys ↔
    ∃ o, s.optionsByFile.get? file = some o ∧ p.optionsByFile.get? file ≠ some o := by
  rw [changedOptions, Table.mem_keys]
  simp only [Table.get?_filter, Option.filter_eq_some_iff, bne_iff_ne]

end Snapshot

end BuildServer
