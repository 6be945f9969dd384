import Mathlib.Data.List.Sort
import BuildServer.Proofs.Graph.Exactness

namespace BuildServer

theorem eq_of_mem_iff {α : Type} {key : α → String} {xs ys : List α} (hxs : xs.Pairwise (key · < key ·))
    (hys : ys.Pairwise (key · < key ·)) (same : ∀ x, x ∈ xs ↔ x ∈ ys) : xs = ys := by
  have perm : xs.Perm ys :=
    (List.perm_ext_iff_of_nodup (nodup_of_increasing hxs) (nodup_of_increasing hys)).mpr same
  exact perm.eq_of_pairwise (fun _ _ _ _ hlt hgt => absurd hgt (String.lt_asymm hlt)) hxs hys

theorem Table.eq_of_get? {α : Type} {t u : Table α} (h : ∀ k, t.get? k = u.get? k) : t = u := by
  have entries : t.entries = u.entries := by
    refine eq_of_mem_iff t.ordered u.ordered ?_
    rintro ⟨k, v⟩
    rw [mem_entries, mem_entries, h]
  cases t
  cases u
  cases entries
  rfl

section Sorting

variable {α : Type} (key : α → String)

abbrev withKey (k : String) (xs : List α) : List α := xs.filter (key · == k)

variable {key}

theorem eq_of_withKey {xs ys : List α} (hxs : xs.Pairwise (key · ≤ key ·)) (hys : ys.Pairwise (key · ≤ key ·))
    (same : ∀ k, withKey key k xs = withKey key k ys) : xs = ys := by
  induction xs generalizing ys with
  | nil =>
    cases ys with
    | nil => rfl
    | cons y ys =>
      have hy := same (key y)
      simp [withKey] at hy
  | cons x xs ih =>
    cases ys with
    | nil =>
      have hx := same (key x)
      simp [withKey] at hx
    | cons y ys =>
      rw [List.pairwise_cons] at hxs hys
      have hx : x ∈ withKey key (key x) (y :: ys) := by
        rw [← same]
        simp [withKey]
      have hy : y ∈ withKey key (key y) (x :: xs) := by
        rw [same]
        simp [withKey]
      have hyx : key y ≤ key x := by
        rcases List.mem_cons.mp (List.mem_filter.mp hx).1 with rfl | hx
        · exact String.le_refl _
        · exact hys.1 x hx
      have hxy : key x ≤ key y := by
        rcases List.mem_cons.mp (List.mem_filter.mp hy).1 with rfl | hy
        · exact String.le_refl _
        · exact hxs.1 y hy
      have hkey : key x = key y := String.le_antisymm hxy hyx
      have hhead : x = y := by
        have heads := congrArg List.head? (same (key x))
        simpa [withKey, hkey] using heads
      subst hhead
      rw [ih hxs.2 hys.2 fun k => ?_]
      have hsame := same k
      rw [withKey, withKey, List.filter_cons, List.filter_cons] at hsame
      split at hsame
      · exact List.tail_eq_of_cons_eq hsame
      · exact hsame

theorem withKey_mergeSort (k : String) (xs : List α) :
    withKey key k (xs.mergeSort fun x y => decide (key x ≤ key y)) = withKey key k xs := by
  have htrans (x y z : α) (hxy : decide (key x ≤ key y) = true) (hyz : decide (key y ≤ key z) = true) :
      decide (key x ≤ key z) = true :=
    decide_eq_true (String.le_trans (of_decide_eq_true hxy) (of_decide_eq_true hyz))
  have htotal (x y : α) : (decide (key x ≤ key y) || decide (key y ≤ key x)) = true := by
    simpa using String.le_total (key x) (key y)
  have hsorted : (withKey key k xs).Pairwise fun x y => decide (key x ≤ key y) = true := by
    rw [withKey, List.pairwise_filter]
    refine List.pairwise_of_forall fun x y hx hy => decide_eq_true ?_
    have same : key x = key y := (eq_of_beq hx).trans (eq_of_beq hy).symm
    exact same ▸ String.le_refl (key x)
  have hsub : (withKey key k xs).Sublist (xs.mergeSort fun x y => decide (key x ≤ key y)) :=
    List.sublist_mergeSort htrans htotal hsorted List.filter_sublist
  have hfilter := hsub.filter (key · == k)
  rw [List.filter_filter] at hfilter
  simp only [Bool.and_self] at hfilter
  refine (hfilter.eq_of_length ?_).symm
  exact ((List.mergeSort_perm xs _).filter (key · == k)).length_eq.symm

end Sorting

namespace Snapshot

variable {ms ms' : List Member} {store store' : Option String} {uri : String}

abbrev membersAt (uri : String) (ms : List Member) : List Member := withKey Member.uri uri ms

theorem named_eq (ms : List Member) (uri : String) : named ms uri = (membersAt uri ms).getLast? := by
  rw [named, ← List.head?_filter, List.filter_reverse, List.head?_reverse]

theorem targets_withKey (uri : String) (ms : List Member) (store : Option String) :
    withKey BuildTarget.uri uri (ofMembers ms store).targets = (membersAt uri ms).map Member.target := by
  rw [ofMembers, withKey_mergeSort, withKey, List.filter_map]
  rfl

theorem get?_files_congr (h : membersAt uri ms = membersAt uri ms') :
    (ofMembers ms store).files.get? uri = (ofMembers ms' store').files.get? uri := by
  rw [get?_files, get?_files, named_eq, named_eq, h]

theorem get?_options_congr (h : membersAt uri ms = membersAt uri ms') :
    (ofMembers ms store).options.get? uri = (ofMembers ms' store').options.get? uri := by
  rw [get?_options, get?_options, named_eq, named_eq, h]

theorem mem_of_targetsByFileOf {file : String} {targets : List String}
    (h : (targetsByFileOf ms).get? file = some targets) (uri : String) :
    uri ∈ targets ↔ ∃ m ∈ ms, file ∈ m.files ∧ m.uri = uri := by
  refine ⟨(get?_targetsByFileOf h).2.2 uri, ?_⟩
  rintro ⟨m, hm, hfile, rfl⟩
  obtain ⟨_, hfound, huri⟩ := mem_targetsByFileOf hm hfile
  obtain rfl := Option.some.inj (h.symm.trans hfound)
  exact huri

section

variable (same : ∀ uri, membersAt uri ms = membersAt uri ms')
include same

theorem perm_of_membersAt : ms.Perm ms' := by
  rw [List.perm_iff_count]
  intro m
  have hcount (ms : List Member) : ms.count m = (membersAt m.uri ms).count m := by
    rw [membersAt, withKey, List.count_filter (by simp)]
  rw [hcount ms, hcount ms', same]

theorem targets_congr : (ofMembers ms store).targets = (ofMembers ms' store').targets := by
  refine eq_of_withKey (sorted_targets ms store) (sorted_targets ms' store') fun uri => ?_
  rw [targets_withKey, targets_withKey, same]

theorem files_congr : (ofMembers ms store).files = (ofMembers ms' store').files :=
  Table.eq_of_get? fun uri => get?_files_congr (same uri)

theorem options_congr : (ofMembers ms store).options = (ofMembers ms' store').options :=
  Table.eq_of_get? fun uri => get?_options_congr (same uri)

theorem targetsByFile_congr : (ofMembers ms store).targetsByFile = (ofMembers ms' store').targetsByFile := by
  have perm := perm_of_membersAt same
  refine Table.eq_of_get? fun file => Option.ext fun targets => ?_
  have carries {ms ms' : List Member} (perm : ms.Perm ms') (h : (targetsByFileOf ms).get? file = some targets) :
      (targetsByFileOf ms').get? file = some targets := by
    obtain ⟨hne, hincreasing, -⟩ := get?_targetsByFileOf h
    obtain ⟨uri, huri⟩ := List.exists_mem_of_ne_nil targets hne
    obtain ⟨m, hm, hfile, rfl⟩ := (mem_of_targetsByFileOf h uri).mp huri
    obtain ⟨targets', h', -⟩ := mem_targetsByFileOf (perm.mem_iff.mp hm) hfile
    obtain ⟨-, hincreasing', -⟩ := get?_targetsByFileOf h'
    have same : targets' = targets := by
      refine @eq_of_mem_iff String id _ _ hincreasing' hincreasing fun uri => ?_
      simp only [mem_of_targetsByFileOf h, mem_of_targetsByFileOf h', perm.mem_iff]
    rw [h', same]
  exact ⟨carries perm, carries perm.symm⟩

theorem optionsByFile_congr : (ofMembers ms store).optionsByFile = (ofMembers ms' store').optionsByFile :=
  have options : (ofMembers ms store).options = (ofMembers ms' store').options := options_congr same
  congrArg optionsByFileOf options

end

end Snapshot

end BuildServer
