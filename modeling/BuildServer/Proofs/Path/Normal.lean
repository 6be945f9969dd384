import BuildServer.Path.Basic
import BuildServer.Proofs.Text.Pieces

namespace BuildServer

namespace Path

def Part.IsPiece (p : Part) : Prop :=
  partOf? p.text.toList = some p ∧ '/' ∉ p.text.toList

def Part.Plain (p : Part) : Prop :=
  p.text.toList ≠ [] ∧ '/' ∉ p.text.toList

theorem Part.IsPiece.plain {p : Part} (h : p.IsPiece) : p.Plain := by
  refine ⟨fun hempty => ?_, h.2⟩
  have hpart := h.1
  simp [hempty, partOf?] at hpart

theorem isPiece_up : Part.up.IsPiece := by
  constructor <;> decide

theorem isPiece_of_piece {path piece : List Char} {p : Part} (hpiece : piece ∈ pieces '/' path)
    (h : partOf? piece = some p) : p = .up ∨ ∃ s, p = .name s ∧ p.IsPiece := by
  have hslash := not_mem_piece hpiece
  unfold partOf? at h
  split at h
  · cases h
  · rename_i hempty
    split at h
    · exact .inl (Option.some.inj h).symm
    · rename_i hup
      obtain rfl := Option.some.inj h
      refine .inr ⟨_, rfl, ?_⟩
      simp only [Part.IsPiece, Part.text, String.toList_ofList, partOf?]
      rw [if_neg hempty, if_neg hup]
      exact ⟨rfl, hslash⟩

def Stacked : List Part → Prop
  | [] => True
  | .name s :: rest => (Part.name s).IsPiece ∧ Stacked rest
  | .up :: rest => ∀ p ∈ rest, p = .up
  | .root :: rest => rest = []
  | .here :: _ => False

theorem stacked_push {seen : List Part} {p : Part} (h : Stacked seen)
    (hp : p = .up ∨ ∃ s, p = .name s ∧ p.IsPiece) : Stacked (push seen p) := by
  rcases hp with rfl | ⟨s, rfl, hs⟩
  · unfold push
    dsimp only
    split
    · exact h.2
    · exact h
    · rename_i hname hroot
      cases seen with
      | nil => simp [Stacked]
      | cons q rest =>
        cases q with
        | up =>
          intro r hr
          rcases List.mem_cons.1 hr with rfl | hr
          · rfl
          · exact h r hr
        | name s => exact absurd rfl (hname s rest)
        | root => exact absurd rfl (hroot rest)
        | here => exact h.elim
  · exact ⟨hs, h⟩

theorem stacked_foldl {seen ps : List Part} (h : Stacked seen)
    (hp : ∀ p ∈ ps, p = .up ∨ ∃ s, p = .name s ∧ p.IsPiece) : Stacked (ps.foldl push seen) := by
  induction ps generalizing seen with
  | nil => exact h
  | cons p ps ih =>
    exact ih (stacked_push h (hp p (by simp))) fun q hq => hp q (by simp [hq])

theorem stacked_parts (path : String) : Stacked ((parts path).foldl push []) := by
  have hinner : ∀ p ∈ (pieces '/' path.toList).filterMap partOf?,
      p = .up ∨ ∃ s, p = .name s ∧ p.IsPiece := by
    intro p hp
    obtain ⟨piece, hpiece, hpart⟩ := List.mem_filterMap.1 hp
    exact isPiece_of_piece hpiece hpart
  have hroot : Stacked [.root] := rfl
  have hempty : Stacked [] := trivial
  unfold parts
  dsimp only
  split
  · rw [List.foldl_cons]
    exact stacked_foldl hroot hinner
  · split
    · rw [List.foldl_cons]
      exact stacked_foldl hempty hinner
    · exact stacked_foldl hempty hinner

theorem foldl_push_reverse {seen : List Part} (h : Stacked seen) :
    seen.reverse.foldl push [] = seen := by
  induction seen with
  | nil => rfl
  | cons p rest ih =>
    rw [List.reverse_cons, List.foldl_append, List.foldl_cons, List.foldl_nil]
    cases p with
    | name s =>
      rw [ih h.2]
      rfl
    | root =>
      obtain rfl : rest = [] := h
      rfl
    | here => exact h.elim
    | up =>
      cases rest with
      | nil => rfl
      | cons q rest =>
        obtain rfl : q = .up := h q (by simp)
        rw [ih fun p hp => h p (by simp [hp])]
        rfl

theorem stacked_names {seen : List Part} (h : Stacked seen) : ∃ names : List String,
    (∀ n ∈ names, (Part.name n).IsPiece) ∧ (seen.reverse = .root :: names.map .name ∨
      ∃ ups, seen.reverse = List.replicate ups .up ++ names.map .name) := by
  induction seen with
  | nil => exact ⟨[], by simp, .inr ⟨0, rfl⟩⟩
  | cons p rest ih =>
    cases p with
    | name s =>
      obtain ⟨names, hnames, hrest⟩ := ih h.2
      refine ⟨names ++ [s], fun n hn => ?_, ?_⟩
      · rcases List.mem_append.mp hn with hn | hn
        · exact hnames n hn
        · exact List.mem_singleton.mp hn ▸ h.1
      · rw [List.reverse_cons, List.map_append]
        rcases hrest with hrest | ⟨ups, hrest⟩
        · exact .inl (by rw [hrest]; rfl)
        · exact .inr ⟨ups, by rw [hrest, List.append_assoc]; rfl⟩
    | up =>
      have hups : rest = List.replicate rest.length .up := List.eq_replicate_of_mem h
      refine ⟨[], by simp, .inr ⟨rest.length + 1, ?_⟩⟩
      rw [hups, List.reverse_cons, List.reverse_replicate, List.length_replicate, List.replicate_succ']
      simp
    | root =>
      obtain rfl : rest = [] := h
      exact ⟨[], by simp, .inl rfl⟩
    | here => exact h.elim

theorem stacked_pieces {seen : List Part} (h : Stacked seen) :
    ∃ ps, (∀ p ∈ ps, (p = .up ∨ ∃ s, p = .name s) ∧ p.IsPiece) ∧
      (seen.reverse = ps ∨ seen.reverse = .root :: ps) := by
  obtain ⟨names, hnames, hroot | ⟨ups, hups⟩⟩ := stacked_names h
  · refine ⟨names.map .name, fun p hp => ?_, .inr hroot⟩
    obtain ⟨n, hn, rfl⟩ := List.mem_map.mp hp
    exact ⟨.inr ⟨n, rfl⟩, hnames n hn⟩
  · refine ⟨List.replicate ups .up ++ names.map .name, fun p hp => ?_, .inl hups⟩
    rcases List.mem_append.mp hp with hp | hp
    · obtain rfl := List.eq_of_mem_replicate hp
      exact ⟨.inl rfl, isPiece_up⟩
    · obtain ⟨n, hn, rfl⟩ := List.mem_map.mp hp
      exact ⟨.inr ⟨n, rfl⟩, hnames n hn⟩

theorem filterMap_partOf? {ps : List Part} (h : ∀ p ∈ ps, p.IsPiece) :
    (ps.map fun p => p.text.toList).filterMap partOf? = ps := by
  induction ps with
  | nil => rfl
  | cons p ps ih =>
    rw [List.map_cons, List.filterMap_cons, (h p (by simp)).1, ih fun q hq => h q (by simp [hq])]

theorem toList_join (ps : List Part) :
    (String.intercalate "/" (ps.map Part.text)).toList =
      ['/'].intercalate (ps.map fun p => p.text.toList) := by
  rw [String.toList_intercalate, List.map_map]
  rfl

theorem pieces_join {ps : List Part} (h : ∀ p ∈ ps, p.Plain) (hne : ps ≠ []) :
    pieces '/' (['/'].intercalate (ps.map fun p => p.text.toList)) = ps.map fun p => p.text.toList := by
  refine pieces_intercalate (by simpa using hne) ?_
  intro cs hcs
  obtain ⟨p, hp, rfl⟩ := List.mem_map.1 hcs
  exact (h p hp).2

theorem not_isAbsolute_join {p : Part} {ps : List Part} (h : p.Plain) :
    isAbsolute (String.intercalate "/" ((p :: ps).map Part.text)) = false := by
  rw [isAbsolute, toList_join, List.map_cons]
  cases ht : p.text.toList with
  | nil => exact absurd ht h.1
  | cons c cs =>
    have hc : c ≠ '/' := by
      rintro rfl
      exact h.2 (ht ▸ List.mem_cons_self)
    cases ps with
    | nil => simpa using hc
    | cons q ps => simpa [List.intercalate_cons_cons] using hc

theorem parts_ofParts {seen : List Part} (h : Stacked seen) (hne : seen ≠ []) :
    parts (ofParts seen.reverse) = seen.reverse := by
  obtain ⟨ps, hps, hr | hr⟩ := stacked_pieces h
  · cases ps with
    | nil => exact absurd (List.reverse_eq_nil_iff.1 hr) hne
    | cons p ps =>
      have hpieces := fun q hq => (hps q hq).2
      have hp := hpieces p List.mem_cons_self
      have hjoin : ofParts (p :: ps) = String.intercalate "/" ((p :: ps).map Part.text) := by
        rcases (hps p List.mem_cons_self).1 with rfl | ⟨s, rfl⟩ <;> rfl
      have hdot : p.text.toList ≠ ['.'] := by
        intro hdot
        have hpart := hp.1
        simp [hdot, partOf?] at hpart
      rw [hr, hjoin, parts, not_isAbsolute_join hp.plain, toList_join,
        pieces_join (fun q hq => (hpieces q hq).plain) (by simp), filterMap_partOf? hpieces]
      simpa using hdot
  · have hpieces := fun q hq => (hps q hq).2
    have hroot : (ofParts (.root :: ps)).toList = '/' :: ['/'].intercalate (ps.map fun p => p.text.toList) := by
      rw [ofParts, String.toList_append, toList_join]
      rfl
    have habsolute : isAbsolute (ofParts (.root :: ps)) = true := by
      rw [isAbsolute, hroot]
      rfl
    have hinner : (pieces '/' (ofParts (.root :: ps)).toList).filterMap partOf? = ps := by
      rw [hroot, pieces, if_pos rfl]
      cases ps with
      | nil => rfl
      | cons p ps =>
        rw [pieces_join (fun q hq => (hpieces q hq).plain) (by simp), List.filterMap_cons,
          filterMap_partOf? hpieces]
        rfl
    rw [hr, parts, if_pos habsolute, hinner]

theorem normalize_of_ne_nil {path : String} (h : normalParts path ≠ []) :
    normalize path = ofParts (normalParts path) := by
  unfold normalize
  split
  · exact absurd ‹_› h
  · rfl

theorem normalize_normalize (path : String) : normalize (normalize path) = normalize path := by
  have stacked := stacked_parts path
  by_cases hempty : normalParts path = []
  · have hdot : normalize path = "." := by rw [normalize, hempty]
    rw [hdot]
    decide
  · have hseen : (parts path).foldl push [] ≠ [] := by simpa [normalParts] using hempty
    have hagain : normalParts (normalize path) = normalParts path := by
      rw [normalize_of_ne_nil hempty, normalParts, normalParts, parts_ofParts stacked hseen,
        foldl_push_reverse stacked]
    rw [normalize_of_ne_nil (hagain ▸ hempty), hagain, normalize_of_ne_nil hempty]

end Path

end BuildServer
