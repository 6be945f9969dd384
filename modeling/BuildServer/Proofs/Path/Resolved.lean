import BuildServer.Proofs.Path.Canonical
import BuildServer.Proofs.Path.FileUri

namespace BuildServer

namespace Path

theorem mem_push {seen : List Part} {p q : Part} (h : p ∈ push seen q) : p ∈ seen ∨ p = q := by
  cases q with
  | up =>
    unfold push at h
    dsimp only at h
    split at h
    · exact .inl (List.mem_cons_of_mem _ h)
    · exact .inl h
    · exact (List.mem_cons.mp h).symm
  | root => exact (List.mem_cons.mp h).symm
  | here => exact .inl h
  | name s => exact (List.mem_cons.mp h).symm

theorem mem_foldl_push {seen ps : List Part} {p : Part} (h : p ∈ ps.foldl push seen) :
    p ∈ seen ∨ p ∈ ps := by
  induction ps generalizing seen with
  | nil => exact .inl h
  | cons q ps ih =>
    rcases ih h with h | h
    · rcases mem_push h with h | rfl
      · exact .inl h
      · exact .inr List.mem_cons_self
    · exact .inr (List.mem_cons_of_mem _ h)

theorem parts_normalize_of_snoc {path n : String} {ps : List Part} (h : parts path = ps ++ [.name n]) :
    ∃ qs, parts (normalize path) = qs ++ [.name n] ∧ ∀ p ∈ qs, p ∈ ps := by
  have hstack : stack path = .name n :: ps.foldl push [] := by
    rw [stack, h, List.foldl_append]
    rfl
  obtain ⟨hnil, -⟩ | ⟨-, -, hparts⟩ := normalize_cases path
  · rw [hstack] at hnil
    cases hnil
  · refine ⟨(ps.foldl push []).reverse, by rw [hparts, hstack, List.reverse_cons], fun p hp => ?_⟩
    rcases mem_foldl_push (List.mem_reverse.mp hp) with hp | hp
    · cases hp
    · exact hp

theorem parts_ofNames {names : List String} (h : ∀ n ∈ names, IsName n) :
    parts (ofParts (.root :: names.map .name)) = .root :: names.map .name := by
  have hstacked : Stacked (names.reverse.map Part.name ++ [.root]) := stacked_append (by simpa using h) rfl
  have hback := parts_ofParts hstacked (by simp)
  rwa [List.reverse_append, List.map_reverse, List.reverse_reverse] at hback

theorem parts_normalize_ofNames {names : List String} (h : ∀ n ∈ names, IsName n) (hne : names ≠ [])
    {path : String} (hpath : path = ofParts (.root :: names.map .name) ∨
      path = ofParts (.root :: names.map .name) ++ "/") :
    parts (normalize path) = .root :: names.map .name := by
  have hparts := parts_ofNames h
  have hnormal : normalize (ofParts (.root :: names.map .name)) = ofParts (.root :: names.map .name) := by
    rw [normalize_eq_self_iff, ofParts_names]
    exact .absolute hne h
  rcases hpath with rfl | rfl
  · rw [hnormal, hparts]
  · rw [normalize_append_slash hnormal (isAbsolute_of_parts hparts), hparts]

end Path

namespace FileUri

open Path (Part parts normalize)

section

variable {seen rest : List (List Char)} {s : List Char} (hrest : rest ≠ [])
include hrest

theorem resolve_kept (hs : dots s = none) : resolve seen (s :: rest) = resolve (s :: seen) rest := by
  cases rest with
  | nil => exact absurd rfl hrest
  | cons t rest => simp [resolve, hs]

theorem resolve_up (hs : dots s = some 2) :
    resolve seen (s :: rest) = resolve (resolve.outer seen) rest := by
  cases rest with
  | nil => exact absurd rfl hrest
  | cons t rest => simp [resolve, hs]

end

theorem outer_names (seen : List String) : ∃ left : List String,
    resolve.outer (seen.map encodeSegment) = left.map encodeSegment ∧ ∀ m ∈ left, m ∈ seen := by
  cases seen with
  | nil => exact ⟨[], rfl, fun m hm => hm⟩
  | cons s seen =>
    rw [List.map_cons, resolve.outer]
    split
    · exact ⟨s :: seen, rfl, fun m hm => hm⟩
    · exact ⟨seen, rfl, fun m hm => List.mem_cons_of_mem _ hm⟩

theorem resolve_names {ps : List Part} {n : String}
    (hps : ∀ p ∈ ps, p = .up ∨ ∃ s, p = .name s ∧ p.IsPiece) (hn : (Part.name n).IsPiece)
    (seen : List String) : ∃ names : List String,
      resolve (seen.map encodeSegment) ((ps ++ [Part.name n]).map fun p => encodeSegment p.text) =
        (names ++ [n]).map encodeSegment ∧ ∀ m ∈ names, m ∈ seen ∨ .name m ∈ ps := by
  induction ps generalizing seen with
  | nil =>
    refine ⟨seen.reverse, ?_, fun m hm => .inl (List.mem_reverse.mp hm)⟩
    simp [resolve, Part.text, dots_encodeSegment hn]
  | cons p ps ih =>
    have hstep (seen' : List String) := ih (fun q hq => hps q (List.mem_cons_of_mem _ hq)) seen'
    rw [List.cons_append, List.map_cons]
    rcases hps p List.mem_cons_self with rfl | ⟨s, rfl, hs⟩
    · obtain ⟨left, hleft, hmem⟩ := outer_names seen
      obtain ⟨names, hnames, hfrom⟩ := hstep left
      refine ⟨names, ?_, fun m hm => (hfrom m hm).imp (hmem m) (List.mem_cons_of_mem _)⟩
      rw [resolve_up (by simp) (by decide), hleft, hnames]
    · obtain ⟨names, hnames, hfrom⟩ := hstep (s :: seen)
      refine ⟨names, (resolve_kept (by simp) (dots_encodeSegment hs)).trans hnames, fun m hm => ?_⟩
      rcases hfrom m hm with hm | hm
      · rcases List.mem_cons.mp hm with rfl | hm
        · exact .inr List.mem_cons_self
        · exact .inl hm
      · exact .inr (List.mem_cons_of_mem _ hm)

section LastName

variable {path n : String} {ps : List Part} (habsolute : Path.isAbsolute path = true)
  (hparts : parts path = ps ++ [Part.name n])
include habsolute hparts

theorem innerParts_of_snoc : ∃ inner, ps = .root :: inner ∧ Path.innerParts path = inner ++ [Part.name n] := by
  obtain ⟨-, hinner⟩ | ⟨hrelative, -⟩ | ⟨hrelative, -⟩ := Path.parts_cases path
  · cases ps with
    | nil => simp [hparts] at hinner
    | cons p inner =>
      obtain ⟨rfl, hinner⟩ := List.cons.inj (hparts.symm.trans hinner)
      exact ⟨inner, rfl, hinner.symm⟩
  all_goals
    rw [habsolute] at hrelative
    cases hrelative

theorem ofPath?_of_snoc : ofPath? path = some ("file://" ++ String.ofList
    ((ps.tail ++ [Part.name n]).flatMap fun p => '/' :: encodeSegment p.text)) := by
  obtain ⟨inner, rfl, -⟩ := innerParts_of_snoc habsolute hparts
  rw [ofPath?, hparts]
  cases inner <;> rfl

theorem path?_of_snoc {uri : String} (huri : ofPath? path = some uri) : ∃ named qs,
    path? uri = some named ∧ parts (normalize named) = qs ++ [Part.name n] ∧ ∀ p ∈ qs, p ∈ ps := by
  obtain ⟨inner, rfl, hinner⟩ := innerParts_of_snoc habsolute hparts
  have hlast : Part.name n ∈ Path.innerParts path := by simp [hinner]
  have hrest : ∀ p ∈ inner, p ∈ Path.innerParts path := fun p hp => by simp [hinner, hp]
  obtain ⟨names, hresolve, hfrom⟩ := resolve_names (fun p hp => Path.innerParts_cases (hrest p hp))
    (Path.isPiece_of_mem_innerParts hlast) []
  have hleft : ∀ m ∈ names, Part.name m ∈ inner := fun m hm => (hfrom m hm).resolve_left List.not_mem_nil
  have hpieces : ∀ m ∈ names ++ [n], (Part.name m).IsPiece := by
    intro m hm
    refine Path.isPiece_of_mem_innerParts (?_ : Part.name m ∈ Path.innerParts path)
    rcases List.mem_append.mp hm with hm | hm
    · exact hrest _ (hleft m hm)
    · exact List.mem_singleton.mp hm ▸ hlast
  have hnamed : ∀ m ∈ names ++ [n], Path.IsName m := fun m hm => Path.isPiece_name_iff.mp (hpieces m hm)
  have hinside : ∀ s ∈ (inner ++ [Part.name n]).map fun p => encodeSegment p.text, ∀ c ∈ s, Inner c := by
    intro s hs c hc
    obtain ⟨p, -, rfl⟩ := List.mem_map.mp hs
    exact inner_encodeSegment hc
  have hqs : ∀ p ∈ Part.root :: names.map .name, p ∈ Part.root :: inner := by
    intro p hp
    rcases List.mem_cons.mp hp with rfl | hp
    · exact List.mem_cons_self
    · obtain ⟨m, hm, rfl⟩ := List.mem_map.mp hp
      exact List.mem_cons_of_mem _ (hleft m hm)
  have hback := path?_of_resolve hinside (by simp) hpieces hresolve rfl
  rw [List.flatMap_map] at hback
  rw [ofPath?_of_snoc habsolute hparts, Option.some.injEq] at huri
  subst huri
  rcases hback with hback | hback
  · exact ⟨_, _, hback, by rw [Path.parts_normalize_ofNames hnamed (by simp) (.inl rfl)]; simp, hqs⟩
  · exact ⟨_, _, hback, by rw [Path.parts_normalize_ofNames hnamed (by simp) (.inr rfl)]; simp, hqs⟩

end LastName

end FileUri

end BuildServer
