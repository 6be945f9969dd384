import BuildServer.Proofs.Path.Parent

namespace BuildServer

namespace Path

def IsName (s : String) : Prop :=
  s ≠ "" ∧ s ≠ "." ∧ s ≠ ".." ∧ '/' ∉ s.toList

/-- A dot, the root, names behind the root, or up parts and names behind them. -/
inductive Canonical : String → Prop
  | here : Canonical "."
  | root : Canonical "/"
  | absolute {names : List String} (nonempty : names ≠ []) (named : ∀ n ∈ names, IsName n) :
      Canonical ("/" ++ String.intercalate "/" names)
  | relative {ups : Nat} {names : List String} (nonempty : List.replicate ups ".." ++ names ≠ [])
      (named : ∀ n ∈ names, IsName n) :
      Canonical (String.intercalate "/" (List.replicate ups ".." ++ names))

theorem isPiece_name_iff {s : String} : (Part.name s).IsPiece ↔ IsName s := by
  have hempty : s.toList.isEmpty ↔ s = "" := by simp
  have hdot : s.toList = ['.'] ↔ s = "." := (String.toList_inj : s.toList = ".".toList ↔ s = ".")
  have hup : s.toList = ['.', '.'] ↔ s = ".." := (String.toList_inj : s.toList = "..".toList ↔ s = "..")
  simp only [Part.IsPiece, IsName, Part.text, partOf?, hempty, hdot, hup, String.ofList_toList]
  split
  · next h => rcases h with rfl | rfl <;> simp
  · next h =>
    rw [not_or] at h
    split
    · next h' => simp [h']
    · next h' => simp [h, h']

def stack (path : String) : List Part :=
  (parts path).foldl push []

theorem normalParts_eq (path : String) : normalParts path = (stack path).reverse := rfl

theorem stacked_stack (path : String) : Stacked (stack path) := stacked_parts path

theorem normalize_eq_of_stack {path path' : String} (h : stack path = stack path') :
    normalize path = normalize path' := by
  rw [normalize, normalize, normalParts_eq, normalParts_eq, h]

theorem normalize_cases (path : String) :
    (stack path = [] ∧ normalize path = ".") ∨
      (stack path ≠ [] ∧ normalize path = ofParts (stack path).reverse ∧
        parts (normalize path) = (stack path).reverse) := by
  by_cases h : stack path = []
  · exact .inl ⟨h, by rw [normalize, normalParts_eq, h]; rfl⟩
  · have hnormal : normalize path = ofParts (stack path).reverse :=
      normalize_of_ne_nil (by simpa [normalParts_eq] using h)
    exact .inr ⟨h, hnormal, by rw [hnormal, parts_ofParts (stacked_stack path) h]⟩

theorem stack_normalize (path : String) : stack (normalize path) = stack path := by
  obtain ⟨h, hnormal⟩ | ⟨-, -, hparts⟩ := normalize_cases path
  · rw [hnormal, h]
    decide
  · rw [stack, hparts, foldl_push_reverse (stacked_stack path)]

theorem texts_names (names : List String) : (names.map Part.name).map Part.text = names := by
  rw [List.map_map]
  exact List.map_id _

theorem ofParts_names (names : List String) :
    ofParts (.root :: names.map .name) = "/" ++ String.intercalate "/" names := by
  rw [ofParts, texts_names]

theorem ofParts_ups (ups : Nat) (names : List String) :
    ofParts (List.replicate ups .up ++ names.map .name) =
      String.intercalate "/" (List.replicate ups ".." ++ names) := by
  have htexts : (List.replicate ups Part.up ++ names.map Part.name).map Part.text =
      List.replicate ups ".." ++ names := by
    rw [List.map_append, List.map_replicate, texts_names]
    rfl
  have hroot : Part.root ∉ List.replicate ups Part.up ++ names.map Part.name := by simp
  rw [← htexts]
  unfold ofParts
  split
  · next h => exact absurd (h ▸ List.mem_cons_self) hroot
  · rfl

theorem canonical_normalize (path : String) : Canonical (normalize path) := by
  obtain ⟨-, hnormal⟩ | ⟨hsome, hnormal, -⟩ := normalize_cases path
  · rw [hnormal]
    exact .here
  · have hne : (stack path).reverse ≠ [] := by simpa using hsome
    obtain ⟨names, hnames, hroot | ⟨ups, hups⟩⟩ := stacked_names (stacked_stack path)
    all_goals have hnamed : ∀ n ∈ names, IsName n := fun n hn => isPiece_name_iff.mp (hnames n hn)
    · rw [hnormal, hroot, ofParts_names]
      by_cases hempty : names = []
      · rw [hempty]
        exact .root
      · exact .absolute hempty hnamed
    · rw [hups] at hne
      rw [hnormal, hups, ofParts_ups]
      exact .relative (by simpa using hne) hnamed

theorem stacked_append {names : List String} {seen : List Part} (h : ∀ n ∈ names, IsName n)
    (hseen : Stacked seen) : Stacked (names.map Part.name ++ seen) := by
  induction names with
  | nil => exact hseen
  | cons n names ih =>
    exact ⟨isPiece_name_iff.mpr (h n List.mem_cons_self), ih fun m hm => h m (List.mem_cons_of_mem _ hm)⟩

theorem normalize_ofParts {seen : List Part} (h : Stacked seen) (hne : seen ≠ []) :
    normalize (ofParts seen.reverse) = ofParts seen.reverse := by
  have hnormal : normalParts (ofParts seen.reverse) = seen.reverse := by
    rw [normalParts, parts_ofParts h hne, foldl_push_reverse h]
  rw [normalize_of_ne_nil (by simpa [hnormal] using hne), hnormal]

theorem Canonical.normalize_eq {path : String} (h : Canonical path) : normalize path = path := by
  cases h with
  | here => decide
  | root => decide
  | @absolute names nonempty named =>
    have hstacked : Stacked (names.reverse.map Part.name ++ [.root]) :=
      stacked_append (by simpa using named) rfl
    have hback := normalize_ofParts hstacked (by simp)
    rwa [List.reverse_append, List.map_reverse, List.reverse_reverse, List.reverse_singleton,
      List.singleton_append, ofParts_names] at hback
  | @relative ups names nonempty named =>
    have hups : Stacked (List.replicate ups Part.up) := by
      cases ups with
      | zero => trivial
      | succ ups => exact fun p hp => List.eq_of_mem_replicate hp
    have hstacked : Stacked (names.reverse.map Part.name ++ List.replicate ups .up) :=
      stacked_append (by simpa using named) hups
    have hback := normalize_ofParts hstacked (by simpa [imp_not_comm] using nonempty)
    rwa [List.reverse_append, List.map_reverse, List.reverse_reverse, List.reverse_replicate,
      ofParts_ups] at hback

theorem normalize_eq_self_iff {path : String} : normalize path = path ↔ Canonical path :=
  ⟨fun h => h ▸ canonical_normalize path, Canonical.normalize_eq⟩

theorem pieces_ofParts {ps : List Part} (h : ∀ p ∈ ps, p.Plain) (hne : ps ≠ []) :
    pieces '/' (ofParts ps).toList = ps.map fun p => p.text.toList := by
  cases ps with
  | nil => exact absurd rfl hne
  | cons p ps => rw [ofParts_cons (h p List.mem_cons_self), toList_join, pieces_join h hne]

theorem pieces_ofParts_root {ps : List Part} (h : ∀ p ∈ ps, p.Plain) (hne : ps ≠ []) :
    pieces '/' (ofParts (.root :: ps)).toList = [] :: ps.map fun p => p.text.toList := by
  rw [toList_ofParts_root, pieces, if_pos rfl, toList_join, pieces_join h hne]

theorem exists_dropLast_pieces (path : String) {P : List Char → Prop} (hempty : ¬P []) (hroot : ¬P ['/']) :
    (∃ piece ∈ (pieces '/' (normalize path).toList).dropLast, P piece) ↔
      ∃ p ∈ (parts (normalize path)).dropLast, P p.text.toList := by
  have htexts (ps : List Part) : (∃ piece ∈ (ps.map fun p => p.text.toList).dropLast, P piece) ↔
      ∃ p ∈ ps.dropLast, P p.text.toList := by
    rw [← List.map_dropLast]
    simp only [List.mem_map, exists_exists_and_eq_and]
  obtain ⟨-, hnormal⟩ | ⟨hsome, hnormal, hparts⟩ := normalize_cases path
  · have hpieces : (pieces '/' (normalize path).toList).dropLast = [] := by
      rw [hnormal]
      decide
    have hdot : (parts (normalize path)).dropLast = [] := by
      rw [hnormal]
      decide
    simp [hpieces, hdot]
  · obtain ⟨ps, hps, hseen | hseen⟩ := stacked_pieces (stacked_stack path)
    all_goals have hplain : ∀ p ∈ ps, p.Plain := fun p hp => (hps p hp).2.plain
    · have hne : ps ≠ [] := by simpa [← hseen] using hsome
      rw [hparts, hnormal, hseen, pieces_ofParts hplain hne, htexts]
    · rw [hparts, hnormal, hseen]
      by_cases hne : ps = []
      · have hpieces : (pieces '/' (ofParts [.root]).toList).dropLast = [[]] := by decide
        simp [hne, hpieces, hempty]
      · rw [pieces_ofParts_root hplain hne, List.dropLast_cons_of_ne_nil (by simpa using hne),
          List.dropLast_cons_of_ne_nil hne]
        simp only [List.mem_cons, or_and_right, exists_or, exists_eq_left, htexts]
        exact or_congr (iff_of_false hempty hroot) Iff.rfl

theorem root_mem_push {seen : List Part} {p : Part} :
    .root ∈ push seen p ↔ .root ∈ seen ∨ p = .root := by
  cases p with
  | up =>
    unfold push
    dsimp only
    split <;> simp
  | root => simp [push]
  | here => simp [push]
  | name s => simp [push]

theorem root_mem_foldl_push {seen ps : List Part} :
    .root ∈ ps.foldl push seen ↔ .root ∈ seen ∨ .root ∈ ps := by
  induction ps generalizing seen with
  | nil => simp
  | cons p ps ih =>
    rw [List.foldl_cons, ih, root_mem_push, List.mem_cons, or_assoc, eq_comm (a := p)]

theorem isAbsolute_iff_root_mem {path : String} : isAbsolute path = true ↔ .root ∈ parts path := by
  have hinner : .root ∉ innerParts path := fun h => (isPiece_of_mem_innerParts h).2 (by decide)
  obtain ⟨habsolute, hparts⟩ | ⟨habsolute, hparts⟩ | ⟨habsolute, hparts⟩ := parts_cases path <;>
    rw [habsolute, hparts] <;> simp [hinner]

theorem isAbsolute_iff_root_mem_stack {path : String} :
    isAbsolute path = true ↔ .root ∈ stack path := by
  rw [isAbsolute_iff_root_mem, stack, root_mem_foldl_push]
  simp

theorem isAbsolute_normalize (path : String) : isAbsolute (normalize path) = isAbsolute path := by
  rw [Bool.eq_iff_iff, isAbsolute_iff_root_mem_stack, isAbsolute_iff_root_mem_stack, stack_normalize]

theorem stack_eq (path : String) :
    stack path = (innerParts path).foldl push (if isAbsolute path then [.root] else []) := by
  obtain ⟨habsolute, hparts⟩ | ⟨habsolute, hparts⟩ | ⟨habsolute, hparts⟩ := parts_cases path <;>
    rw [stack, habsolute, hparts, List.foldl_append] <;> rfl

theorem stack_join (base : String) {path : String} (relative : isAbsolute path = false) :
    stack (join base path) = (innerParts path).foldl push (stack base) := by
  rw [stack_eq, stack_eq, isAbsolute_join relative, innerParts_join relative, List.foldl_append]

theorem normalize_join (base path : String) :
    normalize (join base path) = normalize (join (normalize base) path) := by
  cases relative : isAbsolute path with
  | true => rw [join, join, if_pos relative, if_pos relative]
  | false =>
    apply normalize_eq_of_stack
    rw [stack_join base relative, stack_join _ relative, stack_normalize]

/-- The normal form of a path is canonical, and absolute if the path is; exactly the canonical paths are
their own normal forms; and the normal form can take the place of the path as a base for others. -/
theorem normal_form_canonical (path : String) :
    Canonical (normalize path) ∧ isAbsolute (normalize path) = isAbsolute path ∧
      normalize (normalize path) = normalize path ∧ (normalize path = path ↔ Canonical path) ∧
      ∀ below, normalize (join path below) = normalize (join (normalize path) below) :=
  ⟨canonical_normalize path, isAbsolute_normalize path, normalize_normalize path, normalize_eq_self_iff,
    normalize_join path⟩

end Path

end BuildServer
