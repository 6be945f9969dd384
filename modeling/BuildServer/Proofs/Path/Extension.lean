import BuildServer.Proofs.Path.Canonical
import BuildServer.Proofs.Text.LetterCase

namespace BuildServer

namespace Path

variable {path name : String}

theorem fileName?_eq_some_iff :
    fileName? path = some name ↔ ∃ ps, parts path = ps ++ [.name name] := by
  rw [fileName?, ← List.getLast?_eq_some_iff]
  split
  · next s h => simp [h]
  · next h =>
    constructor
    · intro h'
      cases h'
    · intro h'
      exact absurd h' (h name)

theorem takeWhile_dot_iff {cs e : List Char} :
    (cs.reverse.takeWhile (· != '.')).length + 1 < cs.length ∧
        (cs.reverse.takeWhile (· != '.')).reverse = e ↔
      '.' ∉ e ∧ ∃ stem, stem ≠ [] ∧ cs = stem ++ '.' :: e := by
  constructor
  · rintro ⟨hlength, rfl⟩
    have hcut := List.takeWhile_append_dropWhile (p := (· != '.')) (l := cs.reverse)
    refine ⟨fun h => by simpa using List.mem_takeWhile_imp (List.mem_reverse.mp h), ?_⟩
    cases hrest : cs.reverse.dropWhile (· != '.') with
    | nil =>
      rw [hrest, List.append_nil] at hcut
      rw [hcut, List.length_reverse] at hlength
      omega
    | cons x rest =>
      have hx : x = '.' := by
        have hnot := List.head?_dropWhile_not (· != '.') cs.reverse
        rw [hrest] at hnot
        simpa using hnot
      rw [hrest, hx] at hcut
      have hcs := congrArg List.reverse hcut
      rw [List.reverse_reverse, List.reverse_append, List.reverse_cons, List.append_assoc,
        List.singleton_append] at hcs
      refine ⟨rest.reverse, ?_, hcs.symm⟩
      intro hempty
      have hsame := congrArg List.length hcs
      rw [hempty] at hsame
      simp at hsame
      omega
  · rintro ⟨hdot, stem, hstem, rfl⟩
    have hall : ∀ c ∈ e.reverse, (c != '.') = true := by
      intro c hc
      have hne : c ≠ '.' := fun h => hdot (by simpa [h] using hc)
      simpa using hne
    have htake : (stem ++ '.' :: e).reverse.takeWhile (· != '.') = e.reverse := by
      rw [List.reverse_append, List.reverse_cons, List.append_assoc, List.takeWhile_append_of_pos hall]
      simp
    have hlength := List.length_pos_iff.mpr hstem
    rw [htake, List.reverse_reverse, List.length_append, List.length_cons, List.length_reverse]
    exact ⟨by omega, rfl⟩

theorem extension?_eq_some_iff {e : String} : extension? path = some e ↔
    '.' ∉ e.toList ∧ ∃ stem, stem ≠ "" ∧ fileName? path = some (stem ++ "." ++ e) := by
  have hname (name : String) : (∃ stem, stem ≠ "" ∧ name = stem ++ "." ++ e) ↔
      ∃ stem, stem ≠ [] ∧ name.toList = stem ++ '.' :: e.toList := by
    constructor
    · rintro ⟨stem, hstem, rfl⟩
      exact ⟨stem.toList, by simpa using hstem, by simp⟩
    · rintro ⟨stem, hstem, hname⟩
      refine ⟨String.ofList stem, ?_, ?_⟩
      · simpa [← String.toList_inj] using hstem
      · rw [← String.toList_inj, hname]
        simp
  rw [extension?]
  cases hfile : fileName? path with
  | none => simp
  | some name =>
    simp only [Option.bind_eq_bind, Option.bind_some, Option.some.injEq]
    rw [hname name, ← takeWhile_dot_iff, String.length_toList]
    rw [ite_eq_iff]
    simp only [Option.some.injEq, reduceCtorEq, and_false, or_false, ← String.toList_inj,
      String.toList_ofList]

theorem extension?_congr {path' : String} (h : fileName? path = fileName? path') :
    extension? path = extension? path' := by
  rw [extension?, extension?, h]

section LastDot

variable {init : List (List Char)} {before stem e : List Char} (hpath : path.toList = before ++ '.' :: e)
  (hbefore : pieces '/' before = init ++ [stem]) (hne : e ≠ []) (hslash : '/' ∉ e) (hdot : '.' ∉ e)
include hpath hbefore hne hslash hdot

theorem fileName?_of_dot : fileName? path = some (String.ofList (stem ++ '.' :: e)) := by
  have hpieces : pieces '/' path.toList = init ++ [stem ++ '.' :: e] := by
    rw [hpath]
    exact pieces_append_of_not_mem hbefore (by simpa using hslash)
  have hpart : partOf? (stem ++ '.' :: e) = some (.name (String.ofList (stem ++ '.' :: e))) := by
    have hhere : stem ++ '.' :: e ≠ ['.'] := by
      intro h
      have hlength := congrArg List.length h
      have hpos := List.length_pos_iff.mpr hne
      rw [List.length_append, List.length_cons, List.length_singleton] at hlength
      omega
    have hup : stem ++ '.' :: e ≠ ['.', '.'] := by
      intro (h : stem ++ '.' :: e = ['.'] ++ '.' :: [])
      exact hne (eq_of_last hdot List.not_mem_nil h).2
    rw [partOf?, if_neg (by simpa using hhere), if_neg hup]
  have hinner : innerParts path = init.filterMap partOf? ++ [.name (String.ofList (stem ++ '.' :: e))] := by
    rw [innerParts, hpieces, List.filterMap_append, List.filterMap_cons, hpart]
    rfl
  rw [fileName?_eq_some_iff]
  obtain ⟨-, hparts⟩ | ⟨-, hparts⟩ | ⟨-, hparts⟩ := parts_cases path
  all_goals exact ⟨_, by rw [hparts, hinner, List.append_assoc]⟩

theorem extension?_of_dot {extension : String} :
    extension? path = some extension ↔ extension.toList = e ∧ stem ≠ [] := by
  have hname := fileName?_of_dot hpath hbefore hne hslash hdot
  rw [extension?_eq_some_iff]
  constructor
  · rintro ⟨hplain, stem', hstem', hname'⟩
    rw [hname', Option.some.injEq, ← String.toList_inj, String.toList_ofList] at hname
    have hcut : stem'.toList ++ '.' :: extension.toList = stem ++ '.' :: e := by simpa using hname
    obtain ⟨hstem, rfl⟩ := eq_of_last hplain hdot hcut
    exact ⟨rfl, by simpa [← hstem] using hstem'⟩
  · rintro ⟨rfl, hstem⟩
    refine ⟨hdot, String.ofList stem, by simpa using hstem, ?_⟩
    rw [hname, Option.some.injEq, ← String.toList_inj]
    simp

end LastDot

def Part.lower : Part → Part
  | .name s => .name (lowerAscii s)
  | p => p

theorem text_lower (p : Part) : p.lower.text = lowerAscii p.text := by
  cases p with
  | name s => rfl
  | root => decide
  | here => decide
  | up => decide

theorem partOf?_map_toLower (piece : List Char) :
    partOf? (piece.map Char.toLower) = (partOf? piece).map Part.lower := by
  have hdot : piece.map Char.toLower = ['.'] ↔ piece = ['.'] := map_toLower_eq_iff (by decide)
  have hup : piece.map Char.toLower = ['.', '.'] ↔ piece = ['.', '.'] := map_toLower_eq_iff (by decide)
  simp only [partOf?, List.isEmpty_map, hdot, hup]
  split
  · rfl
  · split
    · rfl
    · simp [Part.lower, lowerAscii]

theorem parts_lowerAscii (path : String) : parts (lowerAscii path) = (parts path).map Part.lower := by
  have hpieces : pieces '/' (lowerAscii path).toList =
      (pieces '/' path.toList).map (List.map Char.toLower) := by
    rw [toList_lowerAscii, pieces_map_toLower (by decide)]
  have hinner : (pieces '/' (lowerAscii path).toList).filterMap partOf? =
      ((pieces '/' path.toList).filterMap partOf?).map Part.lower := by
    rw [hpieces, List.filterMap_map, List.map_filterMap]
    exact List.filterMap_congr fun piece _ => partOf?_map_toLower piece
  have habsolute : isAbsolute (lowerAscii path) = isAbsolute path := by
    rw [isAbsolute, isAbsolute, toList_lowerAscii, List.head?_map]
    cases path.toList.head? with
    | none => rfl
    | some c =>
      rw [Bool.eq_iff_iff]
      simp [toLower_eq_iff (c := '/') (by decide)]
  have hhead : ((pieces '/' (lowerAscii path).toList).head? == some ['.']) =
      ((pieces '/' path.toList).head? == some ['.']) := by
    rw [hpieces, List.head?_map]
    cases (pieces '/' path.toList).head? with
    | none => rfl
    | some piece =>
      rw [Bool.eq_iff_iff, Option.map_some, beq_iff_eq, beq_iff_eq, Option.some.injEq, Option.some.injEq]
      exact map_toLower_eq_iff (by decide)
  rw [parts, parts, habsolute, hinner, hhead]
  split
  · rfl
  · split <;> rfl

theorem fileName?_lowerAscii (path : String) :
    fileName? (lowerAscii path) = (fileName? path).map lowerAscii := by
  rw [fileName?, fileName?, parts_lowerAscii, List.getLast?_map]
  cases (parts path).getLast? with
  | none => rfl
  | some p => cases p <;> rfl

theorem extension?_lowerAscii (path : String) :
    extension? (lowerAscii path) = (extension? path).map lowerAscii := by
  rw [extension?, extension?, fileName?_lowerAscii]
  cases fileName? path with
  | none => rfl
  | some name =>
    have hdot (c : Char) : (c.toLower != '.') = (c != '.') := by
      rw [Bool.eq_iff_iff, bne_iff_ne, bne_iff_ne]
      exact not_congr (toLower_eq_iff (by decide))
    have htail : (lowerAscii name).toList.reverse.takeWhile (· != '.') =
        (name.toList.reverse.takeWhile (· != '.')).map Char.toLower := by
      rw [toList_lowerAscii, ← List.map_reverse, List.takeWhile_map]
      simp [Function.comp_def, hdot]
    have hlength : (lowerAscii name).length = name.length := by
      rw [← String.length_toList, toList_lowerAscii, List.length_map, String.length_toList]
    simp only [Option.map_some, Option.bind_eq_bind, Option.bind_some, htail, hlength, List.length_map]
    split
    · rw [Option.map_some, lowerAscii, String.toList_ofList, List.map_reverse]
    · rfl

end Path

end BuildServer
