import BuildServer.Files.Tree
import BuildServer.Proofs.Path.Normal

namespace BuildServer

namespace Path

def names (path : String) : List String :=
  ((pieces '/' path.toList).filter (!·.isEmpty)).map String.ofList

theorem steps_eq (path : String) : Files.steps path =
    if path.toList.getLast? == some '/' then names path ++ ["."] else names path :=
  rfl

def innerParts (path : String) : List Part :=
  (pieces '/' path.toList).filterMap partOf?

theorem innerParts_cases {path : String} {p : Part} (h : p ∈ innerParts path) :
    p = .up ∨ ∃ s, p = .name s ∧ p.IsPiece := by
  obtain ⟨piece, hpiece, hpart⟩ := List.mem_filterMap.1 h
  exact isPiece_of_piece hpiece hpart

theorem isPiece_of_mem_innerParts {path : String} {p : Part} (h : p ∈ innerParts path) :
    p.IsPiece := by
  rcases innerParts_cases h with rfl | ⟨s, rfl, hs⟩
  · exact isPiece_up
  · exact hs

theorem partOf?_of_ne {piece : List Char} (hempty : piece ≠ []) (hdot : piece ≠ ['.']) :
    ∃ p, partOf? piece = some p ∧ p.text = String.ofList piece := by
  unfold partOf?
  rw [if_neg (by simp [hempty, hdot])]
  split
  · next hup => exact ⟨.up, rfl, hup ▸ rfl⟩
  · exact ⟨_, rfl, rfl⟩

theorem undotted_names (path : String) :
    (names path).filter (· != ".") = (innerParts path).map Part.text := by
  rw [names, innerParts]
  induction pieces '/' path.toList with
  | nil => rfl
  | cons piece ps ih =>
    by_cases hempty : piece = []
    · rw [hempty]
      exact ih
    by_cases hdot : piece = ['.']
    · rw [hdot]
      exact ih
    obtain ⟨p, hp, htext⟩ := partOf?_of_ne hempty hdot
    have hname : String.ofList piece ≠ "." := fun h =>
      hdot (by rw [← String.toList_ofList (l := piece), h]; rfl)
    rw [List.filter_cons_of_pos (by simpa using hempty), List.map_cons,
      List.filter_cons_of_pos (by simpa using hname), List.filterMap_cons, hp, ih, ← htext]
    rfl

theorem undotted_steps (path : String) :
    (Files.steps path).filter (· != ".") = (innerParts path).map Part.text := by
  rw [steps_eq, ← undotted_names]
  split
  · rw [List.filter_append]
    exact List.append_nil _
  · rfl

theorem getLast?_join {ps : List Part} (h : ∀ p ∈ ps, p.Plain) (hne : ps ≠ []) :
    ∃ c, (['/'].intercalate (ps.map fun p => p.text.toList)).getLast? = some c ∧ c ≠ '/' := by
  induction ps with
  | nil => exact absurd rfl hne
  | cons p ps ih =>
    cases ps with
    | nil =>
      obtain ⟨hempty, hslash⟩ := h p List.mem_cons_self
      refine ⟨p.text.toList.getLast hempty, ?_, fun hc => hslash ?_⟩
      · simp [List.getLast?_eq_some_getLast hempty]
      · exact hc ▸ List.getLast_mem hempty
    | cons q ps =>
      obtain ⟨c, hlast, hc⟩ := ih (fun r hr => h r (List.mem_cons_of_mem _ hr)) (List.cons_ne_nil _ _)
      refine ⟨c, ?_, hc⟩
      rw [List.map_cons] at hlast
      rw [List.map_cons, List.map_cons, List.intercalate_cons_cons, List.getLast?_append, hlast]
      rfl

theorem names_join {ps : List Part} (h : ∀ p ∈ ps, p.Plain) (hne : ps ≠ []) :
    names (String.intercalate "/" (ps.map Part.text)) = ps.map Part.text := by
  have hplain : (ps.map fun p => p.text.toList).filter (!·.isEmpty) = ps.map fun p => p.text.toList := by
    apply List.filter_eq_self.2
    intro cs hcs
    obtain ⟨p, hp, rfl⟩ := List.mem_map.1 hcs
    simpa using (h p hp).1
  rw [names, toList_join, pieces_join h hne, hplain, List.map_map]
  exact List.map_congr_left fun p _ => String.ofList_toList

theorem steps_join {ps : List Part} (h : ∀ p ∈ ps, p.Plain) (hne : ps ≠ []) :
    Files.steps (String.intercalate "/" (ps.map Part.text)) = ps.map Part.text := by
  obtain ⟨c, hlast, hc⟩ := getLast?_join h hne
  rw [steps_eq, toList_join, hlast, if_neg (by simpa using hc), names_join h hne]

theorem mem_of_mem_piece {c x : Char} {cs piece : List Char} (h : piece ∈ pieces c cs)
    (hx : x ∈ piece) : x ∈ cs := by
  induction cs generalizing piece with
  | nil =>
    rw [pieces, List.mem_singleton] at h
    exact h ▸ hx
  | cons y ys ih =>
    rw [pieces] at h
    split at h
    · rcases List.mem_cons.1 h with rfl | h
      · cases hx
      · exact List.mem_cons_of_mem _ (ih h hx)
    · split at h
      · rw [List.mem_singleton.1 h, List.mem_singleton] at hx
        exact hx ▸ List.mem_cons_self
      · next q qs hq =>
        rcases List.mem_cons.1 h with rfl | h
        · rcases List.mem_cons.1 hx with rfl | hx
          · exact List.mem_cons_self
          · exact List.mem_cons_of_mem _ (ih (hq ▸ List.mem_cons_self) hx)
        · exact List.mem_cons_of_mem _ (ih (hq ▸ List.mem_cons_of_mem _ h) hx)

theorem mem_of_mem_text {path : String} {p : Part} (hp : p ∈ innerParts path) {c : Char}
    (hc : c ∈ p.text.toList) : c ∈ path.toList := by
  obtain ⟨piece, hpiece, hpart⟩ := List.mem_filterMap.1 hp
  apply mem_of_mem_piece hpiece
  unfold partOf? at hpart
  split at hpart
  · cases hpart
  · split at hpart
    · next hup =>
      obtain rfl := Option.some.inj hpart
      exact hup ▸ hc
    · obtain rfl := Option.some.inj hpart
      rwa [Part.text, String.toList_ofList] at hc

theorem mem_join {ps : List Part} {c : Char}
    (h : c ∈ (String.intercalate "/" (ps.map Part.text)).toList) :
    c = '/' ∨ ∃ p ∈ ps, c ∈ p.text.toList := by
  rw [toList_join] at h
  rcases mem_of_mem_intercalate h with hc | ⟨cs, hcs, hc⟩
  · exact .inl hc
  · obtain ⟨p, hp, rfl⟩ := List.mem_map.1 hcs
    exact .inr ⟨p, hp, hc⟩

theorem parts_cases (path : String) :
    (isAbsolute path = true ∧ parts path = [.root] ++ innerParts path) ∨
      (isAbsolute path = false ∧ parts path = [.here] ++ innerParts path) ∨
      (isAbsolute path = false ∧ parts path = [] ++ innerParts path) := by
  unfold parts
  dsimp only
  split
  · next habsolute => exact .inl ⟨habsolute, rfl⟩
  · next habsolute =>
    rw [Bool.not_eq_true] at habsolute
    split
    · exact .inr (.inl ⟨habsolute, rfl⟩)
    · exact .inr (.inr ⟨habsolute, rfl⟩)

theorem parent?_of_snoc {path : String} (ps : List Part) {last : Part}
    (h : parts path = ps ++ [last]) (hlast : last ≠ .root) : parent? path = some (ofParts ps) := by
  rw [parent?, h, List.getLast?_append, List.getLast?_singleton, List.dropLast_concat]
  cases last with
  | root => exact absurd rfl hlast
  | here => rfl
  | up => rfl
  | name s => rfl

theorem parent?_cases {path d : String} (h : parent? path = some d) (hd : d ≠ "") :
    ∃ inner last, innerParts path = inner ++ [last] ∧
      ((isAbsolute path = true ∧ d = ofParts (.root :: inner)) ∨
        (isAbsolute path = false ∧ d = ofParts (.here :: inner)) ∨
        (isAbsolute path = false ∧ d = ofParts inner ∧ inner ≠ [])) := by
  have hparts := parts_cases path
  have hpiece : ∀ p ∈ innerParts path, p.IsPiece := fun p hp => isPiece_of_mem_innerParts hp
  generalize innerParts path = ps at hparts hpiece
  rcases ps.eq_nil_or_concat with rfl | ⟨inner, last, hsnoc⟩
  · obtain ⟨-, hparts⟩ | ⟨-, hparts⟩ | ⟨-, hparts⟩ := hparts
    · simp [parent?, hparts] at h
    · rw [parent?_of_snoc [] hparts (by simp)] at h
      exact absurd (Option.some.inj h).symm hd
    · simp [parent?, hparts] at h
  · rw [List.concat_eq_append] at hsnoc
    subst hsnoc
    have hlast : last ≠ .root := by
      rintro rfl
      exact (hpiece .root (by simp)).2 (by decide)
    refine ⟨inner, last, rfl, ?_⟩
    obtain ⟨habsolute, hparts⟩ | ⟨habsolute, hparts⟩ | ⟨habsolute, hparts⟩ := hparts
    · rw [← List.append_assoc] at hparts
      rw [parent?_of_snoc _ hparts hlast] at h
      exact .inl ⟨habsolute, (Option.some.inj h).symm⟩
    · rw [← List.append_assoc] at hparts
      rw [parent?_of_snoc _ hparts hlast] at h
      exact .inr (.inl ⟨habsolute, (Option.some.inj h).symm⟩)
    · rw [← List.append_assoc] at hparts
      rw [parent?_of_snoc _ hparts hlast] at h
      obtain rfl := Option.some.inj h
      exact .inr (.inr ⟨habsolute, rfl, fun hinner => hd (by rw [hinner]; rfl)⟩)

theorem ofParts_cons {p : Part} (h : p.Plain) (ps : List Part) :
    ofParts (p :: ps) = String.intercalate "/" ((p :: ps).map Part.text) := by
  cases p with
  | root => exact absurd h.2 (by decide)
  | here => rfl
  | up => rfl
  | name s => rfl

theorem toList_ofParts_root (ps : List Part) : (ofParts (.root :: ps)).toList =
    '/' :: (String.intercalate "/" (ps.map Part.text)).toList := by
  rw [ofParts, String.toList_append]
  rfl

theorem steps_root {ps : List Part} (h : ∀ p ∈ ps, p.Plain) (hne : ps ≠ []) :
    Files.steps (ofParts (.root :: ps)) = ps.map Part.text := by
  have hnames : names (ofParts (.root :: ps)) = names (String.intercalate "/" (ps.map Part.text)) := by
    rw [names, names, toList_ofParts_root, pieces, if_pos rfl]
    rfl
  obtain ⟨c, hlast, hc⟩ := getLast?_join h hne
  rw [steps_eq, hnames, names_join h hne, toList_ofParts_root, List.getLast?_cons, toList_join, hlast,
    if_neg (by simpa using hc)]

theorem steps_parent {path d : String} (h : parent? path = some d) (hd : d ≠ "") :
    ∃ names last, (Files.steps path).filter (· != ".") = names ++ [last] ∧
      (Files.steps d = names ∨ Files.steps d = "." :: names) ∧ isAbsolute d = isAbsolute path := by
  obtain ⟨inner, last, hinner, hcases⟩ := parent?_cases h hd
  have hmem : ∀ p ∈ inner, p ∈ innerParts path := fun p hp => by simp [hinner, hp]
  have hplain : ∀ p ∈ inner, p.Plain := fun p hp => (isPiece_of_mem_innerParts (hmem p hp)).plain
  refine ⟨inner.map Part.text, last.text, by rw [undotted_steps, hinner]; simp, ?_⟩
  obtain ⟨habsolute, rfl⟩ | ⟨habsolute, rfl⟩ | ⟨habsolute, rfl, hne⟩ := hcases
  · refine ⟨?_, by rw [habsolute, isAbsolute, toList_ofParts_root]; rfl⟩
    by_cases hne : inner = []
    · rw [hne]
      exact .inr (by decide)
    · exact .inl (steps_root hplain hne)
  · have hhere : Part.here.Plain := by
      constructor <;> decide
    have hall : ∀ p ∈ Part.here :: inner, p.Plain := List.forall_mem_cons.2 ⟨hhere, hplain⟩
    rw [ofParts_cons hhere, habsolute]
    exact ⟨.inr (steps_join hall (List.cons_ne_nil _ _)), not_isAbsolute_join hhere⟩
  · cases inner with
    | nil => exact absurd rfl hne
    | cons p ps =>
      have hp := hplain p List.mem_cons_self
      rw [ofParts_cons hp, habsolute]
      exact ⟨.inl (steps_join hplain hne), not_isAbsolute_join hp⟩

theorem mem_ofParts {ps : List Part} {c : Char} (h : c ∈ (ofParts ps).toList) :
    c = '/' ∨ ∃ p ∈ ps, c ∈ p.text.toList := by
  unfold ofParts at h
  split at h
  · rw [String.toList_append] at h
    rcases List.mem_append.1 h with h | h
    · exact .inl (List.mem_singleton.1 h)
    · exact (mem_join h).imp_right fun ⟨p, hp, hc⟩ => ⟨p, List.mem_cons_of_mem _ hp, hc⟩
  · exact mem_join h

theorem mem_parent {path d : String} (h : parent? path = some d) (hd : d ≠ "") {c : Char}
    (hc : c ∈ d.toList) : c = '/' ∨ c = '.' ∨ c ∈ path.toList := by
  obtain ⟨inner, last, hinner, hcases⟩ := parent?_cases h hd
  have hmem : ∀ p ∈ inner, c ∈ p.text.toList → c ∈ path.toList := fun p hp =>
    mem_of_mem_text (by rw [hinner]; simp [hp])
  obtain ⟨-, rfl⟩ | ⟨-, rfl⟩ | ⟨-, rfl, -⟩ := hcases
  · rcases mem_ofParts hc with hc | ⟨p, hp, hc⟩
    · exact .inl hc
    rcases List.mem_cons.1 hp with rfl | hp
    · exact .inl (List.mem_singleton.1 hc)
    · exact .inr (.inr (hmem p hp hc))
  · rcases mem_ofParts hc with hc | ⟨p, hp, hc⟩
    · exact .inl hc
    rcases List.mem_cons.1 hp with rfl | hp
    · exact .inr (.inl (List.mem_singleton.1 hc))
    · exact .inr (.inr (hmem p hp hc))
  · rcases mem_ofParts hc with hc | ⟨p, hp, hc⟩
    · exact .inl hc
    · exact .inr (.inr (hmem p hp hc))

theorem check_eq_ok_iff {path : String} :
    Files.check path = .ok () ↔ path ≠ "" ∧ '\x00' ∉ path.toList := by
  unfold Files.check
  split
  · next h => simp [String.isEmpty_iff.1 h]
  · next h =>
    rw [String.isEmpty_iff] at h
    split
    · next hnul => simpa using fun _ => hnul
    · next hnul => simpa [h] using hnul

theorem check_parent {path d : String} (h : parent? path = some d) (hd : d ≠ "")
    (hcheck : Files.check path = .ok ()) : Files.check d = .ok () := by
  rw [check_eq_ok_iff] at hcheck ⊢
  refine ⟨hd, fun hnul => ?_⟩
  rcases mem_parent h hd hnul with hc | hc | hc
  · exact absurd hc (by decide)
  · exact absurd hc (by decide)
  · exact hcheck.2 hc

theorem suffix_join (base path : String) : path.toList <:+ (join base path).toList := by
  unfold join
  split
  · exact List.suffix_rfl
  · split
    · rw [String.toList_append]
      exact List.suffix_append _ _
    · rw [String.toList_append]
      exact List.suffix_append _ _

section JoinRelative

variable {base path : String} (relative : isAbsolute path = false)
include relative

theorem join_empty : join "" path = path := by
  rw [join, relative]
  rfl

theorem isAbsolute_join : isAbsolute (join base path) = isAbsolute base := by
  by_cases hbase : base = ""
  · rw [hbase, join_empty relative, relative]
    rfl
  · have hhead (rest : List Char) : (base.toList ++ rest).head? = base.toList.head? := by
      rw [List.head?_append, List.head?_eq_some_head (by simpa using hbase), Option.some_or]
    rw [join, relative, if_neg (by simp)]
    split
    · rw [isAbsolute, isAbsolute, String.toList_append, hhead]
    · rw [isAbsolute, isAbsolute, String.toList_append, String.toList_append, List.append_assoc, hhead]

theorem pieces_join_relative (hbase : base ≠ "") : ∃ before, before ≠ [] ∧
    pieces '/' (join base path).toList = before ++ pieces '/' path.toList ∧
    (pieces '/' base.toList = before ∨ pieces '/' base.toList = before ++ [[]]) := by
  rw [join, relative, if_neg (by simp)]
  split
  · next hlast =>
    have hempty : base.isEmpty = false := by simpa using hbase
    rw [hempty, Bool.false_or, beq_iff_eq] at hlast
    obtain ⟨cs, hcs⟩ := List.getLast?_eq_some_iff.mp hlast
    refine ⟨pieces '/' cs, pieces_ne_nil _ _, ?_, .inr ?_⟩
    · rw [String.toList_append, hcs, List.append_assoc]
      exact pieces_append_cons '/' cs path.toList
    · rw [hcs]
      exact pieces_concat (by simp) cs
  · refine ⟨pieces '/' base.toList, pieces_ne_nil _ _, ?_, .inl rfl⟩
    rw [String.toList_append, String.toList_append, List.append_assoc]
    exact pieces_append_cons '/' base.toList path.toList

theorem innerParts_join : innerParts (join base path) = innerParts base ++ innerParts path := by
  by_cases hbase : base = ""
  · rw [hbase, join_empty relative]
    rfl
  · obtain ⟨before, -, hjoin, hbefore⟩ := pieces_join_relative relative hbase
    rw [innerParts, innerParts, innerParts, hjoin, List.filterMap_append]
    congr 1
    rcases hbefore with h | h
    · rw [h]
    · rw [h, List.filterMap_append]
      exact (List.append_nil _).symm

end JoinRelative

section JoinName

variable {base name : String} (hslash : '/' ∉ name.toList) (hne : name ≠ "")
include hslash

theorem isAbsolute_name : isAbsolute name = false := by
  rw [isAbsolute, Bool.eq_false_iff]
  intro h
  rw [beq_iff_eq] at h
  exact hslash (List.mem_of_mem_head? h)

theorem pieces_join_name (hbase : base ≠ "") : ∃ before, before ≠ [] ∧
    pieces '/' (join base name).toList = before ++ [name.toList] ∧
    (pieces '/' base.toList = before ∨ pieces '/' base.toList = before ++ [[]]) := by
  rw [← pieces_of_not_mem hslash]
  exact pieces_join_relative (isAbsolute_name hslash) hbase

theorem join_empty_name : join "" name = name :=
  join_empty (isAbsolute_name hslash)

theorem isAbsolute_join_name : isAbsolute (join base name) = isAbsolute base :=
  isAbsolute_join (isAbsolute_name hslash)

include hne

theorem names_join_name : names (join base name) = names base ++ [name] := by
  have hname : name.toList ≠ [] := by simpa using hne
  by_cases hbase : base = ""
  · rw [hbase, join_empty_name hslash, names, pieces_of_not_mem hslash,
      List.filter_cons_of_pos (by simpa using hname), List.filter_nil, List.map_singleton,
      String.ofList_toList]
    rfl
  · obtain ⟨before, -, hjoin, hbefore⟩ := pieces_join_name hslash hbase
    have hsame : names base = (before.filter (!·.isEmpty)).map String.ofList := by
      rw [names]
      rcases hbefore with h | h
      · rw [h]
      · rw [h, List.filter_append, List.filter_cons_of_neg (by simp), List.filter_nil, List.append_nil]
    rw [hsame, names, hjoin, List.filter_append, List.filter_cons_of_pos (by simpa using hname),
      List.filter_nil, List.map_append, List.map_singleton, String.ofList_toList]

theorem parts_join_name (hdot : name ≠ ".") (hup : name ≠ "..") :
    parts (join base name) = parts base ++ [.name name] := by
  have hdot' : name.toList ≠ ['.'] := fun h => hdot (String.toList_inj.mp h)
  have hup' : name.toList ≠ ['.', '.'] := fun h => hup (String.toList_inj.mp h)
  have hpart : partOf? name.toList = some (.name name) := by
    rw [partOf?, if_neg (by simpa using ⟨hne, hdot'⟩), if_neg hup', String.ofList_toList]
  by_cases hbase : base = ""
  · rw [hbase, join_empty_name hslash, parts, isAbsolute_name hslash, pieces_of_not_mem hslash,
      List.filterMap_cons, hpart]
    dsimp only
    rw [if_neg (by simp), if_neg (by simpa using hdot')]
    rfl
  · obtain ⟨before, hsome, hjoin, hbefore⟩ := pieces_join_name hslash hbase
    have hinner : (pieces '/' base.toList).filterMap partOf? = before.filterMap partOf? := by
      rcases hbefore with h | h
      · rw [h]
      · rw [h, List.filterMap_append]
        exact List.append_nil _
    have hhead : (pieces '/' base.toList).head? = before.head? := by
      rcases hbefore with h | h
      · rw [h]
      · rw [h, List.head?_append, List.head?_eq_some_head hsome, Option.some_or]
    rw [parts, parts, isAbsolute_join_name hslash, hjoin, hinner, hhead, List.filterMap_append,
      List.filterMap_cons, hpart, List.head?_append, List.head?_eq_some_head hsome, Option.some_or]
    dsimp only
    split
    · rfl
    · split <;> rfl

theorem parent?_join_name (hdot : name ≠ ".") (hup : name ≠ "..") :
    parent? (join base name) = some (ofParts (parts base)) :=
  parent?_of_snoc _ (parts_join_name hslash hne hdot hup) (by simp)

end JoinName

theorem not_mem_fileName {path name : String} (h : fileName? path = some name) :
    '/' ∉ name.toList := by
  have hmem : Part.name name ∈ parts path := by
    rw [fileName?] at h
    split at h
    · next s hlast =>
      cases h
      exact List.mem_of_getLast? hlast
    · cases h
  have hinner : Part.name name ∈ innerParts path := by
    obtain ⟨-, hparts⟩ | ⟨-, hparts⟩ | ⟨-, hparts⟩ := parts_cases path <;> rw [hparts] at hmem
    · simpa using hmem
    · simpa using hmem
    · exact hmem
  exact (isPiece_of_mem_innerParts hinner).2

end Path

end BuildServer
