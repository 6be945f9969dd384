import BuildServer.Proofs.Path.Resolved

namespace BuildServer

namespace FileUri

open Path (Part normalize)

variable {names : List String} {path file directory root root' uri : String}

def Holds (root uri : String) : Prop :=
  ∃ segment, segment ≠ "" ∧ '/' ∉ segment.toList ∧ uri = root ++ segment

theorem Holds.unique (h : Holds (root ++ "/") uri) (h' : Holds (root' ++ "/") uri) : root = root' := by
  obtain ⟨segment, -, hslash, rfl⟩ := h
  obtain ⟨segment', -, hslash', huri⟩ := h'
  have htext : root.toList ++ '/' :: segment.toList = root'.toList ++ '/' :: segment'.toList := by
    simpa [← String.toList_inj] using huri
  exact String.toList_inj.mp (eq_of_last hslash hslash' htext).1

theorem encodeSegment_injective : Function.Injective encodeSegment := by
  intro s t h
  have hbytes : Utf8.encode s = Utf8.encode t := by
    rw [← decode_encodeSegment, h, decode_encodeSegment]
  rw [← Utf8.decodeLossy_encode s, hbytes, Utf8.decodeLossy_encode]

theorem slash_not_mem (s : String) : '/' ∉ encodeSegment s :=
  fun h => (inner_encodeSegment h).2 rfl

def unslashed (names : List String) : String :=
  "file://" ++ String.ofList ((names.map encodeSegment).flatMap ('/' :: ·))

theorem unslashed_injective : Function.Injective unslashed := by
  intro names names' h
  have htext : (names.map encodeSegment).flatMap ('/' :: ·) =
      (names'.map encodeSegment).flatMap ('/' :: ·) := by
    simpa [unslashed, ← String.toList_inj] using h
  have hpieces (names : List String) :
      pieces '/' ((names.map encodeSegment).flatMap ('/' :: ·)) = [] :: names.map encodeSegment := by
    refine pieces_flatMap (p := []) List.not_mem_nil fun q hq => ?_
    obtain ⟨n, -, rfl⟩ := List.mem_map.mp hq
    exact slash_not_mem n
  have hsegments : [] :: names.map encodeSegment = [] :: names'.map encodeSegment := by
    rw [← hpieces, htext, hpieces]
  exact (List.map_inj_right fun _ _ h => encodeSegment_injective h).mp (List.cons.inj hsegments).2

theorem unslashed_concat (names : List String) (n : String) :
    unslashed (names ++ [n]) = unslashed names ++ "/" ++ String.ofList (encodeSegment n) := by
  simp [unslashed, ← String.toList_inj]

theorem getLast?_unslashed {n : String} (hn : (Part.name n).IsPiece) :
    (unslashed (names ++ [n])).toList.getLast? ≠ some '/' := by
  intro hlast
  rw [unslashed_concat, String.toList_append, String.toList_ofList (l := encodeSegment n),
    List.getLast?_append, List.getLast?_eq_some_getLast (encodeSegment_ne_nil hn), Option.some_or] at hlast
  exact slash_not_mem n (Option.some.inj hlast ▸ List.getLast_mem _)

theorem ofDirectory?_ofNames (named : ∀ n ∈ names, (Part.name n).IsPiece) :
    ofDirectory? (Path.ofParts (.root :: names.map .name)) = some (unslashed names ++ "/") := by
  have hparts := Path.parts_ofNames fun n hn => Path.isPiece_name_iff.mp (named n hn)
  rcases names.eq_nil_or_concat with rfl | ⟨init, n, hnames⟩
  · decide
  · rw [List.concat_eq_append] at hnames
    subst hnames
    rw [ofDirectory?, ofPath?_ofNames (by simp) hparts, Option.map_some, ← unslashed,
      if_neg (by simpa using getLast?_unslashed (named n (by simp)))]

theorem exists_parent (normal : normalize file = file) (document : ofPath? file = some uri)
    (hroot : file ≠ "/") : ∃ names : List String, (∀ n ∈ names, (Part.name n).IsPiece) ∧
      Path.parent? file = some (Path.ofParts (.root :: names.map .name)) ∧
      Holds (unslashed names ++ "/") uri := by
  obtain ⟨names, hfile, hparts, named⟩ := Path.exists_names normal (isAbsolute_of_ofPath? document)
  rcases names.eq_nil_or_concat with rfl | ⟨init, n, hnames⟩
  · exact absurd hfile hroot
  · rw [List.concat_eq_append] at hnames
    subst hnames
    have hn := named n (by simp)
    rw [ofPath?_ofNames (by simp) hparts, ← unslashed, unslashed_concat] at document
    obtain rfl := Option.some.inj document
    refine ⟨init, fun m hm => named m (by simp [hm]), ?_, String.ofList (encodeSegment n), ?_, ?_, rfl⟩
    · exact Path.parent?_of_snoc (.root :: init.map .name) (by simpa using hparts) (by simp)
    · simpa [← String.toList_inj] using encodeSegment_ne_nil hn
    · rw [String.toList_ofList (l := encodeSegment n)]
      exact slash_not_mem n

theorem exists_root (normal : normalize file = file) (document : ofPath? file = some uri)
    (hroot : file ≠ "/") : ∃ directory root, Path.parent? file = some directory ∧
      ofDirectory? directory = some root ∧ Holds root uri := by
  obtain ⟨names, named, hparent, holds⟩ := exists_parent normal document hroot
  exact ⟨_, _, hparent, ofDirectory?_ofNames named, holds⟩

theorem exists_document (absolute : Path.isAbsolute path = true) : ∃ uri, ofPath? path = some uri := by
  obtain ⟨-, hparts⟩ | ⟨hrelative, -⟩ | ⟨hrelative, -⟩ := Path.parts_cases path
  · rw [ofPath?, hparts, List.singleton_append]
    split
    · exact ⟨_, rfl⟩
    · exact ⟨_, rfl⟩
    · next hother => exact absurd rfl (hother _)
  all_goals
    rw [absolute] at hrelative
    cases hrelative

theorem root_cases (normal : normalize file = file) (parent : Path.parent? file = some directory)
    (h : ofDirectory? directory = some root) : ∃ (names : List String) (uri : String), file ≠ "/" ∧
      ofPath? file = some uri ∧ directory = Path.ofParts (.root :: names.map .name) ∧
      root = unslashed names ++ "/" ∧ Holds root uri := by
  obtain ⟨text, htext, -⟩ := Option.map_eq_some_iff.mp h
  have habove : Path.isAbsolute directory = true := isAbsolute_of_ofPath? htext
  have hempty : directory ≠ "" := by
    rintro rfl
    exact absurd habove (by decide)
  obtain ⟨-, -, -, -, hsame⟩ := Path.steps_parent parent hempty
  obtain ⟨uri, document⟩ := exists_document (hsame ▸ habove)
  have hroot : file ≠ "/" := by
    rintro rfl
    have hnone : Path.parent? "/" = none := by decide
    rw [hnone] at parent
    cases parent
  obtain ⟨names, named, hparent, holds⟩ := exists_parent normal document hroot
  obtain rfl := Option.some.inj (parent.symm.trans hparent)
  obtain rfl := Option.some.inj (h.symm.trans (ofDirectory?_ofNames named))
  exact ⟨names, uri, hroot, document, rfl, rfl, holds⟩

section Roots

variable {file' directory' : String} (normal : normalize file = file) (normal' : normalize file' = file')
  (parent : Path.parent? file = some directory) (parent' : Path.parent? file' = some directory')
  (h : ofDirectory? directory = some root)
include normal parent h

theorem slashed_root : ∃ above, root = above ++ "/" := by
  obtain ⟨names, -, -, -, -, hshape, -⟩ := root_cases normal parent h
  exact ⟨_, hshape⟩

include normal' parent'

theorem directory_unique (h' : ofDirectory? directory' = some root) : directory = directory' := by
  obtain ⟨names, -, -, -, rfl, rfl, -⟩ := root_cases normal parent h
  obtain ⟨names', -, -, -, rfl, hsame, -⟩ := root_cases normal' parent' h'
  rw [unslashed_injective ((String.append_left_inj "/").mp hsame)]

end Roots

end FileUri

end BuildServer
