import Mathlib
import BuildServer.Proofs.Text.Pieces

namespace BuildServer

theorem toLower_eq_iff {c x : Char} (hc : c.isAlpha = false) : x.toLower = c ↔ x = c := by
  have hupper {d : Char} (hd : d.isAlpha = false) : d.toLower = d :=
    Char.toLower_eq_of_not_isUpper fun h => by simp [Char.isAlpha, h] at hd
  constructor
  · rintro rfl
    rw [Char.isAlpha_toLower_eq_isAlpha] at hc
    exact (hupper hc).symm
  · rintro rfl
    exact hupper hc

theorem map_toLower_eq_iff {cs word : List Char} (hword : word.any Char.isAlpha = false) :
    cs.map Char.toLower = word ↔ cs = word := by
  induction word generalizing cs with
  | nil => exact List.map_eq_nil_iff
  | cons c word ih =>
    rw [List.any_cons, Bool.or_eq_false_iff] at hword
    cases cs with
    | nil => simp
    | cons x cs => rw [List.map_cons, List.cons.injEq, List.cons.injEq, toLower_eq_iff hword.1, ih hword.2]

theorem sameAscii_iff {s t : String} :
    sameAscii s t = true ↔ s.toList.map Char.toLower = t.toList.map Char.toLower := by
  rw [sameAscii, beq_iff_eq, lowerAscii, lowerAscii, String.ofList_inj]

theorem toList_lowerAscii (s : String) : (lowerAscii s).toList = s.toList.map Char.toLower :=
  String.toList_ofList

theorem sameAscii_lowerAscii (s t : String) : sameAscii (lowerAscii s) t = sameAscii s t := by
  rw [Bool.eq_iff_iff, sameAscii_iff, sameAscii_iff, toList_lowerAscii, List.map_map]
  simp [Function.comp_def]

theorem pieces_map_toLower {c : Char} (hc : c.isAlpha = false) (cs : List Char) :
    pieces c (cs.map Char.toLower) = (pieces c cs).map (List.map Char.toLower) := by
  induction cs with
  | nil => rfl
  | cons x cs ih =>
    rw [List.map_cons, pieces, pieces, ih]
    simp only [toLower_eq_iff hc]
    split
    · rfl
    · cases pieces c cs <;> rfl

end BuildServer
