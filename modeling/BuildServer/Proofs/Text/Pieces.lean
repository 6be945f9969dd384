import Mathlib.Data.List.TakeWhile
import BuildServer.Text.Blank

namespace BuildServer

theorem stripStart?_append (start rest : String) : stripStart? start (start ++ rest) = some rest := by
  have hprefix : start.toList.isPrefixOf (start ++ rest).toList = true := by
    rw [List.isPrefixOf_iff_prefix, String.toList_append]
    exact List.prefix_append _ _
  rw [stripStart?, if_pos hprefix, String.toList_append, ← String.length_toList, List.drop_left,
    String.ofList_toList]

theorem stripStart?_eq_none_iff {start s : String} :
    stripStart? start s = none ↔ ¬start.toList <+: s.toList := by
  simp [stripStart?]

theorem stripStart?_eq_some_iff {start s rest : String} :
    stripStart? start s = some rest ↔ s = start ++ rest := by
  constructor
  · intro h
    have hprefix : start.toList <+: s.toList := by
      by_contra hnot
      rw [stripStart?_eq_none_iff.2 hnot] at h
      cases h
    obtain ⟨tail, htail⟩ := hprefix
    have hs : s = start ++ String.ofList tail := by
      rw [← String.toList_inj, String.toList_append, String.toList_ofList, htail]
    rw [hs, stripStart?_append, Option.some_inj] at h
    rw [hs, h]
  · rintro rfl
    exact stripStart?_append start rest

theorem cutAt_append {c : Char} {before : List Char} (h : c ∉ before) (after : List Char) :
    cutAt c (before ++ c :: after) = some (before, after) := by
  have hall : ∀ x ∈ before, (x != c) = true := by
    intro x hx
    have hne : x ≠ c := fun hc => h (hc ▸ hx)
    simpa using hne
  rw [cutAt, List.dropWhile_append_of_pos hall, List.takeWhile_append_of_pos hall]
  simp

theorem cutAt_eq_some_iff {c : Char} {cs before after : List Char} :
    cutAt c cs = some (before, after) ↔ cs = before ++ c :: after ∧ c ∉ before := by
  constructor
  · intro h
    rw [cutAt] at h
    split at h
    · cases h
    · next x rest hrest =>
      obtain ⟨rfl, rfl⟩ := Prod.mk.inj (Option.some.inj h)
      have hx : x = c := by
        have hnot := List.head?_dropWhile_not (· != c) cs
        rw [hrest] at hnot
        simpa using hnot
      refine ⟨?_, fun hmem => by simpa using List.mem_takeWhile_imp hmem⟩
      rw [hx] at hrest
      rw [← hrest, List.takeWhile_append_dropWhile]
  · rintro ⟨rfl, h⟩
    exact cutAt_append h after

theorem pieces_eq_splitOn (c : Char) (cs : List Char) : pieces c cs = cs.splitOn c := by
  induction cs with
  | nil => rfl
  | cons x xs ih =>
    rw [List.splitOn_cons_eq_if_modifyHead, pieces, ih]
    simp only [beq_iff_eq]
    split
    · rfl
    · cases h : xs.splitOn c with
      | nil => exact absurd h (List.splitOn_ne_nil c xs)
      | cons p ps => rfl

theorem pieces_intercalate {c : Char} {ps : List (List Char)} (hne : ps ≠ []) (h : ∀ p ∈ ps, c ∉ p) :
    pieces c ([c].intercalate ps) = ps := by
  rw [pieces_eq_splitOn]
  exact List.splitOn_intercalate c h hne

theorem intercalate_pieces (c : Char) (cs : List Char) : [c].intercalate (pieces c cs) = cs := by
  rw [pieces_eq_splitOn]
  exact List.intercalate_splitOn c

theorem mem_of_mem_intercalate {c x : Char} {ps : List (List Char)} (h : x ∈ [c].intercalate ps) :
    x = c ∨ ∃ p ∈ ps, x ∈ p := by
  induction ps with
  | nil => cases h
  | cons p ps ih =>
    cases ps with
    | nil => exact .inr ⟨p, List.mem_cons_self, by simpa using h⟩
    | cons q ps =>
      rw [List.intercalate_cons_cons, List.mem_append, List.mem_append] at h
      rcases h with (h | h) | h
      · exact .inr ⟨p, List.mem_cons_self, h⟩
      · exact .inl (List.mem_singleton.1 h)
      · rcases ih h with h | ⟨r, hr, hx⟩
        · exact .inl h
        · exact .inr ⟨r, List.mem_cons_of_mem _ hr, hx⟩

theorem not_mem_piece {c : Char} {cs p : List Char} (h : p ∈ pieces c cs) : c ∉ p := by
  induction cs generalizing p with
  | nil =>
    rw [pieces, List.mem_singleton] at h
    simp [h]
  | cons x xs ih =>
    rw [pieces] at h
    split at h
    · rcases List.mem_cons.1 h with rfl | h
      · exact List.not_mem_nil
      · exact ih h
    · rename_i hx
      split at h
      · rw [List.mem_singleton.1 h, List.mem_singleton]
        exact Ne.symm hx
      · rename_i q qs hq
        rcases List.mem_cons.1 h with rfl | h
        · rw [List.mem_cons, not_or]
          exact ⟨Ne.symm hx, ih (by rw [hq]; exact List.mem_cons_self)⟩
        · exact ih (by rw [hq]; exact List.mem_cons_of_mem _ h)

theorem pieces_of_not_mem {c : Char} {p : List Char} (h : c ∉ p) : pieces c p = [p] := by
  induction p with
  | nil => rfl
  | cons x xs ih =>
    rw [List.mem_cons, not_or] at h
    rw [pieces, if_neg (Ne.symm h.1), ih h.2]

theorem pieces_ne_nil (c : Char) (cs : List Char) : pieces c cs ≠ [] := by
  rw [pieces_eq_splitOn]
  exact List.splitOn_ne_nil _ _

theorem pieces_append_cons (c : Char) (cs rest : List Char) :
    pieces c (cs ++ c :: rest) = pieces c cs ++ pieces c rest := by
  induction cs with
  | nil => simp [pieces]
  | cons x cs ih =>
    rw [List.cons_append, pieces, pieces, ih]
    split
    · rfl
    · cases hcs : pieces c cs with
      | nil => exact absurd hcs (pieces_ne_nil c cs)
      | cons q ps => rfl

theorem pieces_append {c : Char} {p : List Char} (h : c ∉ p) (rest : List Char) :
    pieces c (p ++ c :: rest) = p :: pieces c rest := by
  rw [pieces_append_cons, pieces_of_not_mem h, List.singleton_append]

theorem pieces_concat {c : Char} {p : List Char} (h : c ∉ p) (cs : List Char) :
    pieces c (cs ++ c :: p) = pieces c cs ++ [p] := by
  rw [pieces_append_cons, pieces_of_not_mem h]

theorem eq_of_last {c : Char} {before before' after after' : List Char} (h : c ∉ after) (h' : c ∉ after')
    (htext : before ++ c :: after = before' ++ c :: after') : before = before' ∧ after = after' := by
  have hcut := pieces_concat h before
  rw [htext, pieces_concat h' before'] at hcut
  obtain rfl : after = after' := by simpa using (List.append_inj_right' hcut rfl).symm
  exact ⟨List.append_cancel_right htext, rfl⟩

theorem pieces_flatMap {c : Char} {p : List Char} {ps : List (List Char)} (hp : c ∉ p)
    (hps : ∀ q ∈ ps, c ∉ q) : pieces c (p ++ ps.flatMap (c :: ·)) = p :: ps := by
  induction ps generalizing p with
  | nil => simpa using pieces_of_not_mem hp
  | cons q qs ih =>
    have hq := hps q List.mem_cons_self
    rw [List.flatMap_cons, List.cons_append, pieces_append hp,
      ih hq fun r hr => hps r (List.mem_cons_of_mem _ hr)]

theorem eq_of_pieces {c : Char} {cs p : List Char} {ps : List (List Char)} (h : pieces c cs = p :: ps) :
    cs = p ++ ps.flatMap (c :: ·) := by
  induction cs generalizing p ps with
  | nil =>
    obtain ⟨rfl, rfl⟩ := List.cons.inj h
    rfl
  | cons x xs ih =>
    obtain ⟨q, qs, hq⟩ := List.exists_cons_of_ne_nil (pieces_ne_nil c xs)
    rw [pieces, hq] at h
    split at h
    · next hx =>
      obtain ⟨rfl, rfl⟩ := List.cons.inj h
      rw [ih hq, hx]
      rfl
    · obtain ⟨rfl, rfl⟩ := List.cons.inj h
      rw [ih hq]
      rfl

theorem pieces_append_of_not_mem {c : Char} {cs last tail : List Char} {first : List (List Char)}
    (h : pieces c cs = first ++ [last]) (htail : c ∉ tail) :
    pieces c (cs ++ tail) = first ++ [last ++ tail] := by
  have hpieces : ∀ p ∈ first ++ [last], c ∉ p := fun p hp => not_mem_piece (h ▸ hp)
  have hlast : c ∉ last ++ tail := by
    rw [List.mem_append, not_or]
    exact ⟨hpieces last (by simp), htail⟩
  cases first with
  | nil =>
    have hcs : cs = last := by simpa using eq_of_pieces h
    rw [hcs, pieces_of_not_mem hlast, List.nil_append]
  | cons p ps =>
    have hcs : cs ++ tail = p ++ (ps ++ [last ++ tail]).flatMap (c :: ·) := by
      rw [eq_of_pieces h]
      simp
    rw [hcs, pieces_flatMap (hpieces p (by simp))]
    · rfl
    intro q hq
    rcases List.mem_append.mp hq with hq | hq
    · exact hpieces q (by simp [hq])
    · exact List.mem_singleton.mp hq ▸ hlast

theorem mem_dropLast_pieces {c : Char} {cs d : List Char} : d ∈ (pieces c cs).dropLast ↔
    c ∉ d ∧ ∃ before after, cs = before ++ d ++ c :: after ∧
      (before = [] ∨ ∃ ds, before = ds ++ [c]) := by
  constructor
  · intro h
    refine ⟨not_mem_piece (List.dropLast_subset _ h), ?_⟩
    obtain ⟨first, rest, hpieces⟩ := List.append_of_mem h
    have hlast := List.dropLast_concat_getLast (pieces_ne_nil c cs)
    rw [hpieces, List.append_assoc, List.cons_append] at hlast
    obtain ⟨q, qs, hqs⟩ : ∃ q qs, rest ++ [(pieces c cs).getLast (pieces_ne_nil c cs)] = q :: qs :=
      List.exists_cons_of_ne_nil (by simp)
    rw [hqs] at hlast
    cases first with
    | nil =>
      refine ⟨[], q ++ qs.flatMap (c :: ·), ?_, .inl rfl⟩
      rw [eq_of_pieces hlast.symm]
      simp
    | cons p ps =>
      refine ⟨p ++ ps.flatMap (c :: ·) ++ [c], q ++ qs.flatMap (c :: ·), ?_, .inr ⟨_, rfl⟩⟩
      rw [eq_of_pieces hlast.symm]
      simp
  · rintro ⟨hd, before, after, rfl, hbefore⟩
    have hafter : d ∈ (d :: pieces c after).dropLast := by
      rw [List.dropLast_cons_of_ne_nil (pieces_ne_nil c after)]
      exact List.mem_cons_self
    rcases hbefore with rfl | ⟨ds, rfl⟩
    · rwa [List.nil_append, pieces_append hd]
    · rw [List.append_assoc, List.append_assoc, List.singleton_append, pieces_append_cons, pieces_append hd,
        List.dropLast_append_of_ne_nil (List.cons_ne_nil _ _)]
      exact List.mem_append_right _ hafter

end BuildServer
