import Mathlib.Data.List.TakeWhile
import BuildServer.Text.Blank

namespace BuildServer

variable {text padded : List Char} {c : Char}

def Padded (text padded : List Char) : Prop :=
  ∃ before after, padded = before ++ text ++ after ∧
    (∀ c ∈ before, isBlank c = true) ∧ ∀ c ∈ after, isBlank c = true

structure Trimmed (text : List Char) : Prop where
  head : ∀ c ∈ text.head?, isBlank c = false
  last : ∀ c ∈ text.getLast?, isBlank c = false

theorem trimmed_of_forall (h : ∀ c ∈ text, isBlank c = false) : Trimmed text where
  head c hc := h c (List.mem_of_mem_head? hc)
  last c hc := h c (List.mem_of_mem_getLast? hc)

theorem dropWhile_blank (h : ∀ c ∈ text.head?, isBlank c = false) : text.dropWhile isBlank = text := by
  cases text with
  | nil => rfl
  | cons c cs => exact List.dropWhile_cons_of_neg (by simp [h c rfl])

theorem head_dropWhile_blank (text : List Char) : ∀ c ∈ (text.dropWhile isBlank).head?, isBlank c = false := by
  intro c hc
  have hnot := List.head?_dropWhile_not isBlank text
  rw [hc] at hnot
  simpa using hnot

theorem trimChars_of_padded (h : Padded text padded) (trimmed : Trimmed text) : trimChars padded = text := by
  obtain ⟨before, after, rfl, hbefore, hafter⟩ := h
  have hreverse : ∀ c ∈ after.reverse, isBlank c = true := fun c hc => hafter c (List.mem_reverse.1 hc)
  rw [trimChars, List.append_assoc, List.dropWhile_append_of_pos hbefore]
  cases text with
  | nil =>
    rw [List.nil_append, List.dropWhile_eq_nil_iff.2 hafter]
    rfl
  | cons c cs =>
    rw [List.cons_append, List.dropWhile_cons_of_neg (by simp [trimmed.head c rfl]), ← List.cons_append,
      List.reverse_append, List.dropWhile_append_of_pos hreverse, dropWhile_blank, List.reverse_reverse]
    intro last hlast
    rw [List.head?_reverse] at hlast
    exact trimmed.last last hlast

theorem padded_trimChars (cs : List Char) : Padded (trimChars cs) cs := by
  refine ⟨cs.takeWhile isBlank, ((cs.dropWhile isBlank).reverse.takeWhile isBlank).reverse, ?_,
    fun c hc => List.mem_takeWhile_imp hc, fun c hc => List.mem_takeWhile_imp (List.mem_reverse.1 hc)⟩
  rw [trimChars, List.append_assoc, ← List.reverse_append, List.takeWhile_append_dropWhile,
    List.reverse_reverse, List.takeWhile_append_dropWhile]

theorem trimmed_trimChars (cs : List Char) : Trimmed (trimChars cs) where
  head c hc := by
    -- What is left begins as it did before the blanks at its end were taken.
    refine head_dropWhile_blank cs c ?_
    have hprefix : trimChars cs <+: cs.dropWhile isBlank := by
      rw [trimChars, ← List.reverse_suffix, List.reverse_reverse]
      exact List.dropWhile_suffix _
    obtain ⟨after, hafter⟩ := hprefix
    rw [← hafter, List.head?_append, hc]
    rfl
  last c hc := by
    rw [trimChars, List.getLast?_reverse] at hc
    exact head_dropWhile_blank _ c hc

theorem trimChars_eq_iff : trimChars padded = text ↔ Padded text padded ∧ Trimmed text := by
  constructor
  · rintro rfl
    exact ⟨padded_trimChars padded, trimmed_trimChars padded⟩
  · rintro ⟨h, trimmed⟩
    exact trimChars_of_padded h trimmed

theorem toLower_of_isBlank (h : isBlank c = true) : c.toLower = c := by
  refine dif_neg ?_
  rintro ⟨hlow, hhigh⟩
  have hl : 0x41 ≤ c.toNat := hlow
  have hh : c.toNat ≤ 0x5A := hhigh
  simp only [isBlank, Bool.or_eq_true, Bool.and_eq_true, decide_eq_true_eq, beq_iff_eq] at h
  omega

theorem trimmed_of_lower (h : ∀ c ∈ text.map Char.toLower, isBlank c = false) : Trimmed text := by
  refine trimmed_of_forall fun c hc => ?_
  by_contra hblank
  have hnot := h c.toLower (List.mem_map_of_mem hc)
  rw [toLower_of_isBlank (by simpa using hblank)] at hnot
  exact hblank hnot

end BuildServer
