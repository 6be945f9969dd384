import BuildServer.Watch.Glob
import BuildServer.Proofs.Text.LetterCase

namespace BuildServer

namespace Glob

variable {ignoreCase : Bool} {cs rest : List Char} {ts : List Token}

def Alike (ignoreCase : Bool) (text taken : List Char) : Prop :=
  text.map (fold ignoreCase) = taken.map (fold ignoreCase)

def Token.Takes (ignoreCase : Bool) : Token → List Char → Prop
  | .char c, taken => Alike ignoreCase [c] taken
  | .star, _ => True
  | .directories, taken => taken = [] ∨ ∃ ds, taken = ds ++ ['/']
  | .below, taken => ∃ ds, taken = '/' :: ds
  | .choice texts, taken => ∃ text ∈ texts, Alike ignoreCase text taken

theorem alike_nil {taken : List Char} : Alike ignoreCase [] taken ↔ taken = [] := by
  rw [Alike, List.map_nil, eq_comm, List.map_eq_nil_iff]

theorem alike_append {first second taken : List Char} : Alike ignoreCase (first ++ second) taken ↔
    ∃ a b, taken = a ++ b ∧ Alike ignoreCase first a ∧ Alike ignoreCase second b := by
  rw [Alike, List.map_append, eq_comm, List.map_eq_append_iff]
  simp only [Alike, eq_comm]

theorem fold_eq_iff {c x : Char} (hc : c.isAlpha = false) : fold ignoreCase x = c ↔ x = c := by
  cases ignoreCase with
  | true => exact toLower_eq_iff hc
  | false => exact Iff.rfl

theorem alike_cons {c : Char} {text taken : List Char} (hc : c.isAlpha = false) :
    Alike ignoreCase (c :: text) taken ↔ ∃ rest, taken = c :: rest ∧ Alike ignoreCase text rest := by
  have hsame : fold ignoreCase c = c := (fold_eq_iff hc).mpr rfl
  cases taken with
  | nil => simp [Alike]
  | cons x taken =>
    rw [Alike, List.map_cons, List.map_cons, List.cons.injEq, hsame, eq_comm, fold_eq_iff hc]
    simp only [List.cons.injEq, and_assoc, exists_and_left, exists_eq_left', Alike]

theorem alike_dot {taken : List Char} : Alike ignoreCase ['.'] taken ↔ taken = ['.'] := by
  rw [alike_cons (by decide)]
  simp only [alike_nil, exists_eq_right]

theorem not_mem_of_alike {c : Char} {text taken : List Char} (hc : c.isAlpha = false) (htext : c ∉ text)
    (h : Alike ignoreCase text taken) : c ∉ taken := by
  intro hmem
  have hlower : c ∈ taken.map (fold ignoreCase) := List.mem_map.mpr ⟨c, hmem, (fold_eq_iff hc).mpr rfl⟩
  rw [← h] at hlower
  obtain ⟨x, hx, hxc⟩ := List.mem_map.mp hlower
  exact htext ((fold_eq_iff hc).mp hxc ▸ hx)

theorem mem_suffixes : rest ∈ suffixes cs ↔ ∃ taken, cs = taken ++ rest := by
  induction cs with
  | nil => simp [suffixes]
  | cons c cs ih =>
    rw [suffixes, List.mem_cons, ih]
    constructor
    · rintro (rfl | ⟨taken, rfl⟩)
      · exact ⟨[], rfl⟩
      · exact ⟨c :: taken, rfl⟩
    · rintro ⟨taken, h⟩
      cases taken with
      | nil => exact .inl h.symm
      | cons x taken => exact .inr ⟨taken, (List.cons.inj h).2⟩

theorem afterSlash?_eq_some_iff : afterSlash? cs = some rest ↔ cs = '/' :: rest := by
  unfold afterSlash?
  split
  · simp
  · next h =>
    constructor
    · intro h'
      cases h'
    · intro h'
      exact absurd h' (h rest)

theorem afterText?_eq_some_iff {text : List Char} : afterText? ignoreCase text cs = some rest ↔
    ∃ taken, cs = taken ++ rest ∧ Alike ignoreCase text taken := by
  induction text generalizing cs with
  | nil => simp [afterText?, alike_nil]
  | cons c text ih =>
    cases cs with
    | nil =>
      simp only [afterText?, reduceCtorEq, false_iff, not_exists, not_and]
      rintro taken h
      obtain ⟨rfl, -⟩ := List.append_eq_nil_iff.mp h.symm
      simp [Alike]
    | cons x cs =>
      rw [afterText?]
      split
      · next hx =>
        rw [ih]
        constructor
        · rintro ⟨taken, rfl, h⟩
          exact ⟨x :: taken, rfl, by rw [Alike, List.map_cons, List.map_cons, hx, h]⟩
        · rintro ⟨taken, htaken, h⟩
          cases taken with
          | nil => simp [Alike] at h
          | cons y taken => exact ⟨taken, (List.cons.inj htaken).2, (List.cons.inj h).2⟩
      · next hx =>
        simp only [reduceCtorEq, false_iff, not_exists, not_and]
        rintro taken htaken h
        cases taken with
        | nil => simp [Alike] at h
        | cons y taken =>
          obtain ⟨rfl, -⟩ := List.cons.inj htaken
          exact hx (List.cons.inj h).1

theorem mem_rests {t : Token} :
    rest ∈ t.rests ignoreCase cs ↔ ∃ taken, cs = taken ++ rest ∧ t.Takes ignoreCase taken := by
  cases t with
  | char c => simp [Token.rests, Token.Takes, afterText?_eq_some_iff]
  | star => simp [Token.rests, Token.Takes, mem_suffixes]
  | directories =>
    simp only [Token.rests, Token.Takes, List.mem_cons, List.mem_filterMap, mem_suffixes,
      afterSlash?_eq_some_iff]
    constructor
    · rintro (rfl | ⟨_, ⟨ds, rfl⟩, rfl⟩)
      · exact ⟨[], rfl, .inl rfl⟩
      · exact ⟨ds ++ ['/'], by simp, .inr ⟨ds, rfl⟩⟩
    · rintro ⟨_, rfl, rfl | ⟨ds, rfl⟩⟩
      · exact .inl rfl
      · exact .inr ⟨_, ⟨ds, by simp⟩, rfl⟩
  | below =>
    simp only [Token.rests, Token.Takes, List.mem_flatMap, Option.mem_toList, mem_suffixes,
      afterSlash?_eq_some_iff]
    constructor
    · rintro ⟨_, rfl, ds, rfl⟩
      exact ⟨'/' :: ds, rfl, ds, rfl⟩
    · rintro ⟨_, rfl, ds, rfl⟩
      exact ⟨ds ++ rest, rfl, ds, rfl⟩
  | choice texts =>
    simp only [Token.rests, Token.Takes, List.mem_filterMap, afterText?_eq_some_iff]
    constructor
    · rintro ⟨text, htext, taken, rfl, h⟩
      exact ⟨taken, rfl, text, htext, h⟩
    · rintro ⟨taken, rfl, text, htext, h⟩
      exact ⟨text, htext, taken, rfl, h⟩

theorem fits_nil : fits ignoreCase [] cs = true ↔ cs = [] := by
  simp [fits]

theorem fits_cons {t : Token} : fits ignoreCase (t :: ts) cs = true ↔
    ∃ taken rest, cs = taken ++ rest ∧ t.Takes ignoreCase taken ∧ fits ignoreCase ts rest = true := by
  simp only [fits, List.any_eq_true, mem_rests]
  constructor
  · rintro ⟨rest, ⟨taken, hcs, h⟩, hrest⟩
    exact ⟨taken, rest, hcs, h, hrest⟩
  · rintro ⟨taken, rest, hcs, h, hrest⟩
    exact ⟨rest, ⟨taken, hcs, h⟩, hrest⟩

theorem fits_chars {text : List Char} : fits ignoreCase (text.map .char ++ ts) cs = true ↔
    ∃ taken rest, cs = taken ++ rest ∧ Alike ignoreCase text taken ∧ fits ignoreCase ts rest = true := by
  induction text generalizing cs with
  | nil =>
    simp only [alike_nil, List.map_nil, List.nil_append]
    constructor
    · intro h
      exact ⟨[], cs, rfl, rfl, h⟩
    · rintro ⟨_, rest, rfl, rfl, h⟩
      exact h
  | cons c text ih =>
    have halike {taken : List Char} : Alike ignoreCase (c :: text) taken ↔
        ∃ a b, taken = a ++ b ∧ Alike ignoreCase [c] a ∧ Alike ignoreCase text b := by
      rw [← List.singleton_append, alike_append]
    simp only [List.map_cons, List.cons_append, fits_cons, ih, Token.Takes, halike]
    constructor
    · rintro ⟨first, _, rfl, hfirst, taken, rest, rfl, htaken, hrest⟩
      exact ⟨first ++ taken, rest, by simp, ⟨first, taken, rfl, hfirst, htaken⟩, hrest⟩
    · rintro ⟨_, rest, rfl, ⟨first, taken, rfl, hfirst, htaken⟩, hrest⟩
      exact ⟨first, taken ++ rest, by simp, hfirst, taken, rest, rfl, htaken, hrest⟩

theorem fits_within {name : List Char} :
    fits ignoreCase (.directories :: (name.map .char ++ [.below])) cs = true ↔
      ∃ before taken after, cs = before ++ taken ++ '/' :: after ∧
        (before = [] ∨ ∃ ds, before = ds ++ ['/']) ∧ Alike ignoreCase name taken := by
  simp only [fits_cons, fits_chars, fits_nil, Token.Takes]
  constructor
  · rintro ⟨before, _, rfl, hbefore, taken, _, rfl, htaken, _, _, rfl, ⟨after, rfl⟩, rfl⟩
    exact ⟨before, taken, after, by simp, hbefore, htaken⟩
  · rintro ⟨before, taken, after, rfl, hbefore, htaken⟩
    exact ⟨before, _, List.append_assoc _ _ _, hbefore, taken, _, rfl, htaken, '/' :: after, [], by simp,
      ⟨after, rfl⟩, rfl⟩

theorem fits_ending {text : List Char} :
    fits ignoreCase (.directories :: .star :: text.map .char) cs = true ↔
      ∃ before taken, cs = before ++ taken ∧ Alike ignoreCase text taken := by
  rw [← List.append_nil (text.map _)]
  simp only [fits_cons, fits_chars, fits_nil, Token.Takes]
  constructor
  · rintro ⟨ds, _, rfl, -, before, _, rfl, -, taken, _, rfl, htaken, rfl⟩
    exact ⟨ds ++ before, taken, by simp, htaken⟩
  · rintro ⟨before, taken, rfl, htaken⟩
    exact ⟨[], _, rfl, .inl rfl, before, _, rfl, trivial, taken, [], by simp, htaken, rfl⟩

theorem fits_chars_only {text : List Char} :
    fits ignoreCase (text.map .char) cs = true ↔ Alike ignoreCase text cs := by
  rw [← List.append_nil (text.map _)]
  simp only [fits_chars, fits_nil]
  constructor
  · rintro ⟨taken, _, rfl, htaken, rfl⟩
    rwa [List.append_nil]
  · intro h
    exact ⟨cs, [], (List.append_nil cs).symm, h, rfl⟩

theorem fits_extension {texts : List (List Char)} :
    fits ignoreCase [.star, .char '.', .choice texts] cs = true ↔
      ∃ stem taken, cs = stem ++ '.' :: taken ∧ ∃ text ∈ texts, Alike ignoreCase text taken := by
  simp only [fits_cons, fits_nil, Token.Takes, alike_dot]
  constructor
  · rintro ⟨stem, _, rfl, -, _, _, rfl, rfl, taken, _, rfl, htaken, rfl⟩
    exact ⟨stem, taken, by simp, htaken⟩
  · rintro ⟨stem, taken, rfl, htaken⟩
    exact ⟨stem, _, rfl, trivial, ['.'], taken, rfl, rfl, taken, [], by simp, htaken, rfl⟩

end Glob

end BuildServer
