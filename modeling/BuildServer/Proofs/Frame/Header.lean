import BuildServer.Proofs.Frame.Chunking
import BuildServer.Proofs.Json.Numerals
import BuildServer.Proofs.Text.Pieces
import BuildServer.Proofs.Text.Trimming

namespace BuildServer

namespace Frame

open Utf8 (encodeChars decodeChars?_encodeChars decodeChars?_eq_some_iff)
open Json (Digits toNat_digit)

variable {buffer header rest seen bytes : Bytes} {cs line value : List Char} {ls : List (List Char)} {n : Nat}

def Opens (header rest buffer : Bytes) : Prop :=
  buffer = header ++ emptyLine ++ rest ∧
    ∀ before after, buffer = before ++ emptyLine ++ after → header.length ≤ before.length

inductive Lines : List Char → List (List Char) → Prop
  | last {line : List Char} (unbroken : ¬['\r', '\n'] <:+: line) : Lines line [line]
  | more {line cs : List Char} {ls : List (List Char)} (unbroken : ¬['\r', '\n'] <:+: line) (rest : Lines cs ls) :
    Lines (line ++ '\r' :: '\n' :: cs) (line :: ls)

def SizeLine (line value : List Char) : Prop :=
  ∃ name word, line = name ++ ':' :: value ∧ ':' ∉ name ∧ Padded word name ∧
    word.map Char.toLower = "content-length".toList

def SizeValue (cs value : List Char) : Prop :=
  ∃ before line after, Lines cs (before ++ line :: after) ∧ (∀ l ∈ before, ∀ v, ¬SizeLine l v) ∧
    SizeLine line value

def Denotes (value : List Char) (n : Nat) : Prop :=
  ∃ sign digits, Padded (sign ++ digits) value ∧ (sign = [] ∨ sign = ['+']) ∧ Digits digits ∧
    Nat.ofDigitChars 10 digits 0 = n

def Declares (header : Bytes) (n : Nat) : Prop :=
  ∃ cs value, header = encodeChars cs ∧ SizeValue cs value ∧ Denotes value n

section Separator

theorem not_opens_nil (header rest : Bytes) : ¬Opens header rest [] := by
  rintro ⟨h, -⟩
  have hlength := congrArg List.length h
  simp [emptyLine] at hlength

theorem opens_emptyLine_iff {rest' : Bytes} :
    Opens header rest (emptyLine ++ rest') ↔ header = [] ∧ rest = rest' := by
  constructor
  · rintro ⟨h, first⟩
    obtain rfl : header = [] := List.eq_nil_of_length_eq_zero (Nat.le_zero.1 (first [] rest' rfl))
    exact ⟨rfl, (List.append_cancel_left h).symm⟩
  · rintro ⟨rfl, rfl⟩
    exact ⟨rfl, fun before after _ => Nat.zero_le _⟩

theorem opens_cons_iff {b : UInt8} {tail : Bytes} (h : ∀ rest, b :: tail ≠ emptyLine ++ rest) :
    Opens header rest (b :: tail) ↔ ∃ block, header = b :: block ∧ Opens block rest tail := by
  constructor
  · rintro ⟨hbuffer, first⟩
    cases header with
    | nil => exact absurd hbuffer (h rest)
    | cons x block =>
      obtain ⟨rfl, rfl⟩ := List.cons.inj hbuffer
      refine ⟨block, rfl, rfl, fun before after htail => ?_⟩
      have hle := first (b :: before) after (by rw [htail]; rfl)
      simpa using hle
  · rintro ⟨block, rfl, rfl, first⟩
    refine ⟨rfl, fun before after hbuffer => ?_⟩
    cases before with
    | nil => exact absurd hbuffer (h after)
    | cons x before =>
      have hle := first before after (List.cons.inj hbuffer).2
      simpa using hle

theorem opens_of_not_mem (h : 0x0D ∉ header) (rest : Bytes) : Opens header rest (header ++ emptyLine ++ rest) := by
  induction header with
  | nil => exact opens_emptyLine_iff.2 ⟨rfl, rfl⟩
  | cons b header ih =>
    obtain ⟨hb, hheader⟩ := not_or.1 (mt List.mem_cons.2 h)
    refine (opens_cons_iff fun _ hbreak => ?_).2 ⟨header, rfl, ih hheader⟩
    exact hb (List.cons.inj hbreak).1.symm

theorem splitHeader_seen_iff : splitHeader seen buffer = some (header, rest) ↔
    ∃ block, header = seen.reverse ++ block ∧ Opens block rest buffer := by
  fun_induction splitHeader seen buffer with
  | case1 seen => simp [not_opens_nil]
  | case2 seen rest' =>
    have hopens (block : Bytes) :
        Opens block rest (0x0D :: 0x0A :: 0x0D :: 0x0A :: rest') ↔ block = [] ∧ rest = rest' :=
      opens_emptyLine_iff
    simp only [hopens, Option.some.injEq, Prod.mk.injEq]
    constructor
    · rintro ⟨rfl, rfl⟩
      exact ⟨[], by simp⟩
    · rintro ⟨block, rfl, rfl, rfl⟩
      simp
  | case3 seen b tail hne ih =>
    have hopens (block : Bytes) :
        Opens block rest (b :: tail) ↔ ∃ block', block = b :: block' ∧ Opens block' rest tail :=
      opens_cons_iff fun rest' h => hne _ (List.cons.inj h).1 (List.cons.inj h).2
    simp only [ih, hopens, List.reverse_cons]
    constructor
    · rintro ⟨block, rfl, opens⟩
      exact ⟨b :: block, by simp, block, rfl, opens⟩
    · rintro ⟨-, rfl, block, rfl, opens⟩
      exact ⟨block, by simp, opens⟩

theorem splitHeader_eq_some_iff : splitHeader [] buffer = some (header, rest) ↔ Opens header rest buffer := by
  rw [splitHeader_seen_iff]
  simp

end Separator

section Size

theorem not_break_of_not_mem (h : '\r' ∉ line) : ¬['\r', '\n'] <:+: line :=
  fun within => h (within.subset List.mem_cons_self)

def Inside (c : Char) (rest : List Char) : Prop := ∀ after, c = '\r' → rest = '\n' :: after → False

theorem not_unbroken {c : Char} {rest : List Char} (h : ¬['\r', '\n'] <:+: c :: rest) : Inside c rest := by
  rintro after rfl rfl
  exact h ⟨[], after, rfl⟩

theorem splitLines_inside {c : Char} (h : Inside c cs) (line : List Char) :
    splitLines line (c :: cs) = splitLines (c :: line) cs := by
  rw [splitLines]
  exact h

theorem splitLines_first (line cs : List Char) :
    ∃ first others, splitLines [] cs = first :: others ∧ splitLines line cs = (line.reverse ++ first) :: others := by
  induction cs generalizing line with
  | nil => exact ⟨[], [], rfl, by simp [splitLines]⟩
  | cons c rest ih =>
    by_cases hbreak : ∃ after, c = '\r' ∧ rest = '\n' :: after
    · obtain ⟨after, rfl, rfl⟩ := hbreak
      exact ⟨[], splitLines [] after, rfl, by simp [splitLines]⟩
    · have inside : Inside c rest := fun after hc hrest => hbreak ⟨after, hc, hrest⟩
      obtain ⟨first, others, hnil, hline⟩ := ih (c :: line)
      obtain ⟨first', others', hnil', hc⟩ := ih [c]
      obtain ⟨rfl, rfl⟩ := List.cons.inj (hnil.symm.trans hnil')
      exact ⟨c :: first, others, by rw [splitLines_inside inside, hc]; rfl, by
        rw [splitLines_inside inside, hline]
        simp⟩

theorem splitLines_cons {c : Char} {first : List Char} {others : List (List Char)} (h : Inside c cs)
    (hcs : splitLines [] cs = first :: others) : splitLines [] (c :: cs) = (c :: first) :: others := by
  obtain ⟨first', others', hcs', hc⟩ := splitLines_first [c] cs
  obtain ⟨rfl, rfl⟩ := List.cons.inj (hcs.symm.trans hcs')
  rw [splitLines_inside h, hc]
  rfl

theorem splitLines_unbroken (h : ¬['\r', '\n'] <:+: line) : splitLines [] line = [line] := by
  induction line with
  | nil => rfl
  | cons c line ih =>
    rw [splitLines_cons (not_unbroken h) (ih fun hinfix => h (List.infix_cons hinfix))]

theorem splitLines_append (h : ¬['\r', '\n'] <:+: line) (cs : List Char) :
    splitLines [] (line ++ '\r' :: '\n' :: cs) = line :: splitLines [] cs := by
  induction line with
  | nil => rfl
  | cons c line ih =>
    have inside : Inside c (line ++ '\r' :: '\n' :: cs) := by
      rintro after rfl hrest
      cases line with
      | nil => cases hrest
      | cons x line =>
        obtain ⟨rfl, -⟩ := List.cons.inj hrest
        exact h ⟨[], line, rfl⟩
    exact splitLines_cons inside (ih fun hinfix => h (List.infix_cons hinfix))

theorem Lines.cons {c : Char} {first : List Char} {others : List (List Char)} (h : Lines cs (first :: others))
    (inside : Inside c cs) : Lines (c :: cs) ((c :: first) :: others) := by
  have unbroken {line after : List Char} (hline : ¬['\r', '\n'] <:+: line) (hcs : cs = line ++ after) :
      ¬['\r', '\n'] <:+: c :: line := by
    rw [List.infix_cons_iff, not_or]
    refine ⟨?_, hline⟩
    rintro ⟨rest, hrest⟩
    obtain ⟨hc, hrest⟩ := List.cons.inj hrest
    exact inside (rest ++ after) hc.symm (by rw [hcs, ← hrest]; rfl)
  cases h with
  | last hline => exact .last (unbroken hline (List.append_nil _).symm)
  | more hline rest => exact .more (unbroken hline rfl) rest

theorem lines_splitLines (cs : List Char) : Lines cs (splitLines [] cs) := by
  have hempty : ¬['\r', '\n'] <:+: ([] : List Char) := by simp
  induction hn : cs.length using Nat.strongRecOn generalizing cs with
  | ind n ih =>
    cases cs with
    | nil => exact .last hempty
    | cons c rest =>
      rw [List.length_cons] at hn
      by_cases hbreak : ∃ after, c = '\r' ∧ rest = '\n' :: after
      · obtain ⟨after, rfl, rfl⟩ := hbreak
        rw [List.length_cons] at hn
        exact .more hempty (ih after.length (by omega) after rfl)
      · have inside : Inside c rest := fun after hc hrest => hbreak ⟨after, hc, hrest⟩
        obtain ⟨first, others, hrest, -⟩ := splitLines_first [] rest
        have hlines := ih rest.length (by omega) rest rfl
        rw [hrest] at hlines
        rw [splitLines_cons inside hrest]
        exact hlines.cons inside

theorem splitLines_eq_iff : splitLines [] cs = ls ↔ Lines cs ls := by
  constructor
  · rintro rfl
    exact lines_splitLines cs
  · intro h
    induction h with
    | last unbroken => exact splitLines_unbroken unbroken
    | more unbroken _ ih => rw [splitLines_append unbroken, ih]

theorem sizeValue?_eq_some_iff {trimmed : List Char} :
    sizeValue? line = some trimmed ↔ ∃ value, SizeLine line value ∧ trimChars value = trimmed := by
  have hname (name : List Char) : (trimChars name).map Char.toLower = "content-length".toList ↔
      ∃ word, Padded word name ∧ word.map Char.toLower = "content-length".toList := by
    constructor
    · intro h
      exact ⟨trimChars name, padded_trimChars name, h⟩
    · rintro ⟨word, padded, h⟩
      have hblank : ∀ c ∈ "content-length".toList, isBlank c = false := by simp [isBlank]
      rwa [trimChars_eq_iff.2 ⟨padded, trimmed_of_lower (h ▸ hblank)⟩]
  rw [sizeValue?]
  cases hcut : cutAt ':' line with
  | none =>
    constructor
    · rintro ⟨⟩
    · rintro ⟨value, ⟨name, word, hline, hcolon, -⟩, -⟩
      rw [cutAt_eq_some_iff.2 ⟨hline, hcolon⟩] at hcut
      cases hcut
  | some parts =>
    obtain ⟨name, value⟩ := parts
    obtain ⟨hline, hcolon⟩ := cutAt_eq_some_iff.1 hcut
    dsimp only
    rw [Option.ite_none_right_eq_some, hname, Option.some.injEq]
    constructor
    · rintro ⟨⟨word, padded, hword⟩, htrim⟩
      exact ⟨value, ⟨name, word, hline, hcolon, padded, hword⟩, htrim⟩
    · rintro ⟨value', ⟨name', word, hline', hcolon', padded, hword⟩, htrim⟩
      rw [cutAt_eq_some_iff.2 ⟨hline', hcolon'⟩] at hcut
      obtain ⟨rfl, rfl⟩ := Prod.mk.inj (Option.some.inj hcut)
      exact ⟨⟨word, padded, hword⟩, htrim⟩

theorem sizeValue?_eq_none_iff : sizeValue? line = none ↔ ∀ value, ¬SizeLine line value := by
  rw [Option.eq_none_iff_forall_ne_some]
  simp only [ne_eq, sizeValue?_eq_some_iff]
  constructor
  · intro h value hline
    exact h _ ⟨value, hline, rfl⟩
  · rintro h trimmed ⟨value, hline, -⟩
    exact h value hline

theorem findSome?_sizeValue_iff {trimmed : List Char} :
    (splitLines [] cs).findSome? sizeValue? = some trimmed ↔
      ∃ value, SizeValue cs value ∧ trimChars value = trimmed := by
  rw [List.findSome?_eq_some_iff]
  constructor
  · rintro ⟨before, line, after, hlines, hline, hbefore⟩
    obtain ⟨value, hvalue, htrim⟩ := sizeValue?_eq_some_iff.1 hline
    exact ⟨value, ⟨before, line, after, splitLines_eq_iff.1 hlines,
      fun l hl => sizeValue?_eq_none_iff.1 (hbefore l hl), hvalue⟩, htrim⟩
  · rintro ⟨value, ⟨before, line, after, hlines, hbefore, hvalue⟩, htrim⟩
    exact ⟨before, line, after, splitLines_eq_iff.2 hlines, sizeValue?_eq_some_iff.2 ⟨value, hvalue, htrim⟩,
      fun l hl => sizeValue?_eq_none_iff.2 (hbefore l hl)⟩

theorem digitsSize_iff (digits : List Char) :
    (if digits.isEmpty || !digits.all Char.isDigit then none
      else
        let n := digits.foldl (fun n c => n * 10 + (c.toNat - 48)) 0
        if n < Nat.pow 2 64 then some n else none) = some n ↔
      (Digits digits ∧ Nat.ofDigitChars 10 digits 0 = n) ∧ n < Nat.pow 2 64 := by
  have hfold : digits.foldl (fun n c => n * 10 + (c.toNat - 48)) 0 = Nat.ofDigitChars 10 digits 0 := by
    rw [← Json.foldl_values, Json.values, List.foldl_map]
  have hdigits : (digits.isEmpty || !digits.all Char.isDigit) = true ↔ ¬Digits digits := by
    simp [Digits, or_iff_not_imp_left]
  rw [hfold, Option.ite_none_left_eq_some, hdigits, not_not]
  dsimp only
  rw [Option.ite_none_right_eq_some, Option.some.injEq]
  constructor
  · rintro ⟨h, hlt, rfl⟩
    exact ⟨⟨h, rfl⟩, hlt⟩
  · rintro ⟨⟨h, rfl⟩, hlt⟩
    exact ⟨h, hlt, rfl⟩

theorem parseSize?_eq_some_iff : parseSize? cs = some n ↔
    (∃ sign digits, cs = sign ++ digits ∧ (sign = [] ∨ sign = ['+']) ∧ Digits digits ∧
      Nat.ofDigitChars 10 digits 0 = n) ∧ n < Nat.pow 2 64 := by
  by_cases hplus : ∃ rest, cs = '+' :: rest
  · obtain ⟨rest, rfl⟩ := hplus
    rw [parseSize?, digitsSize_iff]
    refine and_congr_left fun _ => ?_
    constructor
    · rintro ⟨hdigits, hn⟩
      exact ⟨['+'], rest, rfl, .inr rfl, hdigits, hn⟩
    · rintro ⟨sign, digits, hcs, rfl | rfl, hdigits, hn⟩
      · obtain rfl : '+' :: rest = digits := hcs
        exact absurd (hdigits.2 '+' List.mem_cons_self) (by decide)
      · obtain rfl := (List.cons.inj hcs).2
        exact ⟨hdigits, hn⟩
  · rw [parseSize?, digitsSize_iff]
    · refine and_congr_left fun _ => ?_
      constructor
      · rintro ⟨hdigits, hn⟩
        exact ⟨[], cs, rfl, .inl rfl, hdigits, hn⟩
      · rintro ⟨sign, digits, rfl, rfl | rfl, hdigits, hn⟩
        · exact ⟨hdigits, hn⟩
        · exact absurd ⟨digits, rfl⟩ hplus
    · intro rest hcs
      exact hplus ⟨rest, hcs⟩

theorem isBlank_digit {c : Char} (h : c.isDigit = true) : isBlank c = false := by
  obtain ⟨hl, hu⟩ := toNat_digit h
  have hall : ∀ n < 58, 48 ≤ n → isBlank (Char.ofNat n) = false := by decide
  have hc := hall c.toNat (by omega) hl
  rwa [Char.ofNat_toNat] at hc

theorem parseSize?_trimChars_iff : parseSize? (trimChars value) = some n ↔ Denotes value n ∧ n < Nat.pow 2 64 := by
  rw [parseSize?_eq_some_iff]
  refine and_congr_left fun _ => ?_
  constructor
  · rintro ⟨sign, digits, h, hsign⟩
    exact ⟨sign, digits, (trimChars_eq_iff.1 h).1, hsign⟩
  · rintro ⟨sign, digits, padded, hsign, hdigits, hn⟩
    have htrimmed : Trimmed (sign ++ digits) := by
      refine trimmed_of_forall fun c hc => ?_
      rcases List.mem_append.1 hc with hc | hc
      · rcases hsign with rfl | rfl
        · cases hc
        · rw [List.mem_singleton.1 hc]
          rfl
      · exact isBlank_digit (hdigits.2 c hc)
    exact ⟨sign, digits, trimChars_eq_iff.2 ⟨padded, htrimmed⟩, hsign, hdigits, hn⟩

theorem declares_encodeChars_iff :
    Declares (encodeChars cs) n ↔ ∃ value, SizeValue cs value ∧ Denotes value n := by
  constructor
  · rintro ⟨cs', value, htext, hvalue⟩
    obtain rfl : cs' = cs := by
      have hcs := decodeChars?_eq_some_iff.2 htext
      rw [decodeChars?_encodeChars] at hcs
      exact (Option.some.inj hcs).symm
    exact ⟨value, hvalue⟩
  · rintro ⟨value, hvalue⟩
    exact ⟨cs, value, rfl, hvalue⟩

theorem bodySize_encodeChars_iff :
    bodySize (encodeChars cs) = .ok n ↔ Declares (encodeChars cs) n ∧ n < Nat.pow 2 64 := by
  rw [bodySize, decodeChars?_encodeChars, declares_encodeChars_iff]
  dsimp only
  cases hfind : (splitLines [] cs).findSome? sizeValue? with
  | none =>
    constructor
    · rintro ⟨⟩
    · rintro ⟨⟨value, hvalue, -⟩, -⟩
      rw [findSome?_sizeValue_iff.2 ⟨value, hvalue, rfl⟩] at hfind
      cases hfind
  | some trimmed =>
    obtain ⟨value, hvalue, rfl⟩ := findSome?_sizeValue_iff.1 hfind
    dsimp only
    trans parseSize? (trimChars value) = some n
    · split
      · next size hsize => simp [hsize]
      · next hnone => simp [hnone]
    rw [parseSize?_trimChars_iff]
    constructor
    · rintro ⟨hn, hlt⟩
      exact ⟨⟨value, hvalue, hn⟩, hlt⟩
    · rintro ⟨⟨value', hvalue', hn⟩, hlt⟩
      -- There is one first size line, so its value is the same but for blanks.
      have hsame := findSome?_sizeValue_iff.2 ⟨value', hvalue', rfl⟩
      rw [hfind] at hsame
      rw [← parseSize?_trimChars_iff, Option.some.inj hsame, parseSize?_trimChars_iff]
      exact ⟨hn, hlt⟩

theorem bodySize_eq_ok_iff : bodySize header = .ok n ↔ Declares header n ∧ n < Nat.pow 2 64 := by
  by_cases htext : ∃ cs, header = encodeChars cs
  · obtain ⟨cs, rfl⟩ := htext
    exact bodySize_encodeChars_iff
  · constructor
    · intro h
      rw [bodySize] at h
      cases hcs : Utf8.decodeChars? header with
      | none =>
        rw [hcs] at h
        cases h
      | some cs => exact absurd ⟨cs, decodeChars?_eq_some_iff.1 hcs⟩ htext
    · rintro ⟨⟨cs, -, h, -⟩, -⟩
      exact absurd ⟨cs, h⟩ htext

theorem bodySize_error {reason : InvalidReason} (h : bodySize header = .error reason) :
    reason = .header ∧ (∀ cs, header ≠ encodeChars cs) ∨
      reason = .contentLength ∧ ∃ cs, header = encodeChars cs := by
  rw [bodySize] at h
  cases hcs : Utf8.decodeChars? header with
  | none =>
    rw [hcs] at h
    refine .inl ⟨(Except.error.inj h).symm, fun cs htext => ?_⟩
    rw [decodeChars?_eq_some_iff.2 htext] at hcs
    cases hcs
  | some cs =>
    rw [hcs] at h
    refine .inr ⟨?_, cs, decodeChars?_eq_some_iff.1 hcs⟩
    dsimp only at h
    split at h
    · exact (Except.error.inj h).symm
    · split at h
      · cases h
      · exact (Except.error.inj h).symm

theorem bodySize_eq_header (h : ∀ cs, header ≠ encodeChars cs) : bodySize header = .error .header := by
  cases hsize : bodySize header with
  | ok n =>
    obtain ⟨⟨cs, -, htext, -⟩, -⟩ := bodySize_eq_ok_iff.1 hsize
    exact absurd htext (h cs)
  | error reason =>
    obtain ⟨rfl, -⟩ | ⟨-, cs, htext⟩ := bodySize_error hsize
    · rfl
    · exact absurd htext (h cs)

theorem bodySize_eq_contentLength (htext : header = encodeChars cs) (h : ∀ n < Nat.pow 2 64, ¬Declares header n) :
    bodySize header = .error .contentLength := by
  cases hsize : bodySize header with
  | ok n =>
    obtain ⟨declared, hlt⟩ := bodySize_eq_ok_iff.1 hsize
    exact absurd declared (h n hlt)
  | error reason =>
    obtain ⟨-, hno⟩ | ⟨rfl, -⟩ := bodySize_error hsize
    · exact absurd htext (hno cs)
    · rfl

end Size

end Frame

end BuildServer
