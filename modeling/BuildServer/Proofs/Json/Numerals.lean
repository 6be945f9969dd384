import Mathlib.Data.List.Basic
import BuildServer.Json.Decode
import BuildServer.Proofs.Text.Utf8

namespace BuildServer.Json

open Utf8

section Digits

variable {c : Char} {ds : List Char} {rest : Bytes}

def values (ds : List Char) : List Nat := ds.map fun c => c.toNat - 48

def Digits (ds : List Char) : Prop := ds ≠ [] ∧ ∀ c ∈ ds, c.isDigit = true

def Stops (rest : Bytes) : Prop := ∀ b ∈ rest.head?, isDigit b = false

theorem toNat_digit (h : c.isDigit = true) : 48 ≤ c.toNat ∧ c.toNat ≤ 57 := by
  simp only [Char.isDigit, Bool.and_eq_true, decide_eq_true_eq] at h
  exact ⟨h.1, h.2⟩

theorem encodeChars_digit (h : c.isDigit = true) (cs : List Char) :
    encodeChars (c :: cs) = UInt8.ofNat c.toNat :: encodeChars cs := by
  obtain ⟨-, hc⟩ := toNat_digit h
  rw [encodeChars, List.flatMap_cons, utf8EncodeChar_ascii (by omega)]
  rfl

theorem toNat_ofNat_digit (h : c.isDigit = true) : (UInt8.ofNat c.toNat).toNat = c.toNat := by
  obtain ⟨-, hc⟩ := toNat_digit h
  rw [UInt8.toNat_ofNat']
  omega

theorem isDigit_ofNat (h : c.isDigit = true) : isDigit (UInt8.ofNat c.toNat) = true := by
  obtain ⟨hl, hc⟩ := toNat_digit h
  have hn := toNat_ofNat_digit h
  simp only [isDigit, Bool.and_eq_true, decide_eq_true_eq, UInt8.le_iff_toNat_le, hn]
  exact ⟨hl, hc⟩

theorem Digits.cons_bytes (h : Digits ds) :
    ∃ b bs, encodeChars ds = b :: bs ∧ isDigit b = true := by
  obtain ⟨hne, hall⟩ := h
  cases ds with
  | nil => exact absurd rfl hne
  | cons c ds =>
    have hc := hall c List.mem_cons_self
    exact ⟨_, _, encodeChars_digit hc ds, isDigit_ofNat hc⟩

theorem takeDigits_append (hds : ∀ c ∈ ds, c.isDigit = true) (hrest : Stops rest) :
    takeDigits (encodeChars ds ++ rest) = (values ds, rest) := by
  induction ds with
  | nil =>
    cases rest with
    | nil => rfl
    | cons b rest =>
      have hb := hrest b rfl
      simp [takeDigits, encodeChars, hb, values]
  | cons c ds ih =>
    have hc := hds c List.mem_cons_self
    have h := ih fun c hc => hds c (List.mem_cons_of_mem _ hc)
    simp only [takeDigits, Prod.mk.injEq] at h
    rw [encodeChars_digit hc, List.cons_append, takeDigits,
      List.takeWhile_cons_of_pos (isDigit_ofNat hc), List.dropWhile_cons_of_pos (isDigit_ofNat hc),
      List.map_cons, h.1, h.2, toNat_ofNat_digit hc]
    rfl

theorem readDigits_append (hds : Digits ds) (hrest : Stops rest) :
    readDigits (encodeChars ds ++ rest) = .ok (values ds, rest) := by
  rw [readDigits, takeDigits_append hds.2 hrest]
  cases ds with
  | nil => exact absurd rfl hds.1
  | cons c ds => rfl

theorem readWhole_append (hds : Digits ds) (hzero : ∀ es, ds = '0' :: es → es = [])
    (hrest : Stops rest) : readWhole (encodeChars ds ++ rest) = .ok (values ds, rest) := by
  simp only [readWhole, readDigits_append hds hrest, bind, Except.bind]
  split
  · rename_i y ys heq
    obtain ⟨hne, hall⟩ := hds
    rcases ds with _ | ⟨c, _ | ⟨d, ds⟩⟩
    · exact absurd rfl hne
    · simp [values] at heq
    · simp only [values, List.map_cons, List.cons.injEq] at heq
      obtain ⟨hl, -⟩ := toNat_digit (hall c List.mem_cons_self)
      have hc : c = '0' := Char.toNat_inj.mp (show c.toNat = 48 by omega)
      cases hzero (d :: ds) (by rw [hc])
  · rfl

end Digits

structure Exponent where
  letter : Char
  sign : Option Char
  digits : List Char

namespace Exponent

def chars (e : Exponent) : List Char := e.letter :: (e.sign.toList ++ e.digits)

def negative (e : Exponent) : Bool := e.sign == some '-'

structure Valid (e : Exponent) : Prop where
  letter : e.letter = 'e' ∨ e.letter = 'E'
  sign : e.sign = none ∨ e.sign = some '+' ∨ e.sign = some '-'
  digits : Digits e.digits

end Exponent

structure Spelling where
  negative : Bool
  whole : List Char
  fraction : Option (List Char)
  exponent : Option Exponent

namespace Spelling

def signed (negative : Bool) (ds : List Char) : List Char :=
  if negative then '-' :: ds else ds

def fractionChars : Option (List Char) → List Char
  | none => []
  | some ds => '.' :: ds

def exponentChars : Option Exponent → List Char
  | none => []
  | some e => e.chars

def chars (s : Spelling) : List Char :=
  signed s.negative s.whole ++ (fractionChars s.fraction ++ exponentChars s.exponent)

def numeral (s : Spelling) : Numeral :=
  ⟨s.negative, values s.whole, s.fraction.map values, s.exponent.map fun e => (e.negative, values e.digits)⟩

def integer? (s : Spelling) : Option Int :=
  match s.fraction, s.exponent, Nat.ofDigitChars 10 s.whole 0 with
  | none, none, n => if s.negative then if n = 0 then none else some (-n) else some n
  | _, _, _ => none

structure Valid (s : Spelling) : Prop where
  whole : Digits s.whole
  zero : ∀ ds, s.whole = '0' :: ds → ds = []
  fraction : ∀ ds ∈ s.fraction, Digits ds
  exponent : ∀ e ∈ s.exponent, e.Valid

end Spelling

def Ends (rest : Bytes) : Prop :=
  ∀ b ∈ rest.head?, isDigit b = false ∧ b ≠ 0x2E ∧ b ≠ 0x65 ∧ b ≠ 0x45

section Numerals

variable {rest : Bytes}

theorem Ends.stops (h : Ends rest) : Stops rest :=
  fun b hb => (h b hb).1

theorem Exponent.Valid.cons_bytes {e : Exponent} (he : e.Valid) :
    ∃ b bs, encodeChars e.chars = b :: bs ∧ (b = 0x65 ∨ b = 0x45) := by
  rw [Exponent.chars]
  rcases he.letter with h | h
  · exact ⟨_, _, by rw [h]; rfl, .inl rfl⟩
  · exact ⟨_, _, by rw [h]; rfl, .inr rfl⟩

theorem stops_exponent {e : Option Exponent} (he : ∀ x ∈ e, x.Valid) (hrest : Ends rest) :
    Stops (encodeChars (Spelling.exponentChars e) ++ rest) ∧
      ∀ b ∈ (encodeChars (Spelling.exponentChars e) ++ rest).head?, b ≠ 0x2E := by
  cases e with
  | none => exact ⟨hrest.stops, fun b hb => (hrest b hb).2.1⟩
  | some e =>
    obtain ⟨b, bs, hbytes, hb⟩ := (he e rfl).cons_bytes
    have hhead : ∀ x ∈ (encodeChars (Spelling.exponentChars (some e)) ++ rest).head?, x = b := by
      intro x hx
      rw [Spelling.exponentChars, hbytes] at hx
      exact (Option.some.inj hx).symm
    refine ⟨fun x hx => ?_, fun x hx => ?_⟩
    · rw [hhead x hx]
      rcases hb with rfl | rfl <;> rfl
    · rw [hhead x hx]
      rcases hb with rfl | rfl <;> decide

theorem stops_fraction (f : Option (List Char)) (hrest : Stops rest) :
    Stops (encodeChars (Spelling.fractionChars f) ++ rest) := by
  cases f with
  | none => exact hrest
  | some ds =>
    intro b hb
    obtain rfl : (0x2E : UInt8) = b := Option.some.inj hb
    rfl

theorem readExponent_append {e : Option Exponent} (he : ∀ x ∈ e, x.Valid) (hrest : Ends rest) :
    readExponent (encodeChars (Spelling.exponentChars e) ++ rest) =
      .ok (e.map fun x => (x.negative, values x.digits), rest) := by
  cases e with
  | none =>
    cases rest with
    | nil => rfl
    | cons b rest =>
      obtain ⟨-, -, hl, hu⟩ := hrest b rfl
      simp [Spelling.exponentChars, encodeChars, readExponent, hl, hu, pure, Except.pure]
  | some e =>
    obtain ⟨letter, sign, ds⟩ := e
    obtain ⟨hletter, hsign, hds⟩ := he _ rfl
    dsimp only at hletter hsign hds
    have hread := readDigits_append hds hrest.stops
    obtain ⟨x, hx, hbytes⟩ : ∃ x : UInt8, (x = 0x65 ∨ x = 0x45) ∧
        encodeChars (Exponent.chars ⟨letter, sign, ds⟩) = x :: encodeChars (sign.toList ++ ds) := by
      rcases hletter with rfl | rfl
      · exact ⟨0x65, .inl rfl, rfl⟩
      · exact ⟨0x45, .inr rfl, rfl⟩
    rw [Spelling.exponentChars, hbytes, encodeChars_append, List.cons_append, List.append_assoc]
    rcases hsign with rfl | rfl | rfl
    · obtain ⟨b, bs, hb, hdigit⟩ := hds.cons_bytes
      have hnone : encodeChars (Option.toList none) = [] := rfl
      rw [hnone, List.nil_append, readExponent, if_pos hx]
      rw [hb, List.cons_append] at hread ⊢
      · simp only [hread, bind, Except.bind]
        rfl
      -- No digit is a sign.
      all_goals
        intro rest' h
        rw [hb] at h
        rw [(List.cons.inj h).1] at hdigit
        cases hdigit
    · have hplus : encodeChars (some '+').toList = [0x2B] := rfl
      rw [hplus, List.singleton_append, readExponent, if_pos hx]
      simp only [hread, bind, Except.bind]
      rfl
    · have hminus : encodeChars (some '-').toList = [0x2D] := rfl
      rw [hminus, List.singleton_append, readExponent, if_pos hx]
      simp only [hread, bind, Except.bind]
      rfl

theorem readFraction_append {f : Option (List Char)} (hf : ∀ ds ∈ f, Digits ds)
    (hrest : Stops rest) (hpoint : ∀ b ∈ rest.head?, b ≠ 0x2E) :
    readFraction (encodeChars (Spelling.fractionChars f) ++ rest) = .ok (f.map values, rest) := by
  cases f with
  | none =>
    cases rest with
    | nil => rfl
    | cons b rest =>
      have hb := hpoint b rfl
      simp [Spelling.fractionChars, encodeChars, readFraction, hb, pure, Except.pure]
  | some ds =>
    have hbytes : encodeChars (Spelling.fractionChars (some ds)) = 0x2E :: encodeChars ds := rfl
    rw [hbytes, List.cons_append, readFraction]
    simp only [readDigits_append (hf ds rfl) hrest, bind, Except.bind]
    rfl

theorem readNumeral_append {s : Spelling} (hs : s.Valid) (hrest : Ends rest) :
    readNumeral (encodeChars s.chars ++ rest) = .ok (s.numeral, rest) := by
  have hexponent := readExponent_append hs.exponent hrest
  obtain ⟨hstops, hpoint⟩ := stops_exponent hs.exponent hrest
  have hfraction := readFraction_append hs.fraction hstops hpoint
  have hwhole := readWhole_append hs.whole hs.zero (stops_fraction s.fraction hstops)
  rw [Spelling.chars, encodeChars_append, encodeChars_append, List.append_assoc, List.append_assoc]
  cases hn : s.negative with
  | true =>
    have hbytes : encodeChars (Spelling.signed true s.whole) = 0x2D :: encodeChars s.whole := rfl
    rw [hbytes, List.cons_append, readNumeral]
    simp only [hwhole, hfraction, hexponent, bind, Except.bind]
    rw [Spelling.numeral, hn]
    rfl
  | false =>
    have hbytes : encodeChars (Spelling.signed false s.whole) = encodeChars s.whole := rfl
    obtain ⟨b, bs, hb, hdigit⟩ := hs.whole.cons_bytes
    rw [hbytes, hb, List.cons_append, readNumeral]
    · rw [hb, List.cons_append] at hwhole
      simp only [hwhole, hfraction, hexponent, bind, Except.bind]
      rw [Spelling.numeral, hn]
      rfl
    · intro rest' h
      rw [(List.cons.inj h).1] at hdigit
      cases hdigit

theorem Spelling.Valid.cons_bytes {s : Spelling} (hs : s.Valid) :
    ∃ b bs, encodeChars s.chars = b :: bs ∧ (b = 0x2D ∨ isDigit b = true) := by
  rw [Spelling.chars, encodeChars_append]
  cases s.negative with
  | true => exact ⟨_, _, rfl, .inl rfl⟩
  | false =>
    obtain ⟨b, bs, hb, hdigit⟩ := hs.whole.cons_bytes
    have hbytes : encodeChars (Spelling.signed false s.whole) = encodeChars s.whole := rfl
    exact ⟨b, _, by rw [hbytes, hb, List.cons_append], .inr hdigit⟩

end Numerals

section Integers

theorem digits_toDigits (n : Nat) : Digits (Nat.toDigits 10 n) :=
  ⟨Nat.toDigits_ne_nil, fun _ hc => Nat.isDigit_of_mem_toDigits (by decide) (by decide) hc⟩

theorem eq_zero_of_toDigits {n : Nat} {ds : List Char} (h : Nat.toDigits 10 n = '0' :: ds) :
    n = 0 := by
  induction n using Nat.strongRecOn generalizing ds with
  | _ n ih =>
    rw [Nat.toDigits_eq_if (by decide)] at h
    split at h
    · rename_i hn
      have hzero : ∀ d < 10, Nat.digitChar d = '0' → d = 0 := by decide
      exact hzero n hn (List.cons.inj h).1
    · cases hq : Nat.toDigits 10 (n / 10) with
      | nil => exact absurd hq Nat.toDigits_ne_nil
      | cons c cs =>
        rw [hq, List.cons_append] at h
        obtain ⟨rfl, -⟩ := List.cons.inj h
        have := ih (n / 10) (by omega) hq
        omega

theorem zero_toDigits {n : Nat} {ds : List Char} (h : Nat.toDigits 10 n = '0' :: ds) : ds = [] := by
  obtain rfl := eq_zero_of_toDigits h
  exact (List.cons.inj h).2.symm

theorem gather_done {n w : Nat} {ds : List Nat} (h : gather n ds = (w, [])) :
    w = ds.foldl (fun n d => n * 10 + d) n := by
  induction ds generalizing n with
  | nil => exact (Prod.mk.inj h).1.symm
  | cons d ds ih =>
    rw [gather] at h
    split at h
    · exact ih h
    · cases h

theorem foldl_values (ds : List Char) (n : Nat) :
    (values ds).foldl (fun n d => n * 10 + d) n = Nat.ofDigitChars 10 ds n := by
  rw [values, List.foldl_map, Nat.ofDigitChars]
  congr 1
  funext n c
  rw [Nat.mul_comm]
  rfl

theorem le_foldl (ds : List Nat) (n : Nat) : n ≤ ds.foldl (fun n d => n * 10 + d) n := by
  induction ds generalizing n with
  | nil => exact Nat.le_refl n
  | cons d ds ih =>
    have := ih (n * 10 + d)
    rw [List.foldl_cons]
    omega

theorem gather_of_lt {n : Nat} {ds : List Nat} (h : ds.foldl (fun n d => n * 10 + d) n < Nat.pow 2 64) :
    gather n ds = (ds.foldl (fun n d => n * 10 + d) n, []) := by
  induction ds generalizing n with
  | nil => rfl
  | cons d ds ih =>
    have hle := le_foldl ds (n * 10 + d)
    rw [List.foldl_cons] at h ⊢
    rw [gather, if_pos (by omega), ih h]

theorem floatOf_ne_int {negative : Bool} {m : Nat} {e : Int} (n : Int) :
    floatOf negative m e ≠ .ok (.int n) := by
  rw [floatOf]
  split <;> simp

def spellingOfInt (n : Int) : Spelling :=
  ⟨n < 0, Nat.toDigits 10 n.natAbs, none, none⟩

theorem chars_spellingOfInt (n : Int) : (toString n).toList = (spellingOfInt n).chars := by
  rw [Int.toString_eq_repr, Int.repr_eq_if]
  split
  · have hn : n.toNat = n.natAbs := by omega
    have hneg : ¬n < 0 := by omega
    simp [spellingOfInt, Spelling.chars, Spelling.signed, Spelling.fractionChars,
      Spelling.exponentChars, hn, hneg]
  · have hn : (-n).toNat = n.natAbs := by omega
    have hneg : n < 0 := by omega
    simp [spellingOfInt, Spelling.chars, Spelling.signed, Spelling.fractionChars,
      Spelling.exponentChars, hn, hneg]

theorem valid_spellingOfInt (n : Int) : (spellingOfInt n).Valid where
  whole := digits_toDigits _
  zero _ h := zero_toDigits h
  fraction := by simp [spellingOfInt]
  exponent := by simp [spellingOfInt]

theorem integer?_spellingOfInt (n : Int) : (spellingOfInt n).integer? = some n := by
  simp only [Spelling.integer?, spellingOfInt, Nat.ofDigitChars_ten_toDigits, decide_eq_true_eq]
  split
  · rw [if_neg (by omega)]
    congr 1
    omega
  · congr 1
    omega

theorem parts_of_integer? {s : Spelling} {n : Int} (h : s.integer? = some n) :
    s.fraction = none ∧ s.exponent = none ∧ n.natAbs = Nat.ofDigitChars 10 s.whole 0 ∧
      (s.negative = true ↔ n < 0) := by
  obtain ⟨negative, whole, fraction, exponent⟩ := s
  simp only [Spelling.integer?] at h
  split at h
  · refine ⟨rfl, rfl, ?_⟩
    dsimp only
    split at h
    · rename_i hneg
      split at h
      · cases h
      · have := Option.some.inj h
        exact ⟨by omega, by simp only [hneg, true_iff]; omega⟩
    · rename_i hneg
      have := Option.some.inj h
      exact ⟨by omega, by simp only [hneg, Bool.false_eq_true, false_iff]; omega⟩
  · cases h

theorem number_of_integer? {s : Spelling} {n : Int} (h : s.integer? = some n) (hlow : -0x8000000000000000 ≤ n)
    (hhigh : n < 0x10000000000000000) : s.numeral.number = .ok (.int n) := by
  obtain ⟨hfraction, hexponent, hwhole, hneg⟩ := parts_of_integer? h
  have hpow : Nat.pow 2 64 = 0x10000000000000000 := rfl
  have hpow' : Nat.pow 2 63 = 0x8000000000000000 := rfl
  have hgather : gather 0 (values s.whole) = (n.natAbs, []) := by
    rw [gather_of_lt (by rw [foldl_values, ← hwhole]; omega), foldl_values, ← hwhole]
  simp only [Numeral.number, Spelling.numeral, hfraction, hexponent, Option.map_none, hgather]
  split
  · rename_i hs
    have hn := hneg.mp hs
    rw [if_neg (by omega)]
    congr 2
    omega
  · rename_i hs
    have hn : ¬n < 0 := fun hn => hs (hneg.mpr hn)
    congr 2
    omega

theorem number_spellingOfInt {n m : Int} (h : (spellingOfInt n).numeral.number = .ok (.int m)) :
    m = n := by
  simp only [Numeral.number, Spelling.numeral, spellingOfInt, Option.map_none] at h
  rcases hg : gather 0 (values (Nat.toDigits 10 n.natAbs)) with ⟨w, left⟩
  simp only [hg] at h
  cases left with
  | cons d ds => exact absurd h (floatOf_ne_int m)
  | nil =>
    have hw := gather_done hg
    rw [foldl_values, Nat.ofDigitChars_ten_toDigits] at hw
    subst hw
    dsimp only at h
    split at h
    · rename_i hneg
      rw [decide_eq_true_eq] at hneg
      split at h
      · exact absurd h (floatOf_ne_int m)
      · have hm := Number.int.inj (Except.ok.inj h)
        omega
    · rename_i hneg
      rw [decide_eq_true_eq] at hneg
      have hm := Number.int.inj (Except.ok.inj h)
      omega

end Integers

section Fractions

theorem number_ne_int {s : Spelling} (hs : s.fraction.isSome ∨ s.exponent.isSome) (m : Int) :
    s.numeral.number ≠ .ok (.int m) := by
  rcases s with ⟨negative, whole, fraction, exponent⟩
  rw [Numeral.number]
  rcases hg : gather 0 (values whole) with ⟨w, left⟩
  simp only [Spelling.numeral, hg]
  rcases exponent with _ | e
  · cases fraction with
    | none => simp at hs
    | some ds => exact floatOf_ne_int m
  · rw [Option.map_some]
    cases e.negative with
    | true => cases fraction <;> exact floatOf_ne_int m
    | false => cases fraction <;> exact floatOf_ne_int m

theorem toList_toString (n : Nat) : (toString n).toList = Nat.toDigits 10 n := by
  simp

theorem isDigit_of_mem_replicate {n : Nat} {c : Char} (h : c ∈ List.replicate n '0') :
    c.isDigit = true := by
  rw [List.eq_of_mem_replicate h]
  decide

theorem Digits.append_zeros {ds : List Char} (h : Digits ds) (n : Nat) :
    Digits (ds ++ List.replicate n '0') := by
  refine ⟨by simp [h.1], fun c hc => ?_⟩
  rcases List.mem_append.1 hc with hc | hc
  · exact h.2 c hc
  · exact isDigit_of_mem_replicate hc

theorem Digits.zeros_append {ds : List Char} (h : Digits ds) (n : Nat) :
    Digits (List.replicate n '0' ++ ds) := by
  refine ⟨by simp [h.1], fun c hc => ?_⟩
  rcases List.mem_append.1 hc with hc | hc
  · exact isDigit_of_mem_replicate hc
  · exact h.2 c hc

theorem Digits.take {ds : List Char} {n : Nat} (h : Digits ds) (hn : 0 < n) : Digits (ds.take n) := by
  refine ⟨fun he => h.1 ?_, fun c hc => h.2 c (List.mem_of_mem_take hc)⟩
  rw [List.take_eq_nil_iff] at he
  exact he.resolve_left (by omega)

theorem Digits.drop {ds : List Char} {n : Nat} (h : Digits ds) (hn : n < ds.length) :
    Digits (ds.drop n) := by
  refine ⟨fun he => ?_, fun c hc => h.2 c (List.mem_of_mem_drop hc)⟩
  rw [List.drop_eq_nil_iff] at he
  omega

theorem head_toDigits {n : Nat} (hn : n ≠ 0) : ∃ c cs, Nat.toDigits 10 n = c :: cs ∧ c ≠ '0' := by
  cases h : Nat.toDigits 10 n with
  | nil => exact absurd h Nat.toDigits_ne_nil
  | cons c cs =>
    refine ⟨c, cs, rfl, fun hc => hn ?_⟩
    rw [hc] at h
    exact eq_zero_of_toDigits h

theorem lead_cons {c : Char} (hc : c ≠ '0') (cs es : List Char) (h : c :: cs = '0' :: es) : es = [] :=
  absurd (List.cons.inj h).1 hc

def Fractional (cs : List Char) : Prop :=
  ∃ s : Spelling, s.Valid ∧ s.negative = false ∧ (s.fraction.isSome ∨ s.exponent.isSome) ∧ cs = s.chars

theorem Fractional.point {whole ds : List Char} (hw : Digits whole)
    (hz : ∀ es, whole = '0' :: es → es = []) (hds : Digits ds) : Fractional (whole ++ '.' :: ds) := by
  refine ⟨⟨false, whole, some ds, none⟩, ⟨hw, hz, ?_, ?_⟩, rfl, .inl rfl, ?_⟩
  · rintro _ ⟨⟩
    exact hds
  · rintro _ ⟨⟩
  · simp [Spelling.chars, Spelling.signed, Spelling.fractionChars, Spelling.exponentChars]

theorem Fractional.exponent {whole : List Char} (fraction : Option (List Char)) (hw : Digits whole)
    (hz : ∀ es, whole = '0' :: es → es = []) (hf : ∀ ds ∈ fraction, Digits ds) (e : Int) :
    Fractional (whole ++ (Spelling.fractionChars fraction ++ 'e' :: (toString e).toList)) := by
  refine ⟨⟨false, whole, fraction, some ⟨'e', if e < 0 then some '-' else none, Nat.toDigits 10 e.natAbs⟩⟩,
    ⟨hw, hz, hf, ?_⟩, rfl, .inr rfl, ?_⟩
  · rintro _ ⟨⟩
    refine ⟨.inl rfl, ?_, digits_toDigits _⟩
    split
    · exact .inr (.inr rfl)
    · exact .inl rfl
  · rw [chars_spellingOfInt]
    by_cases he : e < 0 <;>
      simp [Spelling.chars, Spelling.signed, Spelling.fractionChars, Spelling.exponentChars, Exponent.chars,
        spellingOfInt, he]

theorem fractional_render (layout : DecimalLayout) (d : Decimal) :
    Fractional (layout.render false d).toList := by
  have hnought : Digits ['0'] := ⟨by decide, by simp⟩
  have hzero : ∀ es, ['0'] = '0' :: es → es = [] := fun es h => (List.cons.inj h).2.symm
  have hlength : (toString d.digits).length = (Nat.toDigits 10 d.digits).length := by
    rw [← String.length_toList, toList_toString]
  rw [DecimalLayout.render, if_neg (by decide), hlength]
  split
  · exact .point hnought hzero hnought
  rename_i hd
  have hn : d.digits ≠ 0 := by simpa using hd
  obtain ⟨c, cs, hcs, hc⟩ := head_toDigits hn
  have hdigits : Digits (c :: cs) := hcs ▸ digits_toDigits d.digits
  have hlead := lead_cons hc
  rw [hcs]
  generalize hpoint : ((c :: cs).length : Int) + d.exponent = point
  split
  · simpa [hcs] using Fractional.point (hdigits.append_zeros d.exponent.toNat) (hlead _) hnought
  rename_i hwhole
  split
  · rename_i hinside
    simp only [Bool.and_eq_true, decide_eq_true_eq] at hwhole hinside
    obtain ⟨k, hk⟩ : ∃ k, point.toNat = k + 1 := ⟨point.toNat - 1, by omega⟩
    have hbefore := hdigits.take (n := k + 1) (by omega)
    have hbehind := hdigits.drop (n := k + 1) (by omega)
    rw [List.take_succ_cons] at hbefore
    simpa [hcs, hk] using Fractional.point hbefore (hlead _) hbehind
  split
  · simpa [hcs] using Fractional.point hnought hzero (hdigits.zeros_append (-point).toNat)
  · have hfirst := hdigits.take (n := 1) (by omega)
    cases cs with
    | nil =>
      have h := Fractional.exponent none hfirst (hlead _) (by simp) (point - 1)
      simpa [hcs, Spelling.fractionChars] using h
    | cons e es =>
      have hbehind : Digits (e :: es) := hdigits.drop (n := 1) (by simp)
      have h := Fractional.exponent (some (e :: es)) hfirst (hlead _)
        (by simpa using hbehind) (point - 1)
      simpa [hcs, Spelling.fractionChars] using h

theorem spelling_layout (layout : DecimalLayout) (negative : Bool) (d : Decimal) :
    ∃ s : Spelling, s.Valid ∧ (s.fraction.isSome ∨ s.exponent.isSome) ∧
      (layout.render negative d).toList = s.chars := by
  obtain ⟨s, hs, hsign, hpart, hchars⟩ := fractional_render layout d
  cases negative with
  | false => exact ⟨s, hs, hpart, hchars⟩
  | true =>
    refine ⟨{ s with negative := true }, ⟨hs.whole, hs.zero, hs.fraction, hs.exponent⟩, hpart, ?_⟩
    have hminus : (layout.render true d).toList = '-' :: (layout.render false d).toList := by
      simp [DecimalLayout.render]
    rw [hminus, hchars, Spelling.chars, Spelling.chars, hsign]
    rfl

theorem spelling_render (n : Number) :
    ∃ s : Spelling, s.Valid ∧ n.render.toList = s.chars ∧
      ∀ m, s.numeral.number = .ok (.int m) → n = .int m := by
  cases n with
  | int n =>
    refine ⟨spellingOfInt n, valid_spellingOfInt n, chars_spellingOfInt n, fun m h => ?_⟩
    rw [number_spellingOfInt h]
  | float bits =>
    obtain ⟨s, hs, hpart, hchars⟩ :=
      spelling_layout Number.layout (Nat.pow 2 63 ≤ bits.toNat) (Decimal.ofBits bits)
    exact ⟨s, hs, hchars, fun m h => absurd h (number_ne_int hpart m)⟩

end Fractions

end BuildServer.Json
