import BuildServer.Json.Decode
import BuildServer.Proofs.Text.Utf8

namespace BuildServer.Json

open Utf8

def shortEscapes : List (Char × Char) :=
  [('"', '"'), ('\\', '\\'), ('/', '/'), ('b', '\x08'), ('f', '\x0c'), ('n', '\n'), ('r', '\r'), ('t', '\t')]

def hexDigits : List (Char × Nat) :=
  (List.range 16).map (fun n => (hexDigit n, n)) ++ (List.range 6).map fun n => (Char.ofNat (65 + n), n + 10)

structure HexDigit where
  char : Char
  value : Nat
  listed : (char, value) ∈ hexDigits

inductive Letter where
  | plain (c : Char) (h : 0x20 ≤ c.toNat ∧ c ≠ '"' ∧ c ≠ '\\')
  | short (e c : Char) (h : (e, c) ∈ shortEscapes)
  | unit (x y z w : HexDigit)

inductive Code where
  | char (c : Char)
  | unit (n : Nat)

namespace Letter

def chars : Letter → List Char
  | plain c _ => [c]
  | short e _ _ => ['\\', e]
  | unit x y z w => ['\\', 'u', x.char, y.char, z.char, w.char]

def code : Letter → Code
  | plain c _ => .char c
  | short _ c _ => .char c
  | unit x y z w => .unit (((x.value * 16 + y.value) * 16 + z.value) * 16 + w.value)

end Letter

def joinCodes? : List Code → Option (List Char)
  | [] => some []
  | .char c :: rest => (joinCodes? rest).map (c :: ·)
  | .unit n :: rest =>
    if 0xD800 ≤ n ∧ n < 0xDC00 then
      match rest with
      | .unit m :: rest =>
        if 0xDC00 ≤ m ∧ m ≤ 0xDFFF then
          (joinCodes? rest).map (Char.ofNat ((n - 0xD800) * 0x400 + (m - 0xDC00) + 0x10000) :: ·)
        else none
      | _ => none
    else if 0xDC00 ≤ n ∧ n ≤ 0xDFFF then none
    else (joinCodes? rest).map (Char.ofNat n :: ·)

def text? (ls : List Letter) : Option String :=
  (joinCodes? (ls.map Letter.code)).map String.ofList

def quotedBytes (ls : List Letter) : Bytes :=
  0x22 :: (encodeChars (ls.flatMap Letter.chars) ++ [0x22])

def Code.pieces : Code → List Piece
  | char c => (encodeChars [c]).map .byte
  | unit n => [.unit n]

def stringDoc (ls : List Letter) : Except Fault String :=
  stringOf (ls.flatMap (·.code.pieces)) (.ok [])

section Reading

theorem readPieces_plain {bytes : Bytes}
    (h : ∀ b ∈ bytes, 0x20 ≤ b.toNat ∧ b ≠ 0x22 ∧ b ≠ 0x5C) (seen : List Piece) (rest : Bytes) :
    readPieces seen (bytes ++ rest) = readPieces ((bytes.map .byte).reverse ++ seen) rest := by
  induction bytes generalizing seen with
  | nil => rfl
  | cons b bytes ih =>
    obtain ⟨hlow, hquote, hslash⟩ := h b List.mem_cons_self
    have hb : ¬ b < 0x20 := by
      rw [UInt8.lt_iff_toNat_lt]
      simpa using hlow
    have hstep : readPieces seen (b :: (bytes ++ rest)) =
        readPieces (.byte b :: seen) (bytes ++ rest) := by
      rw [readPieces, if_neg hb]
      · exact hquote
      · exact hslash
    rw [List.cons_append, hstep, ih fun b hb => h b (List.mem_cons_of_mem _ hb)]
    simp

theorem plain_bytes {c : Char} (hlow : 0x20 ≤ c.toNat) (hquote : c ≠ '"') (hslash : c ≠ '\\') :
    ∀ b ∈ encodeChars [c], 0x20 ≤ b.toNat ∧ b ≠ 0x22 ∧ b ≠ 0x5C := by
  intro b hb
  rw [encodeChars, List.flatMap_singleton] at hb
  rcases Nat.lt_or_ge c.toNat 0x80 with hc | hc
  · rw [utf8EncodeChar_ascii hc, List.mem_singleton] at hb
    have hb' : b.toNat = c.toNat := by
      rw [hb, UInt8.toNat_ofNat']
      omega
    refine ⟨by omega, fun h => hquote ?_, fun h => hslash ?_⟩
    · exact Char.toNat_inj.mp (hb' ▸ congrArg UInt8.toNat h)
    · exact Char.toNat_inj.mp (hb' ▸ congrArg UInt8.toNat h)
  · have hb' := le_of_mem_utf8EncodeChar hc hb
    refine ⟨by omega, ?_, ?_⟩ <;> rintro rfl <;> simp at hb'

theorem shortEscapes_bytes : ∀ p ∈ shortEscapes, ∃ e b, encodeChars [p.1] = [e] ∧ encodeChars [p.2] = [b] ∧
    shortEscape? e = some b ∧ e ≠ 0x75 := by
  have h : ∀ p ∈ shortEscapes, encodeChars [p.1] = [UInt8.ofNat p.1.toNat] ∧
      encodeChars [p.2] = [UInt8.ofNat p.2.toNat] ∧
      shortEscape? (UInt8.ofNat p.1.toNat) = some (UInt8.ofNat p.2.toNat) ∧ UInt8.ofNat p.1.toNat ≠ 0x75 := by
    decide +kernel
  exact fun p hp => ⟨_, _, h p hp⟩

theorem hexDigits_bytes : ∀ p ∈ hexDigits, ∃ b, encodeChars [p.1] = [b] ∧ hexValue? b = some p.2 := by
  have h : ∀ p ∈ hexDigits, encodeChars [p.1] = [UInt8.ofNat p.1.toNat] ∧
      hexValue? (UInt8.ofNat p.1.toNat) = some p.2 := by
    decide +kernel
  exact fun p hp => ⟨_, h p hp⟩

theorem readPieces_letter (l : Letter) (seen : List Piece) (rest : Bytes) :
    readPieces seen (encodeChars l.chars ++ rest) = readPieces (l.code.pieces.reverse ++ seen) rest := by
  cases l with
  | plain c h => exact readPieces_plain (plain_bytes h.1 h.2.1 h.2.2) seen rest
  | short e c h =>
    obtain ⟨x, b, hx, hb, hescape, hu⟩ := shortEscapes_bytes _ h
    have hbytes : encodeChars (Letter.short e c h).chars = 0x5C :: encodeChars [e] := rfl
    rw [hbytes, hx, Letter.code, Code.pieces, hb]
    simp only [List.cons_append, List.nil_append, readPieces, hescape]
    rfl
  | unit x y z w =>
    obtain ⟨a, ha, hx⟩ := hexDigits_bytes _ x.listed
    obtain ⟨b, hb, hy⟩ := hexDigits_bytes _ y.listed
    obtain ⟨c, hc, hz⟩ := hexDigits_bytes _ z.listed
    obtain ⟨d, hd, hw⟩ := hexDigits_bytes _ w.listed
    have hbytes : encodeChars (Letter.unit x y z w).chars = 0x5C :: 0x75 :: (encodeChars [x.char] ++
        (encodeChars [y.char] ++ (encodeChars [z.char] ++ encodeChars [w.char]))) := by
      simp only [Letter.chars, encodeChars, List.flatMap_cons, List.flatMap_nil, List.append_nil]
      rfl
    have hunit : unitOf? a b c d = some (((x.value * 16 + y.value) * 16 + z.value) * 16 + w.value) := by
      simp [unitOf?, hx, hy, hz, hw]
    rw [hbytes, ha, hb, hc, hd]
    simp only [List.cons_append, List.nil_append, readPieces, hunit]
    rfl

theorem readPieces_letters (ls : List Letter) (seen : List Piece) (rest : Bytes) :
    readPieces seen (encodeChars (ls.flatMap Letter.chars) ++ rest) =
      readPieces ((ls.flatMap (·.code.pieces)).reverse ++ seen) rest := by
  induction ls generalizing seen with
  | nil => rfl
  | cons l ls ih =>
    rw [List.flatMap_cons, encodeChars_append, List.append_assoc, readPieces_letter, ih, List.flatMap_cons,
      List.reverse_append, List.append_assoc]

theorem quotedBytes_append (ls : List Letter) (rest : Bytes) :
    quotedBytes ls ++ rest = 0x22 :: (encodeChars (ls.flatMap Letter.chars) ++ 0x22 :: rest) := by
  rw [quotedBytes, List.cons_append, List.append_assoc, List.singleton_append]

theorem readScalar_quotedBytes (ls : List Letter) (rest : Bytes) :
    readScalar (quotedBytes ls ++ rest) = (.str (stringDoc ls), some rest) := by
  have hpieces : readPieces [] (encodeChars (ls.flatMap Letter.chars) ++ 0x22 :: rest) =
      (ls.flatMap (·.code.pieces), .ok rest) := by
    rw [readPieces_letters, readPieces, List.append_nil, List.reverse_reverse]
  rw [quotedBytes_append, readScalar, hpieces]
  rfl

end Reading

section Texts

theorem joinPieces_bytes (cut : Fault) (bytes seen : Bytes) (rest : List Piece) :
    joinPieces cut seen (bytes.map .byte ++ rest) = joinPieces cut (bytes.reverse ++ seen) rest := by
  induction bytes generalizing seen with
  | nil => rfl
  | cons b bytes ih =>
    rw [List.map_cons, List.cons_append, joinPieces, ih, List.reverse_cons, List.append_assoc,
      List.singleton_append]

theorem joinPieces_codes {codes : List Code} {cs : List Char} (h : joinCodes? codes = some cs) (cut : Fault)
    (seen : Bytes) : joinPieces cut seen (codes.flatMap Code.pieces) = .ok (seen.reverse ++ encodeChars cs) := by
  have hnext : ∀ (seen : Bytes) (c : Char) (cs : List Char),
      ((String.utf8EncodeChar c).reverse ++ seen).reverse ++ encodeChars cs =
        seen.reverse ++ encodeChars (c :: cs) := by
    intro seen c cs
    rw [List.reverse_append, List.reverse_reverse, List.append_assoc]
    rfl
  fun_induction joinCodes? codes generalizing cs seen with
  | case1 =>
    obtain rfl := Option.some.inj h
    simp [joinPieces, encodeChars]
  | case2 c rest ih =>
    obtain ⟨cs', hcs', rfl⟩ := Option.map_eq_some_iff.mp h
    have hbytes : encodeChars [c] = String.utf8EncodeChar c := List.flatMap_singleton ..
    rw [List.flatMap_cons, Code.pieces, joinPieces_bytes, ih hcs', hbytes, hnext]
  | case3 n hn m rest hm ih =>
    obtain ⟨cs', hcs', rfl⟩ := Option.map_eq_some_iff.mp h
    have hlow : ¬(0xDC00 ≤ n ∧ n ≤ 0xDFFF) := by omega
    have hpieces : (Code.unit n :: Code.unit m :: rest).flatMap Code.pieces =
        .unit n :: .unit m :: rest.flatMap Code.pieces := rfl
    rw [hpieces, joinPieces]
    simp only [if_neg hlow, if_pos hn, if_pos hm, ih hcs', hnext]
  | case4 => cases h
  | case5 => cases h
  | case6 => cases h
  | case7 n rest hhigh hlow ih =>
    obtain ⟨cs', hcs', rfl⟩ := Option.map_eq_some_iff.mp h
    have hpieces : (Code.unit n :: rest).flatMap Code.pieces = .unit n :: rest.flatMap Code.pieces := rfl
    rw [hpieces, joinPieces.eq_def]
    simp only [if_neg hlow, if_neg hhigh, ih hcs', hnext]

theorem stringDoc_text {ls : List Letter} {s : String} (h : text? ls = some s) : stringDoc ls = .ok s := by
  obtain ⟨cs, hcs, rfl⟩ := Option.map_eq_some_iff.mp h
  have hjoin := joinPieces_codes hcs (.flaw .unfinishedPair) []
  have hdecode : decode? (encodeChars cs) = some (String.ofList cs) := by
    rw [← decode?_encode, encode, String.toList_ofList]
  rw [List.flatMap_map] at hjoin
  simp only [stringDoc, stringOf, hjoin, bind, Except.bind, List.reverse_nil, List.nil_append, hdecode]

end Texts

section Writing

theorem mem_hexDigits {n : Nat} (hn : n < 16) : (hexDigit n, n) ∈ hexDigits :=
  List.mem_append_left _ (List.mem_map.mpr ⟨n, List.mem_range.mpr hn, rfl⟩)

def HexDigit.ofNat (n : Nat) (hn : n < 16) : HexDigit := ⟨hexDigit n, n, mem_hexDigits hn⟩

def Letter.ofUnit (n : Nat) (hn : n < 0x10000) : Letter :=
  .unit (.ofNat (n / 0x1000) (by omega)) (.ofNat (n / 0x100 % 16) (by omega)) (.ofNat (n / 0x10 % 16) (by omega))
    (.ofNat (n % 16) (by omega))

theorem code_ofUnit (n : Nat) (hn : n < 0x10000) : (Letter.ofUnit n hn).code = .unit n := by
  simp only [Letter.ofUnit, Letter.code, HexDigit.ofNat, Code.unit.injEq]
  omega

theorem exists_letter (c : Char) :
    ∃ l : Letter, l.chars = escape c ∧
      ∀ codes, joinCodes? (l.code :: codes) = (joinCodes? codes).map (c :: ·) := by
  have hshort : ∀ {e c}, (e, c) ∈ shortEscapes → ∃ l : Letter, l.chars = ['\\', e] ∧
      ∀ codes, joinCodes? (l.code :: codes) = (joinCodes? codes).map (c :: ·) :=
    fun {e c} h => ⟨.short e c h, rfl, fun codes => rfl⟩
  unfold escape
  split
  · next h =>
    subst h
    exact hshort (by decide)
  split
  · next h =>
    subst h
    exact hshort (by decide)
  split
  · next h =>
    subst h
    exact hshort (by decide)
  split
  · next h =>
    subst h
    exact hshort (by decide)
  split
  · next h =>
    subst h
    exact hshort (by decide)
  split
  · next h =>
    subst h
    exact hshort (by decide)
  split
  · next h =>
    subst h
    exact hshort (by decide)
  split
  · next hc =>
    refine ⟨.ofUnit c.toNat (by omega), ?_, fun codes => ?_⟩
    · have h₁ : c.toNat / 0x1000 = 0 := by omega
      have h₂ : c.toNat / 0x100 % 16 = 0 := by omega
      have h₃ : c.toNat / 0x10 % 16 = c.toNat / 16 := by omega
      simp only [Letter.ofUnit, Letter.chars, HexDigit.ofNat, h₁, h₂, h₃]
      rfl
    · rw [code_ofUnit, joinCodes?.eq_def]
      simp only [Char.ofNat_toNat]
      rw [if_neg (by omega), if_neg (by omega)]
  · next hquote hslash _ _ _ _ _ hc =>
    exact ⟨.plain c ⟨Nat.le_of_not_lt hc, hquote, hslash⟩, rfl, fun codes => rfl⟩

theorem exists_letters (s : String) : ∃ ls, quotedBytes ls = encodeChars (quote s) ∧ text? ls = some s := by
  have hletters : ∀ cs : List Char, ∃ ls : List Letter,
      ls.flatMap Letter.chars = cs.flatMap escape ∧ joinCodes? (ls.map Letter.code) = some cs := by
    intro cs
    induction cs with
    | nil => exact ⟨[], rfl, rfl⟩
    | cons c cs ih =>
      obtain ⟨ls, hchars, hcodes⟩ := ih
      obtain ⟨l, hl, hjoin⟩ := exists_letter c
      refine ⟨l :: ls, ?_, ?_⟩
      · rw [List.flatMap_cons, List.flatMap_cons, hl, hchars]
      · rw [List.map_cons, hjoin, hcodes, Option.map_some]
  obtain ⟨ls, hchars, hcodes⟩ := hletters s.toList
  refine ⟨ls, ?_, ?_⟩
  · have hquote : quote s = ['"'] ++ (s.toList.flatMap escape ++ ['"']) := rfl
    rw [quotedBytes, hchars, hquote, encodeChars_append, encodeChars_append]
    rfl
  · rw [text?, hcodes, Option.map_some, String.ofList_toList]

end Writing

end BuildServer.Json
