import BuildServer.Json.Document

namespace BuildServer.Json

inductive Piece where
  | byte (b : UInt8)
  | unit (n : Nat)
  deriving DecidableEq, Repr

def shortEscape? (b : UInt8) : Option UInt8 :=
  if b = 0x22 ∨ b = 0x5C ∨ b = 0x2F then some b
  else if b = 0x62 then some 0x08
  else if b = 0x66 then some 0x0C
  else if b = 0x6E then some 0x0A
  else if b = 0x72 then some 0x0D
  else if b = 0x74 then some 0x09
  else none

def unitOf? (a b c d : UInt8) : Option Nat := do
  pure ((((← hexValue? a) * 16 + (← hexValue? b)) * 16 + (← hexValue? c)) * 16 + (← hexValue? d))

def readPieces (seen : List Piece) : Bytes → List Piece × Except Fault Bytes
  | [] => (seen.reverse, .error .endOfText)
  | 0x22 :: rest => (seen.reverse, .ok rest)
  | 0x5C :: rest =>
    match rest with
    | [] => (seen.reverse, .error .endOfText)
    | 0x75 :: rest =>
      match rest with
      | a :: b :: c :: d :: rest =>
        match unitOf? a b c d with
        | some n => readPieces (.unit n :: seen) rest
        | none => (seen.reverse, .error (.flaw .malformed))
      | _ => (seen.reverse, .error .endOfText)
    | e :: rest =>
      match shortEscape? e with
      | some b => readPieces (.byte b :: seen) rest
      | none => (seen.reverse, .error (.flaw .malformed))
  | b :: rest =>
    if b < 0x20 then (seen.reverse, .error (.flaw .malformed))
    else readPieces (.byte b :: seen) rest

/-- The bytes of a string's pieces, the latest first in `seen`; a surrogate pair is one character.
`cut` is the fault of a pair that the pieces end inside of. -/
def joinPieces (cut : Fault) (seen : Bytes) : List Piece → Except Fault Bytes
  | [] => .ok seen.reverse
  | .byte b :: rest => joinPieces cut (b :: seen) rest
  | .unit n :: rest =>
    if 0xDC00 ≤ n ∧ n ≤ 0xDFFF then .error (.flaw .loneSurrogate)
    else if 0xD800 ≤ n ∧ n < 0xDC00 then
      match rest with
      | [] => .error cut
      | .byte _ :: _ => .error (.flaw .unfinishedPair)
      | .unit m :: rest =>
        if 0xDC00 ≤ m ∧ m ≤ 0xDFFF then
          let c := Char.ofNat ((n - 0xD800) * 0x400 + (m - 0xDC00) + 0x10000)
          joinPieces cut ((String.utf8EncodeChar c).reverse ++ seen) rest
        else .error (.flaw .loneSurrogate)
    else joinPieces cut ((String.utf8EncodeChar (Char.ofNat n)).reverse ++ seen) rest

def stringOf (pieces : List Piece) (behind : Except Fault Bytes) : Except Fault String :=
  match behind with
  | .ok _ => do
    let bytes ← joinPieces (.flaw .unfinishedPair) [] pieces
    match Utf8.decode? bytes with
    | some s => .ok s
    | none => .error (.flaw .badCodePoint)
  | .error f => do
    let _ ← joinPieces f [] pieces
    .error f

structure Numeral where
  negative : Bool
  whole : List Nat
  fraction : Option (List Nat)
  exponent : Option (Bool × List Nat)
  deriving DecidableEq, Repr

def isDigit (b : UInt8) : Bool := 48 ≤ b && b ≤ 57

def takeDigits (text : Bytes) : List Nat × Bytes :=
  ((text.takeWhile isDigit).map fun b => b.toNat - 48, text.dropWhile isDigit)

def readDigits (text : Bytes) : Except Broken (List Nat × Bytes) :=
  match takeDigits text with
  | ([], []) => .error .cutNumber
  | ([], _ :: _) => .error .malformed
  | r => .ok r

def readWhole (text : Bytes) : Except Broken (List Nat × Bytes) := do
  let (digits, rest) ← readDigits text
  match digits with
  | 0 :: _ :: _ => .error .malformed
  | _ => pure (digits, rest)

def readFraction (text : Bytes) : Except Broken (Option (List Nat) × Bytes) :=
  match text with
  | 0x2E :: rest => do
    let (digits, rest) ← readDigits rest
    pure (some digits, rest)
  | _ => pure (none, text)

def readExponent (text : Bytes) : Except Broken (Option (Bool × List Nat) × Bytes) :=
  match text with
  | e :: rest =>
    if e = 0x65 ∨ e = 0x45 then
      match rest with
      | 0x2D :: rest => do
        let (digits, rest) ← readDigits rest
        pure (some (true, digits), rest)
      | 0x2B :: rest => do
        let (digits, rest) ← readDigits rest
        pure (some (false, digits), rest)
      | _ => do
        let (digits, rest) ← readDigits rest
        pure (some (false, digits), rest)
    else pure (none, text)
  | [] => pure (none, text)

def readNumeral (text : Bytes) : Except Broken (Numeral × Bytes) := do
  let (negative, text) := match text with
    | 0x2D :: rest => (true, rest)
    | _ => (false, text)
  let (whole, text) ← readWhole text
  let (fraction, text) ← readFraction text
  let (exponent, text) ← readExponent text
  pure (⟨negative, whole, fraction, exponent⟩, text)

def ofDigits (digits : List Nat) : Nat :=
  digits.foldl (fun n d => n * 10 + d) 0

def gather (n : Nat) : List Nat → Nat × List Nat
  | [] => (n, [])
  | d :: rest => if n * 10 + d < Nat.pow 2 64 then gather (n * 10 + d) rest else (n, d :: rest)

def powerOfTen (n : Nat) : Float := Float.ofScientific 1 false n

def scaleDown : Nat → Float → Nat → Float
  | 0, f, _ => f
  | fuel + 1, f, n =>
    if n ≤ 308 then f / powerOfTen n
    else if f == 0 then f
    else scaleDown fuel (f / powerOfTen 308) (n - 308)

def floatOf (negative : Bool) (mantissa : Nat) (exponent : Int) : Except Fault Number :=
  let m := mantissa.toUInt64.toFloat
  let f : Option Float :=
    if 0 ≤ exponent then
      if exponent ≤ 308 then
        let f := m * powerOfTen exponent.toNat
        if f.isInf then none else some f
      else if m == 0 then some m
      else none
    else some (scaleDown 4 m (-exponent).toNat)
  match f with
  | some f => .ok (.float (if negative then -f else f).toBits)
  | none => .error (.flaw .outOfRange)

def Numeral.number (n : Numeral) : Except Fault Number :=
  let (whole, left) := gather 0 n.whole
  match n.fraction, n.exponent, left with
  | none, none, [] =>
    if n.negative then
      if whole = 0 ∨ Nat.pow 2 63 < whole then floatOf true whole 0 else .ok (.int (-(whole : Int)))
    else .ok (.int whole)
  | fraction, exponent, left =>
    let digits := fraction.getD []
    let (mantissa, unread) := gather whole digits
    let shift : Int := left.length - (digits.length - unread.length : Nat)
    match exponent with
    | none => floatOf n.negative mantissa shift
    | some (true, e) => floatOf n.negative mantissa (shift - ofDigits e)
    | some (false, e) => floatOf n.negative mantissa (shift + ofDigits e)

def readName : Bytes → Bytes → Except Fault Bytes
  | [], text => .ok text
  | _ :: _, [] => .error .endOfText
  | n :: name, b :: text => if n = b then readName name text else .error (.flaw .malformed)

def readScalar (text : Bytes) : Doc × Option Bytes :=
  let named := fun (name : Bytes) (doc : Doc) =>
    match readName name text with
    | .ok rest => (doc, some rest)
    | .error f => (.broken (.of f), none)
  match text with
  | [] => (.broken (.of .endOfText), none)
  | 0x22 :: rest =>
    match readPieces [] rest with
    | (pieces, .ok behind) => (.str (stringOf pieces (.ok behind)), some behind)
    | (pieces, .error f) =>
      match stringOf pieces (.error f) with
      | .ok _ => (.broken (.of f), none)
      | .error used => (.broken ⟨used, f⟩, none)
  | 0x6E :: _ => named (Utf8.encode "null") .null
  | 0x74 :: _ => named (Utf8.encode "true") (.bool true)
  | 0x66 :: _ => named (Utf8.encode "false") (.bool false)
  | b :: _ =>
    if b = 0x2D || isDigit b then
      match readNumeral text with
      | .ok (n, rest) => (.num n.number, some rest)
      | .error e => (.broken e, none)
    else (.broken .malformed, none)

end BuildServer.Json
