import BuildServer.Toml.Value

namespace BuildServer.Toml

abbrev Scan (α : Type) := List Char → Option (α × List Char)

def isSpace (c : Char) : Bool := c == ' ' || c == '\t'

def skipSpace (cs : List Char) : List Char := cs.dropWhile isSpace

def isText (c : Char) : Bool := c == '\t' || (' ' ≤ c && c != '\x7f')

def lineEnd? : List Char → Option (List Char)
  | '\n' :: rest => some rest
  | '\r' :: '\n' :: rest => some rest
  | _ => none

def skipComment : List Char → List Char
  | '#' :: rest => rest.dropWhile isText
  | cs => cs

def skipLines : Nat → List Char → List Char
  | 0, cs => cs
  | fuel + 1, cs =>
    let cs := skipComment (skipSpace cs)
    match lineEnd? cs with
    | some rest => skipLines fuel rest
    | none => cs

def hexNumber? (cs : List Char) : Option Nat :=
  cs.foldlM (fun n c => (hexValue? c.toNat.toUInt8).bind fun d =>
    if c.toNat < 128 then some (n * 16 + d) else none) 0

def scalarOf? (digits : List Char) : Option Char := do
  let n ← hexNumber? digits
  if n.isValidChar then some (Char.ofNat n) else none

def scanEscape : Scan Char
  | 'b' :: rest => some ('\x08', rest)
  | 't' :: rest => some ('\t', rest)
  | 'n' :: rest => some ('\n', rest)
  | 'f' :: rest => some ('\x0c', rest)
  | 'r' :: rest => some ('\r', rest)
  | 'e' :: rest => some ('\x1b', rest)
  | '"' :: rest => some ('"', rest)
  | '\\' :: rest => some ('\\', rest)
  | c :: rest =>
    let size := match c with
      | 'x' => 2
      | 'u' => 4
      | 'U' => 8
      | _ => 0
    if size = 0 ∨ rest.length < size then none
    else do pure (← scalarOf? (rest.take size), rest.drop size)
  | [] => none

def scanBasic (fuel : Nat) (seen : List Char) (cs : List Char) : Option (String × List Char) :=
  match fuel, cs with
  | 0, _ => none
  | _, [] => none
  | _ + 1, '"' :: rest => some (String.ofList seen.reverse, rest)
  | fuel + 1, '\\' :: rest => do
    let (c, rest) ← scanEscape rest
    scanBasic fuel (c :: seen) rest
  | fuel + 1, c :: rest => if isText c then scanBasic fuel (c :: seen) rest else none

def scanLiteral (cs : List Char) : Option (String × List Char) :=
  match cs.dropWhile fun c => isText c && c != '\'' with
  | '\'' :: rest => some (String.ofList (cs.takeWhile (· != '\'')), rest)
  | _ => none

def closing? (quote : Char) (cs : List Char) : Option (Option (List Char × List Char)) :=
  let quotes := cs.takeWhile (· == quote)
  if quotes.length < 3 then none
  else if 5 < quotes.length then some none
  else some (some (quotes.drop 3, cs.drop quotes.length))

def scanLong (basic : Bool) (fuel : Nat) (seen : List Char) (cs : List Char) :
    Option (String × List Char) :=
  match fuel with
  | 0 => none
  | fuel + 1 =>
    let quote := if basic then '"' else '\''
    match closing? quote cs with
    | some none => none
    | some (some (more, rest)) => some (String.ofList (seen.reverse ++ more), rest)
    | none =>
      match cs with
      | [] => none
      | '\r' :: '\n' :: rest => scanLong basic fuel ('\n' :: '\r' :: seen) rest
      | c :: rest =>
        if c = '\\' ∧ basic then
          if (lineEnd? (skipSpace rest)).isSome then
            scanLong basic fuel seen (rest.dropWhile fun c =>
              isSpace c || c == '\n' || c == '\r')
          else do
            let (c, rest) ← scanEscape rest
            scanLong basic fuel (c :: seen) rest
        else if c = '\n' ∨ isText c then scanLong basic fuel (c :: seen) rest
        else none

def dropLineEnd (cs : List Char) : List Char := (lineEnd? cs).getD cs

def scanString (cs : List Char) : Option (String × List Char) :=
  let fuel := cs.length + 1
  match cs with
  | '"' :: '"' :: '"' :: rest => scanLong true fuel [] (dropLineEnd rest)
  | '\'' :: '\'' :: '\'' :: rest => scanLong false fuel [] (dropLineEnd rest)
  | '"' :: rest => scanBasic fuel [] rest
  | '\'' :: rest => scanLiteral rest
  | _ => none

def isBare (c : Char) : Bool := c.isAlphanum || c == '-' || c == '_'

def scanKeyPart (cs : List Char) : Option (String × List Char) :=
  match cs with
  | '"' :: rest => scanBasic (cs.length + 1) [] rest
  | '\'' :: rest => scanLiteral rest
  | _ =>
    match cs.takeWhile isBare with
    | [] => none
    | name => some (String.ofList name, cs.dropWhile isBare)

def scanKey : Nat → List String → List Char → Option (List String × String × List Char)
  | 0, _, _ => none
  | fuel + 1, seen, cs => do
    let (part, rest) ← scanKeyPart (skipSpace cs)
    match skipSpace rest with
    | '.' :: rest => scanKey fuel (part :: seen) rest
    | rest => pure (seen.reverse, part, rest)

def digits? (isDigit : Char → Bool) (cs : List Char) : Option (List Char) :=
  let groups := pieces '_' cs
  if groups.all fun g => !g.isEmpty && g.all isDigit then some groups.flatten else none

def decimal? (cs : List Char) : Option (List Char) := digits? Char.isDigit cs

def dropSign : List Char → List Char
  | '+' :: rest => rest
  | '-' :: rest => rest
  | cs => cs

def whole? (cs : List Char) : Option (List Char) := do
  match ← decimal? cs with
  | '0' :: _ :: _ => none
  | ds => some ds

def ofDigits (base : Nat) (ds : List Char) : Nat :=
  ds.foldl (fun n c => n * base + ((hexValue? c.toNat.toUInt8).getD 0)) 0

def isInteger (cs : List Char) : Bool :=
  let of := fun (base : Nat) (isDigit : Char → Bool) (rest : List Char) =>
    match digits? isDigit rest with
    | some ds => ofDigits base ds < Nat.pow 2 128
    | none => false
  match cs with
  | '0' :: 'x' :: rest =>
    of 16 (fun c => c.isDigit || ('a' ≤ c && c ≤ 'f') || ('A' ≤ c && c ≤ 'F')) rest
  | '0' :: 'o' :: rest => of 8 (fun c => '0' ≤ c && c ≤ '7') rest
  | '0' :: 'b' :: rest => of 2 (fun c => c == '0' || c == '1') rest
  | _ =>
    match whole? (dropSign cs) with
    | some ds => ofDigits 10 ds < Nat.pow 2 127
    | none => false

def isFloat (cs : List Char) : Bool :=
  let body := dropSign cs
  if body = "inf".toList ∨ body = "nan".toList then true
  else
    let isExponent := fun (c : Char) => c == 'e' || c == 'E'
    let mantissa := body.takeWhile (!isExponent ·)
    let exponent := (body.drop mantissa.length).drop 1
    let whole := mantissa.takeWhile (· != '.')
    let fraction := (mantissa.drop whole.length).drop 1
    let hasPoint := whole.length < mantissa.length
    let hasExponent := mantissa.length < body.length
    (hasPoint || hasExponent) && (whole? whole).isSome &&
      (!hasPoint || (decimal? fraction).isSome) &&
      (!hasExponent || (decimal? (dropSign exponent)).isSome)

def takeNumber? (size : Nat) (cs : List Char) : Option (Nat × List Char) :=
  let ds := cs.take size
  if ds.length = size ∧ ds.all Char.isDigit then some (ofDigits 10 ds, cs.drop size) else none

def daysIn (year month : Nat) : Nat :=
  if month = 2 then
    if year % 4 = 0 ∧ (year % 100 ≠ 0 ∨ year % 400 = 0) then 29 else 28
  else if month = 4 ∨ month = 6 ∨ month = 9 ∨ month = 11 then 30
  else 31

def date? (cs : List Char) : Option (List Char) := do
  let (year, rest) ← takeNumber? 4 cs
  match rest with
  | '-' :: rest =>
    let (month, rest) ← takeNumber? 2 rest
    match rest with
    | '-' :: rest =>
      let (day, rest) ← takeNumber? 2 rest
      if 1 ≤ month ∧ month ≤ 12 ∧ 1 ≤ day ∧ day ≤ daysIn year month then some rest else none
    | _ => none
  | _ => none

def time? (cs : List Char) : Option (List Char) := do
  let (hour, rest) ← takeNumber? 2 cs
  match rest with
  | ':' :: rest =>
    let (minute, rest) ← takeNumber? 2 rest
    if 23 < hour ∨ 59 < minute then none
    else
      match rest with
      | ':' :: rest =>
        let (second, rest) ← takeNumber? 2 rest
        if 60 < second then none
        else
          match rest with
          | '.' :: rest =>
            if (rest.takeWhile Char.isDigit).isEmpty then none
            else some (rest.dropWhile Char.isDigit)
          | _ => some rest
      | _ => some rest
  | _ => none

def isOffset : List Char → Bool
  | [] => true
  | ['Z'] => true
  | ['z'] => true
  | c :: rest =>
    (c == '+' || c == '-') &&
      match takeNumber? 2 rest with
      | some (h, ':' :: rest) =>
        match takeNumber? 2 rest with
        | some (m, []) => h ≤ 23 && m ≤ 59
        | _ => false
      | _ => false

def isDatetime (cs : List Char) : Bool :=
  match date? cs with
  | some [] => true
  | some (c :: rest) =>
    (c == 'T' || c == 't' || c == ' ') &&
      match time? rest with
      | some offset => isOffset offset
      | none => false
  | none => time? cs == some []

def takeWord (cs : List Char) : List Char :=
  let isWord := fun (c : Char) => isBare c || c == '+' || c == '.' || c == ':'
  let word := cs.takeWhile isWord
  match date? word, cs.drop word.length with
  | some [], ' ' :: d :: rest => if d.isDigit then word ++ ' ' :: (d :: rest).takeWhile isWord else word
  | _, _ => word

def scanWord (cs : List Char) : Option (Toml × List Char) :=
  let word := takeWord cs
  let rest := cs.drop word.length
  if word = "true".toList then some (.boolean true, rest)
  else if word = "false".toList then some (.boolean false, rest)
  else if isInteger word || isFloat word then some (.number, rest)
  else if isDatetime word then some (.datetime, rest)
  else none

end BuildServer.Toml
