/-!
The shortest decimal that reads back as a given binary64 number, found by exact arithmetic on
natural numbers.
-/

namespace BuildServer

structure Decimal where
  digits : Nat
  exponent : Int
  deriving DecidableEq, Repr

namespace Decimal

/-- A positive number and the ends of the interval of numbers that round to it, over one
denominator. -/
structure Interval where
  value : Nat
  low : Nat
  high : Nat
  denominator : Nat
  closed : Bool
  deriving DecidableEq, Repr

def Interval.ofParts (m : Nat) (q : Int) (least : Bool) : Interval :=
  let up := Nat.pow 2 (q - 2).toNat
  let down := Nat.pow 2 (2 - q).toNat
  ⟨4 * m * up, (4 * m - if least then 1 else 2) * up, (4 * m + 2) * up, down, m % 2 == 0⟩

def Interval.ofBits (bits : UInt64) : Interval :=
  let n := bits.toNat % Nat.pow 2 63
  let fraction := n % Nat.pow 2 52
  match n / Nat.pow 2 52 with
  | 0 => .ofParts fraction (-1074) false
  | e => .ofParts (Nat.pow 2 52 + fraction) (e - 1075) (fraction == 0 && e != 1)

def Interval.holds (i : Interval) (numerator : Nat) : Bool :=
  if i.closed then i.low ≤ numerator && numerator ≤ i.high
  else i.low < numerator && numerator < i.high

def Interval.scale (i : Interval) (k : Int) : Interval :=
  let up := Nat.pow 10 (-k).toNat
  ⟨i.value * up, i.low * up, i.high * up, i.denominator * Nat.pow 10 k.toNat, i.closed⟩

def Interval.onGrid (i : Interval) (k : Int) : Option Nat :=
  let s := i.scale k
  let below := s.value / s.denominator
  let belowFits := s.holds (below * s.denominator)
  let aboveFits := s.holds ((below + 1) * s.denominator)
  let nearer := 2 * (s.value % s.denominator) < s.denominator ||
    (2 * (s.value % s.denominator) == s.denominator && below % 2 == 0)
  if belowFits && (nearer || !aboveFits) then some below
  else if aboveFits then some (below + 1)
  else none

def Interval.magnitude (i : Interval) : Nat → Int → Int
  | 0, k => k
  | fuel + 1, k =>
    let s := i.scale k
    if s.value < s.denominator then k else i.magnitude fuel (k + 1)

def dropZeros : Nat → Nat → Int → Decimal
  | 0, n, e => ⟨n, e⟩
  | fuel + 1, n, e =>
    if n != 0 && n % 10 == 0 then dropZeros fuel (n / 10) (e + 1) else ⟨n, e⟩

/-- Tries grids of one digit, two digits and so on; seventeen always suffice. -/
def search (i : Interval) (top : Int) : Nat → Nat → Decimal
  | 0, _ => ⟨0, 0⟩
  | fuel + 1, digits =>
    match i.onGrid (top - digits) with
    | some n => dropZeros 20 n (top - digits)
    | none => search i top fuel (digits + 1)

def ofBits (bits : UInt64) : Decimal :=
  let i := Interval.ofBits bits
  if i.value == 0 then ⟨0, 0⟩ else search i (i.magnitude 640 (-330)) 17 1

end Decimal

structure DecimalLayout where
  least : Int
  most : Int
  deriving DecidableEq, Repr

def DecimalLayout.render (layout : DecimalLayout) (negative : Bool) (d : Decimal) : String :=
  let digits := toString d.digits
  let size : Int := digits.length
  let point := size + d.exponent
  let zeros := fun (n : Int) => String.ofList (List.replicate n.toNat '0')
  let body :=
    if d.digits == 0 then "0.0"
    else if 0 ≤ d.exponent && point ≤ layout.most then digits ++ zeros d.exponent ++ ".0"
    else if 0 < point && point ≤ layout.most then
      (digits.take point.toNat).toString ++ "." ++ (digits.drop point.toNat).toString
    else if layout.least < point && point ≤ 0 then "0." ++ zeros (-point) ++ digits
    else
      let tail := if digits.length == 1 then "" else "." ++ (digits.drop 1).toString
      (digits.take 1).toString ++ tail ++ "e" ++ toString (point - 1)
  if negative then "-" ++ body else body

end BuildServer
