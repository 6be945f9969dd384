namespace BuildServer

abbrev Bytes := List UInt8

namespace Utf8

def encodeChars (cs : List Char) : Bytes :=
  cs.flatMap String.utf8EncodeChar

def encode (s : String) : Bytes :=
  encodeChars s.toList

structure Begun where
  value : Nat
  low : UInt8
  high : UInt8
  owed : Nat
  deriving DecidableEq, Repr

inductive Step where
  | char (c : Char)
  | begin_ (b : Begun)
  | bad
  deriving DecidableEq, Repr

def first (b : UInt8) : Step :=
  let n := b.toNat
  if n < 0x80 then .char (Char.ofNat n)
  else if n < 0xC2 then .bad
  else if n < 0xE0 then .begin_ ⟨n - 0xC0, 0x80, 0xBF, 1⟩
  else if n = 0xE0 then .begin_ ⟨0, 0xA0, 0xBF, 2⟩
  else if n = 0xED then .begin_ ⟨0xD, 0x80, 0x9F, 2⟩
  else if n < 0xF0 then .begin_ ⟨n - 0xE0, 0x80, 0xBF, 2⟩
  else if n = 0xF0 then .begin_ ⟨0, 0x90, 0xBF, 3⟩
  else if n < 0xF4 then .begin_ ⟨n - 0xF0, 0x80, 0xBF, 3⟩
  else if n = 0xF4 then .begin_ ⟨4, 0x80, 0x8F, 3⟩
  else .bad

def Begun.next (g : Begun) (b : UInt8) : Step :=
  if g.low ≤ b ∧ b ≤ g.high then
    let value := g.value * 64 + (b.toNat - 0x80)
    if g.owed ≤ 1 then .char (Char.ofNat value)
    else .begin_ ⟨value, 0x80, 0xBF, g.owed - 1⟩
  else .bad

/-- The characters in order, the latest first in `seen`; a bad piece is `none`. The byte that ends
an unfinished character starts the next one. -/
def scanFrom (seen : List (Option Char)) : Option Begun → Bytes → List (Option Char)
  | none, [] => seen.reverse
  | some _, [] => (none :: seen).reverse
  | none, b :: rest =>
    match first b with
    | .char c => scanFrom (some c :: seen) none rest
    | .begin_ g => scanFrom seen (some g) rest
    | .bad => scanFrom (none :: seen) none rest
  | some g, b :: rest =>
    match g.next b with
    | .char c => scanFrom (some c :: seen) none rest
    | .begin_ g' => scanFrom seen (some g') rest
    | .bad =>
      match first b with
      | .char c => scanFrom (some c :: none :: seen) none rest
      | .begin_ g' => scanFrom (none :: seen) (some g') rest
      | .bad => scanFrom (none :: none :: seen) none rest

def scan (bytes : Bytes) : List (Option Char) :=
  scanFrom [] none bytes

def decodeChars? (bytes : Bytes) : Option (List Char) :=
  let cs := scan bytes
  if cs.all Option.isSome then some (cs.filterMap id) else none

def decode? (bytes : Bytes) : Option String :=
  (decodeChars? bytes).map String.ofList

def decodeLossy (bytes : Bytes) : String :=
  String.ofList ((scan bytes).map (·.getD '\uFFFD'))

end Utf8

end BuildServer
