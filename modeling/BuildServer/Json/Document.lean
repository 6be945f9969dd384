import BuildServer.Json.Basic

/-!
The shape of JSON text, kept as far as the text is well formed. A reader walks a `Doc` from left
to right and so meets the first problem first, be it a break in the text or a value of the wrong
type.
-/

namespace BuildServer

/-- Why text is no JSON text. The last six arise only where a value is used, not where it is
skipped. -/
inductive Flaw where
  | malformed
  | loneSurrogate
  | unfinishedPair
  | badCodePoint
  | outOfRange
  | tooDeep
  | trailing
  deriving DecidableEq, Repr

def Flaw.message : Flaw → String
  | .malformed => "expected value"
  | .loneSurrogate => "lone leading surrogate in hex escape"
  | .unfinishedPair => "unexpected end of hex escape"
  | .badCodePoint => "invalid unicode code point"
  | .outOfRange => "number out of range"
  | .tooDeep => "recursion limit exceeded"
  | .trailing => "trailing characters"

inductive Fault where
  | endOfText
  | flaw (f : Flaw)
  deriving DecidableEq, Repr

structure Broken where
  used : Fault
  skipped : Fault
  deriving DecidableEq, Repr

def Broken.of (f : Fault) : Broken := ⟨f, f⟩

def Broken.malformed : Broken := .of (.flaw .malformed)

def Broken.cutNumber : Broken := ⟨.endOfText, .flaw .malformed⟩

/-- A value of JSON text. A number or string that can only be skipped holds the fault that its use
would meet. The ending of a container is the fault that breaks it off, at or inside its last
part. -/
inductive Doc where
  | null
  | bool (b : Bool)
  | num (n : Except Fault Number)
  | str (s : Except Fault String)
  | arr (items : List Doc) (ending : Option Fault)
  | obj (members : List (Except Fault String × Doc)) (ending : Option Fault)
  | broken (b : Broken)
  deriving Inhabited

structure JsonText where
  doc : Doc
  behind : Option Fault
  deriving Inhabited

namespace Doc

def skip : Doc → Except Fault Unit
  | .arr _ (some f) => .error f
  | .obj _ (some f) => .error f
  | .broken b => .error b.skipped
  | _ => .ok ()

def ending (f : Option Fault) : Except Fault Unit :=
  match f with
  | some f => .error f
  | none => .ok ()

mutual

def value (depth : Nat) : Doc → Except Fault Json
  | .null => .ok .null
  | .bool b => .ok (.bool b)
  | .num n => n.map .num
  | .str s => s.map .str
  | .arr items e =>
    match depth with
    | 0 => .error (.flaw .tooDeep)
    | depth + 1 => do
      let js ← valueOfItems depth [] items
      ending e
      pure (.arr js)
  | .obj members e =>
    match depth with
    | 0 => .error (.flaw .tooDeep)
    | depth + 1 => do
      let t ← valueOfMembers depth .empty members
      ending e
      pure (.ofTable t)
  | .broken b => .error b.used

def valueOfItems (depth : Nat) (seen : List Json) : List Doc → Except Fault (List Json)
  | [] => .ok seen.reverse
  | d :: rest => do
    let j ← value depth d
    valueOfItems depth (j :: seen) rest

def valueOfMembers (depth : Nat) (seen : Table Json) :
    List (Except Fault String × Doc) → Except Fault (Table Json)
  | [] => .ok seen
  | (k, d) :: rest => do
    let key ← k
    let j ← value depth d
    valueOfMembers depth (seen.insert key j) rest

end

mutual

def ofJson : Json → Doc
  | .null => .null
  | .bool b => .bool b
  | .num n => .num (.ok n)
  | .str s => .str (.ok s)
  | .arr items => .arr (ofItems items) none
  | .obj members => .obj (ofMembers members) none

def ofItems : List Json → List Doc
  | [] => []
  | j :: rest => ofJson j :: ofItems rest

def ofMembers : List (String × Json) → List (Except Fault String × Doc)
  | [] => []
  | (k, j) :: rest => (.ok k, ofJson j) :: ofMembers rest

end

end Doc

end BuildServer
