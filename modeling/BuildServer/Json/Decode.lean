import BuildServer.Json.Parser
import BuildServer.Text.Printable

namespace BuildServer

inductive Found where
  | null
  | bool (b : Bool)
  | num (n : Number)
  | str (s : String)
  | sequence
  | map
  deriving DecidableEq, Repr

def quoted (s : String) : String := "\"" ++ s ++ "\""

def ticked (s : String) : String := "\x60" ++ s ++ "\x60"

/-- A character as error messages show it in a text between quotes. One that does not show by
itself is written as its number. -/
def debugChar (c : Char) : List Char :=
  if c = '"' ∨ c = '\\' then ['\\', c]
  else if c = '\n' then ['\\', 'n']
  else if c = '\r' then ['\\', 'r']
  else if c = '\t' then ['\\', 't']
  else if c.toNat = 0 then ['\\', '0']
  else if isPrintable c then [c]
  else ['\\', 'u', '\x7b'] ++ Nat.toDigits 16 c.toNat ++ ['\x7d']

def debugQuoted (s : String) : String :=
  quoted (String.ofList (s.toList.flatMap debugChar))

def Found.describe : Found → String
  | .null => "null"
  | .bool b => "boolean " ++ ticked (toString b)
  | .num (.int n) => "integer " ++ ticked (toString n)
  | .num n => "floating point " ++ ticked n.render
  | .str s => "string " ++ debugQuoted s
  | .sequence => "sequence"
  | .map => "map"

inductive Mismatch where
  | invalidType (found : Found) (expected : String)
  | invalidValue (found : Found) (expected : String)
  | invalidLength (found : Nat) (expected : String)
  | missingField (name : String)
  | duplicateField (name : String)
  | noVariant (type : String)
  deriving DecidableEq, Repr

def Mismatch.message : Mismatch → String
  | .invalidType found expected => "invalid type: " ++ found.describe ++ ", expected " ++ expected
  | .invalidValue found expected => "invalid value: " ++ found.describe ++ ", expected " ++ expected
  | .invalidLength found expected => "invalid length " ++ toString found ++ ", expected " ++ expected
  | .missingField name => "missing field " ++ ticked name
  | .duplicateField name => "duplicate field " ++ ticked name
  | .noVariant type => "data did not match any variant of untagged enum " ++ type

inductive JsonError where
  | endOfText
  | syntaxFlaw (f : Flaw)
  | data (m : Mismatch)
  deriving DecidableEq, Repr

def JsonError.summary : JsonError → String
  | .endOfText => "<eof>"
  | .syntaxFlaw _ => "<syntax>"
  | .data m => m.message

def JsonError.message : JsonError → String
  | .endOfText => "EOF while parsing a value"
  | .syntaxFlaw f => f.message
  | .data m => m.message

namespace Json

/-- Why a reader stops. An array with more elements than its record has fields is told apart,
since text and values report it differently. -/
inductive Stop where
  | fault (f : Fault)
  | mismatch (m : Mismatch)
  | surplus (size : Nat)
  deriving DecidableEq, Repr

abbrev Reader (α : Type) := Doc → Except Stop α

def raise {α : Type} (m : Mismatch) : Except Stop α :=
  .error (.mismatch m)

def lift {α : Type} : Except Fault α → Except Stop α
  | .ok a => .ok a
  | .error f => .error (.fault f)

def refuse {α : Type} (expected : String) : Reader α
  | .null => raise (.invalidType .null expected)
  | .bool b => raise (.invalidType (.bool b) expected)
  | .num n => do raise (.invalidType (.num (← lift n)) expected)
  | .str s => do raise (.invalidType (.str (← lift s)) expected)
  | .arr _ _ => raise (.invalidType .sequence expected)
  | .obj _ _ => raise (.invalidType .map expected)
  | .broken b => .error (.fault b.used)

def string : Reader String
  | .str s => lift s
  | d => refuse "a string" d

def boolean : Reader Bool
  | .bool b => .ok b
  | d => refuse "a boolean" d

def integer (low high : Int) (type : String) : Reader Int
  | .num n => do
    match ← lift n with
    | .int i => if low ≤ i ∧ i ≤ high then .ok i else raise (.invalidValue (.num (.int i)) type)
    | n => raise (.invalidType (.num n) type)
  | d => refuse type d

def int64 : Reader Int := integer (-0x8000000000000000) 0x7FFFFFFFFFFFFFFF "i64"

def int32 : Reader Int := integer (-0x80000000) 0x7FFFFFFF "i32"

def optional {α : Type} (r : Reader α) : Reader (Option α)
  | .null => .ok none
  | d => (r d).map some

def readItems {α : Type} (r : Reader α) (seen : List α) : List Doc → Except Stop (List α)
  | [] => .ok seen.reverse
  | d :: rest => do
    let a ← r d
    readItems r (a :: seen) rest

def list {α : Type} (r : Reader α) : Reader (List α)
  | .arr items e => do
    let as ← readItems r [] items
    lift (Doc.ending e)
    pure as
  | d => refuse "a sequence" d

def readEntries {α : Type} (r : Reader α) (seen : Table α) :
    List (Except Fault String × Doc) → Except Stop (Table α)
  | [] => .ok seen
  | (k, d) :: rest => do
    let key ← lift k
    let a ← r d
    readEntries r (seen.insert key a) rest

def table {α : Type} (r : Reader α) : Reader (Table α)
  | .obj members e => do
    let t ← readEntries r .empty members
    lift (Doc.ending e)
    pure t
  | d => refuse "a map" d

def any (depth : Nat) : Reader Json := fun d => lift (d.value depth)

structure Field (σ : Type) where
  name : String
  filled : σ → Bool
  fill : σ → Doc → Except Stop σ
  hasDefault : Bool

/-- A record: its fields in order, and how it is completed at the end of an object. -/
structure Shape (σ α : Type) where
  name : String
  start : σ
  fields : List (Field σ)
  complete : σ → Except Mismatch α

def Shape.expected {σ α : Type} (s : Shape σ α) : String :=
  let n := s.fields.length
  "struct " ++ s.name ++ " with " ++ toString n ++ (if n == 1 then " element" else " elements")

def Shape.readMembers {σ α : Type} (s : Shape σ α) (r : σ) :
    List (Except Fault String × Doc) → Except Stop σ
  | [] => .ok r
  | (k, d) :: rest => do
    let key ← lift k
    match s.fields.find? (·.name == key) with
    | some f =>
      if f.filled r then raise (.duplicateField f.name)
      else s.readMembers (← f.fill r d) rest
    | none => do
      lift d.skip
      s.readMembers r rest

def Shape.readElements {σ α : Type} (s : Shape σ α) (e : Option Fault) :
    Nat → σ → List (Field σ) → List Doc → Except Stop σ
  | seen, r, [], rest => do
    if rest.isEmpty then lift (Doc.ending e) else .error (.surplus (seen + rest.length))
    pure r
  | seen, r, f :: fields, [] => do
    lift (Doc.ending e)
    if f.hasDefault then s.readElements e (seen + 1) r fields []
    else raise (.invalidLength seen s.expected)
  | seen, r, f :: fields, d :: rest => do
    s.readElements e (seen + 1) (← f.fill r d) fields rest

def Shape.done {σ α : Type} (s : Shape σ α) (r : σ) : Except Stop α :=
  match s.complete r with
  | .ok a => .ok a
  | .error m => raise m

def Shape.read {σ α : Type} (s : Shape σ α) : Reader α
  | .obj members e => do
    let r ← s.readMembers s.start members
    lift (Doc.ending e)
    s.done r
  | .arr items e => do
    let r ← s.readElements e 0 s.start s.fields items
    s.done r
  | d => refuse ("struct " ++ s.name) d

def need {α : Type} (name : String) : Option α → Except Mismatch α
  | some a => .ok a
  | none => .error (.missingField name)

def field {σ α : Type} (name : String) (r : Reader α) (get : σ → Option α) (put : σ → α → σ)
    (hasDefault : Bool) : Field σ :=
  ⟨name, fun s => (get s).isSome, fun s d => do pure (put s (← r d)), hasDefault⟩

end Json

open Json in
def decodeText {α : Type} (r : Reader α) (text : Bytes) : Except JsonError α :=
  let t := Json.read text
  match r t.doc, t.behind with
  | .ok a, none => .ok a
  | .ok _, some (.flaw f) => .error (.syntaxFlaw f)
  | .ok _, some .endOfText => .error .endOfText
  | .error (.fault .endOfText), _ => .error .endOfText
  | .error (.fault (.flaw f)), _ => .error (.syntaxFlaw f)
  | .error (.mismatch m), _ => .error (.data m)
  | .error (.surplus _), _ => .error (.syntaxFlaw .trailing)

open Json in
def decodeValue {α : Type} (r : Reader α) (j : Json) : Except JsonError α :=
  match r (.ofJson j) with
  | .ok a => .ok a
  | .error (.fault .endOfText) => .error .endOfText
  | .error (.fault (.flaw f)) => .error (.syntaxFlaw f)
  | .error (.mismatch m) => .error (.data m)
  | .error (.surplus n) => .error (.data (.invalidLength n "fewer elements in array"))

def maxDepth : Nat := 127

def Json.parse (text : Bytes) : Except JsonError Json :=
  decodeText (Json.any maxDepth) text

end BuildServer
