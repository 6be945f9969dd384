import BuildServer.Decimal.Shortest
import BuildServer.Table.Basic
import BuildServer.Text.Blank

namespace BuildServer

inductive Number where
  | int (n : Int)
  | float (bits : UInt64)
  deriving DecidableEq, Repr

def Number.layout : DecimalLayout := ⟨-5, 16⟩

def Number.render : Number → String
  | .int n => toString n
  | .float bits => layout.render (Nat.pow 2 63 ≤ bits.toNat) (Decimal.ofBits bits)

inductive Json where
  | null
  | bool (b : Bool)
  | num (n : Number)
  | str (s : String)
  | arr (items : List Json)
  | obj (members : List (String × Json))
  deriving Inhabited

namespace Json

def escape (c : Char) : List Char :=
  if c = '"' then ['\\', '"']
  else if c = '\\' then ['\\', '\\']
  else if c = '\x08' then ['\\', 'b']
  else if c = '\t' then ['\\', 't']
  else if c = '\n' then ['\\', 'n']
  else if c = '\x0c' then ['\\', 'f']
  else if c = '\r' then ['\\', 'r']
  else if c.toNat < 0x20 then
    ['\\', 'u', '0', '0', hexDigit (c.toNat / 16), hexDigit (c.toNat % 16)]
  else [c]

def quote (s : String) : List Char :=
  '"' :: (s.toList.flatMap escape ++ ['"'])

mutual

def chars : Json → List Char
  | .null => "null".toList
  | .bool true => "true".toList
  | .bool false => "false".toList
  | .num n => n.render.toList
  | .str s => quote s
  | .arr items => '[' :: (charsOfItems items ++ [']'])
  | .obj members => '{' :: (charsOfMembers members ++ ['}'])

def charsOfItems : List Json → List Char
  | [] => []
  | [j] => j.chars
  | j :: rest => j.chars ++ ',' :: charsOfItems rest

def charsOfMembers : List (String × Json) → List Char
  | [] => []
  | [(k, j)] => quote k ++ ':' :: j.chars
  | (k, j) :: rest => quote k ++ ':' :: (j.chars ++ ',' :: charsOfMembers rest)

end

def render (j : Json) : String :=
  String.ofList j.chars

def bytes (j : Json) : Bytes :=
  Utf8.encodeChars j.chars

def strings (ss : List String) : Json :=
  .arr (ss.map .str)

def int (n : Int) : Json :=
  .num (.int n)

def objOf (members : List (String × Option Json)) : Json :=
  .obj (members.filterMap fun m => m.2.map fun j => (m.1, j))

def ofTable (t : Table Json) : Json :=
  .obj t.entries

def member? (key : String) : Json → Option Json
  | .obj members => members.lookup key
  | _ => none

end Json

end BuildServer
