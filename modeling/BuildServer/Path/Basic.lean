import BuildServer.Text.Blank

namespace BuildServer

namespace Path

inductive Part where
  | root
  | here
  | up
  | name (s : String)
  deriving DecidableEq, Repr

def Part.text : Part → String
  | .root => "/"
  | .here => "."
  | .up => ".."
  | .name s => s

def isAbsolute (path : String) : Bool :=
  path.toList.head? == some '/'

def partOf? (piece : List Char) : Option Part :=
  if piece.isEmpty ∨ piece = ['.'] then none
  else if piece = ['.', '.'] then some .up
  else some (.name (String.ofList piece))

def parts (path : String) : List Part :=
  let ps := pieces '/' path.toList
  let inner := ps.filterMap partOf?
  if isAbsolute path then .root :: inner
  else if ps.head? == some ['.'] then .here :: inner
  else inner

def ofParts : List Part → String
  | .root :: rest => "/" ++ String.intercalate "/" (rest.map Part.text)
  | ps => String.intercalate "/" (ps.map Part.text)

def fileName? (path : String) : Option String :=
  match (parts path).getLast? with
  | some (.name s) => some s
  | _ => none

def parent? (path : String) : Option String :=
  match (parts path).getLast? with
  | none | some .root => none
  | some _ => some (ofParts (parts path).dropLast)

def extension? (path : String) : Option String := do
  let name ← fileName? path
  let tail := name.toList.reverse.takeWhile (· != '.')
  if tail.length + 1 < name.length then some (String.ofList tail.reverse) else none

def join (base path : String) : String :=
  if isAbsolute path then path
  else if base.isEmpty || base.toList.getLast? == some '/' then base ++ path
  else base ++ "/" ++ path

/-- Adds a part to normalized parts, the latest first: a dot adds nothing, and an up part removes a
name, stays at the root and is kept otherwise. -/
def push (seen : List Part) : Part → List Part
  | .here => seen
  | .up =>
    match seen with
    | .name _ :: rest => rest
    | .root :: rest => .root :: rest
    | rest => .up :: rest
  | p => p :: seen

def normalParts (path : String) : List Part :=
  ((parts path).foldl push []).reverse

def normalize (path : String) : String :=
  match normalParts path with
  | [] => "."
  | ps => ofParts ps

end Path

end BuildServer
