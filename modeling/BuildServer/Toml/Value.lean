import BuildServer.Text.Blank

namespace BuildServer

namespace Toml

/-- How a table came about, which decides what may still be added to it. -/
inductive Origin where
  | header
  | implied
  | dotted
  | inline
  deriving DecidableEq, Repr

end Toml

/-- The elements of an array of tables stand in reverse. -/
inductive Toml where
  | string (s : String)
  | boolean (b : Bool)
  | number
  | datetime
  | array (items : List Toml)
  | table (entries : List (String × Toml)) (origin : Toml.Origin)
  | tables (items : List Toml)
  deriving Inhabited

namespace Toml

inductive Statement where
  | entry (path : List String) (key : String) (value : Toml)
  | header (path : List String) (key : String)
  | element (path : List String) (key : String)

abbrev Entries := List (String × Toml)

def replace (key : String) (v : Toml) (es : Entries) : Entries :=
  es.map fun e => if e.1 = key then (key, v) else e

def change (dotted : Bool) (f : Entries → Origin → Option (Entries × Origin)) :
    List String → Entries → Origin → Option (Entries × Origin)
  | [], es, o => f es o
  | key :: path, es, o =>
    match es.lookup key with
    | none => do
      let (inner, origin) ← change dotted f path [] (if dotted then .dotted else .implied)
      pure (es ++ [(key, .table inner origin)], o)
    | some (.table inner origin) =>
      if origin = .inline ∨ (dotted ∧ origin = .header) then none
      else do
        let (inner, origin) ← change dotted f path inner origin
        pure (replace key (.table inner origin) es, o)
    | some (.tables (.table inner origin :: before)) => do
      let (inner, origin) ← change dotted f path inner origin
      pure (replace key (.tables (.table inner origin :: before)) es, o)
    | some _ => none

def addEntry (path : List String) (key : String) (v : Toml) (es : Entries) (o : Origin) :
    Option (Entries × Origin) :=
  let add := fun (es : Entries) (o : Origin) =>
    if (es.lookup key).isSome ∨ (!path.isEmpty ∧ o ≠ .dotted) then none
    else some (es ++ [(key, v)], o)
  change true add path es o

def addHeader (path : List String) (key : String) (es : Entries) : Option Entries :=
  let open_ := fun (es : Entries) (o : Origin) =>
    match es.lookup key with
    | none => some (es ++ [(key, .table [] .header)], o)
    | some (.table inner .implied) => some (replace key (.table inner .header) es, o)
    | some _ => none
  (change false open_ path es .header).map (·.1)

def addElement (path : List String) (key : String) (es : Entries) : Option Entries :=
  let add := fun (es : Entries) (o : Origin) =>
    match es.lookup key with
    | none => some (es ++ [(key, .tables [.table [] .header])], o)
    | some (.tables ts) => some (replace key (.tables (.table [] .header :: ts)) es, o)
    | some _ => none
  (change false add path es .header).map (·.1)

def addBelow (current path : List String) (key : String) (v : Toml) (es : Entries) :
    Option Entries :=
  (change false (addEntry path key v) current es .header).map (·.1)

def build (current : List String) (es : Entries) : List Statement → Option Entries
  | [] => some es
  | .entry path key v :: rest => do build current (← addBelow current path key v es) rest
  | .header path key :: rest => do build (path ++ [key]) (← addHeader path key es) rest
  | .element path key :: rest => do build (path ++ [key]) (← addElement path key es) rest

def ofStatements? (statements : List Statement) : Option Entries :=
  build [] [] statements

def inlineTable? (entries : List (List String × String × Toml)) : Option Toml := do
  let es ← entries.foldlM (fun es e => (addEntry e.1 e.2.1 e.2.2 es .header).map (·.1)) []
  pure (.table es .inline)

end Toml

end BuildServer
