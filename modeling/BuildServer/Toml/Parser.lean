import BuildServer.Toml.Lexeme

namespace BuildServer.Toml

mutual

def scanValue : Nat → List Char → Option (Toml × List Char)
  | 0, _ => none
  | fuel + 1, cs =>
    match cs with
    | '"' :: _ => do
      let (s, rest) ← scanString cs
      pure (.string s, rest)
    | '\'' :: _ => do
      let (s, rest) ← scanString cs
      pure (.string s, rest)
    | '[' :: rest => scanItems fuel [] rest
    | '\x7b' :: rest => scanEntries fuel [] rest
    | _ => scanWord cs

def scanItems : Nat → List Toml → List Char → Option (Toml × List Char)
  | 0, _, _ => none
  | fuel + 1, seen, cs =>
    match skipLines (cs.length + 1) cs with
    | ']' :: rest => some (.array seen.reverse, rest)
    | cs => do
      let (v, rest) ← scanValue fuel cs
      match skipLines (rest.length + 1) rest with
      | ',' :: rest => scanItems fuel (v :: seen) rest
      | ']' :: rest => some (.array (v :: seen).reverse, rest)
      | _ => none

def scanEntries : Nat → List (List String × String × Toml) → List Char → Option (Toml × List Char)
  | 0, _, _ => none
  | fuel + 1, seen, cs =>
    match skipLines (cs.length + 1) cs with
    | '\x7d' :: rest => do pure (← inlineTable? seen.reverse, rest)
    | cs => do
      let (path, key, rest) ← scanKey (cs.length + 1) [] cs
      match rest with
      | '=' :: rest =>
        let (v, rest) ← scanValue fuel (skipSpace rest)
        let seen := (path, key, v) :: seen
        match skipLines (rest.length + 1) rest with
        | ',' :: rest => scanEntries fuel seen rest
        | '\x7d' :: rest => do pure (← inlineTable? seen.reverse, rest)
        | _ => none
      | _ => none

end

def scanStatement (cs : List Char) : Option (Statement × List Char) :=
  let fuel := cs.length + 1
  match cs with
  | '[' :: '[' :: rest => do
    let (path, key, rest) ← scanKey fuel [] rest
    match rest with
    | ']' :: ']' :: rest => some (.element path key, rest)
    | _ => none
  | '[' :: rest => do
    let (path, key, rest) ← scanKey fuel [] rest
    match rest with
    | ']' :: rest => some (.header path key, rest)
    | _ => none
  | _ => do
    let (path, key, rest) ← scanKey fuel [] cs
    match rest with
    | '=' :: rest =>
      let (v, rest) ← scanValue (2 * fuel) (skipSpace rest)
      some (.entry path key v, rest)
    | _ => none

def scanStatements : Nat → List Statement → List Char → Option (List Statement)
  | 0, _, _ => none
  | fuel + 1, seen, cs =>
    match skipLines (cs.length + 1) cs with
    | [] => some seen.reverse
    | cs => do
      let (s, rest) ← scanStatement cs
      match skipComment (skipSpace rest) with
      | [] => some (s :: seen).reverse
      | rest => scanStatements fuel (s :: seen) (← lineEnd? rest)

def parse? (text : String) : Option Entries :=
  let cs := match text.toList with
    | '\uFEFF' :: rest => rest
    | cs => cs
  (scanStatements (cs.length + 1) [] cs).bind ofStatements?

end BuildServer.Toml
