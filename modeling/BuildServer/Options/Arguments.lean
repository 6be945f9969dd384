import BuildServer.Options.Basic
import BuildServer.Path.Basic

namespace BuildServer.Arguments

def parseableOutput : String := "-use-frontend-parseable-output"
def localizedStrings : String := "-emit-localized-strings"
def localizedStringsPath : String := "-emit-localized-strings-path"
def sdk : String := "-sdk"
def indexStore : String := "-index-store-path"
def moduleMap : String := "-fmodule-map-file"
def clangFlag : String := "-Xcc"

def dropLocalized : List String → List String
  | [] => []
  | [a] => if a = localizedStringsPath ∨ a = localizedStrings then [] else [a]
  | a :: b :: rest =>
    if a = localizedStringsPath then dropLocalized rest
    else if a = localizedStrings then dropLocalized (b :: rest)
    else a :: dropLocalized (b :: rest)

def dropMissingSdk (present : String → Bool) : List String → List String
  | [] => []
  | [a] => [a]
  | a :: b :: rest =>
    if a = sdk ∧ !present b then dropMissingSdk present rest
    else a :: dropMissingSdk present (b :: rest)

def sanitize (present : String → Bool) (arguments : List String) : List String :=
  dropMissingSdk present (dropLocalized (arguments.filter (· != parseableOutput)))

def indexStorePath : List String → Option String
  | [] => none
  | a :: rest =>
    let value := if a = indexStore then rest.head? else stripStart? (indexStore ++ "=") a
    match value with
    | some v => some (if Path.isAbsolute v then Path.normalize v else v)
    | none => indexStorePath rest

def moduleMapPath? (a : String) (rest : List String) : Option String :=
  let joined := stripStart? (moduleMap ++ "=")
  if a = moduleMap then rest.head?.filter (· != clangFlag)
  else
    match joined a with
    | some path => some path
    | none =>
      if a = clangFlag then
        match rest with
        | b :: c :: more => if b = moduleMap ∧ c = clangFlag then more.head? else joined b
        | [b] => joined b
        | [] => none
      else none

def hasMissingModuleMap (present : String → Bool) : List String → Bool
  | [] => false
  | a :: rest =>
    (match moduleMapPath? a rest with
      | some path => !present path
      | none => false) || hasMissingModuleMap present rest

end BuildServer.Arguments
