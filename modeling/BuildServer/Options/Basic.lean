import BuildServer.Json.Decode

namespace BuildServer

structure CompilerOptions where
  options : List String
  workingDirectory : Option String
  deriving DecidableEq, Repr

def workingDirectory : List String → Option String
  | [] => none
  | "-working-directory" :: value :: _ => some value
  | a :: rest =>
    match stripStart? "-working-directory=" a with
    | some value => some value
    | none => workingDirectory rest

namespace CompilerOptions

def ofArguments (arguments : List String) : CompilerOptions :=
  ⟨arguments, BuildServer.workingDirectory arguments⟩

def toJson (o : CompilerOptions) : Json :=
  Json.objOf [("options", some (Json.strings o.options)),
    ("workingDirectory", o.workingDirectory.map .str)]

structure Draft where
  options : Option (List String)
  workingDirectory : Option (Option String)

def shape : Json.Shape Draft CompilerOptions where
  name := "CompilerOptions"
  start := ⟨none, none⟩
  fields := [
    Json.field "options" (Json.list Json.string) Draft.options
      (fun d x => { d with options := some x }) false,
    Json.field "workingDirectory" (Json.optional Json.string) Draft.workingDirectory
      (fun d x => { d with workingDirectory := some x }) false]
  complete d := do pure ⟨← Json.need "options" d.options, d.workingDirectory.getD none⟩

end CompilerOptions

end BuildServer
