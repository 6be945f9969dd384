import BuildServer.Json.Decode

namespace BuildServer

structure Container where
  name : String
  schemes : List String
  targets : List String
  deriving DecidableEq, Repr

structure Listing where
  project : Option Container
  workspace : Option Container
  deriving DecidableEq, Repr

def Listing.empty : Listing := ⟨none, none⟩

def Listing.schemes (l : Listing) : List String :=
  match l.project.or l.workspace with
  | some c => c.schemes
  | none => []

structure SchemeSettings where
  target : String
  action : String
  buildDir : String
  buildRoot : String
  project : String
  sourceRoot : String
  targetName : String
  deriving DecidableEq, Repr

structure FileSettings where
  swift : Option (List String)
  clang : Option (List String)
  header : Option (List String)
  deriving DecidableEq, Repr

def FileSettings.arguments (s : FileSettings) : List String :=
  s.swift.getD [] ++ s.clang.getD [] ++ s.header.getD []

abbrev IndexSettings := Table (Table FileSettings)

namespace Container

structure Draft where
  name : Option String
  schemes : Option (List String)
  targets : Option (List String)

def shape : Json.Shape Draft Container where
  name := "ListedContainer"
  start := ⟨none, none, none⟩
  fields := [
    Json.field "name" Json.string Draft.name (fun d s => { d with name := some s }) false,
    Json.field "schemes" (Json.list Json.string) Draft.schemes
      (fun d s => { d with schemes := some s }) true,
    Json.field "targets" (Json.list Json.string) Draft.targets
      (fun d s => { d with targets := some s }) true]
  complete d := do pure ⟨← Json.need "name" d.name, d.schemes.getD [], d.targets.getD []⟩

end Container

namespace Listing

structure Draft where
  project : Option (Option Container)
  workspace : Option (Option Container)

def shape : Json.Shape Draft Listing where
  name := "XcodeList"
  start := ⟨none, none⟩
  fields := [
    Json.field "project" (Json.optional Container.shape.read) Draft.project
      (fun d c => { d with project := some c }) false,
    Json.field "workspace" (Json.optional Container.shape.read) Draft.workspace
      (fun d c => { d with workspace := some c }) false]
  complete d := .ok ⟨d.project.getD none, d.workspace.getD none⟩

end Listing

namespace SchemeSettings

structure Values where
  buildDir : Option String
  buildRoot : Option String
  project : Option String
  sourceRoot : Option String
  targetName : Option String

def valuesShape : Json.Shape Values Values where
  name := "BuildSettings"
  start := ⟨none, none, none, none, none⟩
  fields := [
    Json.field "BUILD_DIR" Json.string Values.buildDir
      (fun d s => { d with buildDir := some s }) true,
    Json.field "BUILD_ROOT" Json.string Values.buildRoot
      (fun d s => { d with buildRoot := some s }) true,
    Json.field "PROJECT" Json.string Values.project
      (fun d s => { d with project := some s }) true,
    Json.field "SOURCE_ROOT" Json.string Values.sourceRoot
      (fun d s => { d with sourceRoot := some s }) true,
    Json.field "TARGET_NAME" Json.string Values.targetName
      (fun d s => { d with targetName := some s }) true]
  complete d := .ok d

structure Draft where
  target : Option String
  action : Option String
  values : Option Values

def shape : Json.Shape Draft SchemeSettings where
  name := "SchemeBuildSettings"
  start := ⟨none, none, none⟩
  fields := [
    Json.field "target" Json.string Draft.target (fun d s => { d with target := some s }) false,
    Json.field "action" Json.string Draft.action (fun d s => { d with action := some s }) false,
    Json.field "buildSettings" valuesShape.read Draft.values
      (fun d s => { d with values := some s }) false]
  complete d := do
    let target ← Json.need "target" d.target
    let action ← Json.need "action" d.action
    let v ← Json.need "buildSettings" d.values
    pure ⟨target, action, v.buildDir.getD "", v.buildRoot.getD "", v.project.getD "",
      v.sourceRoot.getD "", v.targetName.getD ""⟩

def reader : Json.Reader (List SchemeSettings) := Json.list shape.read

end SchemeSettings

namespace FileSettings

structure Draft where
  swift : Option (Option (List String))
  clang : Option (Option (List String))
  header : Option (Option (List String))

def shape : Json.Shape Draft FileSettings where
  name := "FileSettings"
  start := ⟨none, none, none⟩
  fields := [
    Json.field "swiftASTCommandArguments" (Json.optional (Json.list Json.string)) Draft.swift
      (fun d s => { d with swift := some s }) false,
    Json.field "clangASTCommandArguments" (Json.optional (Json.list Json.string)) Draft.clang
      (fun d s => { d with clang := some s }) false,
    Json.field "clangPCHCommandArguments" (Json.optional (Json.list Json.string)) Draft.header
      (fun d s => { d with header := some s }) false]
  complete d := .ok ⟨d.swift.getD none, d.clang.getD none, d.header.getD none⟩

end FileSettings

def IndexSettings.reader : Json.Reader IndexSettings :=
  Json.table (Json.table FileSettings.shape.read)

end BuildServer
