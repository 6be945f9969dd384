import BuildServer.Build.Report
import BuildServer.Graph.Snapshot
import BuildServer.Graph.Vote
import BuildServer.Options.Arguments
import BuildServer.Target.Uri

namespace BuildServer

structure Member where
  target : BuildTarget
  options : Table CompilerOptions
  deriving DecidableEq

namespace Member

def nestedNames (scheme : String) (settings : IndexSettings) : List String :=
  (settings.filter fun name files => name != scheme && !files.isEmpty).keys

def filesUnder (names : List String) (settings : IndexSettings) : Table FileSettings :=
  match names.findSome? fun name => (settings.get? name).filter (!·.isEmpty) with
  | some files => files
  | none => settings.values.foldl .union .empty

/-- Options by normalized path. Of several paths with one normal form the greatest counts. -/
def optionsOf (present : String → Bool) (files : Table FileSettings) : Table CompilerOptions :=
  .ofList (files.entries.map fun (path, s) =>
    (Path.normalize path, .ofArguments (Arguments.sanitize present s.arguments)))

def ofScheme (project scheme : String) (settings : IndexSettings) (present : String → Bool) :
    List Member :=
  let nested := nestedNames scheme settings
  let uri := fun name => (TargetUri.nested project scheme name).render
  let options := fun names => optionsOf present (filesUnder names settings)
  ⟨⟨(TargetUri.forScheme project scheme).render, scheme, nested.map uri⟩, options [scheme]⟩ ::
    nested.map fun name =>
      ⟨⟨uri name, scheme ++ " (" ++ name ++ ")", []⟩, options [name, scheme]⟩

def uri (m : Member) : String := m.target.uri

def files (m : Member) : List String := m.options.keys

def indexStores (m : Member) : List String :=
  m.options.values.filterMap fun o => Arguments.indexStorePath o.options

end Member

namespace Snapshot

def targetsByFileOf (members : List Member) : Table (List String) :=
  let sets := members.foldl (fun t m => m.files.foldl (fun t f => t.update f .empty (·.add m.uri)) t)
    (.empty : Table Names)
  sets.map fun _ uris => uris.keys

/-- The options of every file, from the first target that has the file. -/
def optionsByFileOf (options : Table (Table CompilerOptions)) : Table CompilerOptions :=
  options.values.foldl (fun found o => o.union found) .empty

def ofMembers (members : List Member) (indexStore : Option String) : Snapshot :=
  let options := Table.ofList (members.map fun m => (m.uri, m.options))
  { targets := (members.map Member.target).mergeSort fun s t => decide (s.uri ≤ t.uri)
    files := .ofList (members.map fun m => (m.uri, m.files))
    options := options
    targetsByFile := targetsByFileOf members
    optionsByFile := optionsByFileOf options
    indexStore := indexStore }

end Snapshot

end BuildServer
