import BuildServer.Launch

namespace BuildServer

namespace Host

def startFiles (env : Environment) (root : String) : List String :=
  [env.settingsPath, ProjectConfig.path root]

def cacheFiles (b : Builder) (schemes : List String) : List String :=
  b.listFile :: schemes.flatMap fun s => [b.settingsFile s, b.indexFile s]

def listedSchemes (b : Builder) (fs : Files) : List String :=
  match fs.read b.listFile with
  | .ok data => ((decodeText Listing.shape.read data).toOption.map Listing.schemes).getD []
  | .error _ => []

def pathIn (argument : String) : List String :=
  match argument.toList.dropWhile (· != '/') with
  | [] => []
  | cs => [String.ofList cs]

def mentionedPaths (b : Builder) (fs : Files) (scheme : String) : List String :=
  match (fs.read (b.indexFile scheme)).toOption.bind fun data =>
      (decodeText IndexSettings.reader data).toOption with
  | none => []
  | some t => t.entries.flatMap fun (_, files) => files.entries.flatMap fun (path, s) =>
    path :: s.arguments.flatMap pathIn

def add (path : String) (content : Option Bytes) (fs : Files) : Files :=
  let made : FileM Unit := do
    FileM.makeDirectories (FileM.directoryOf path)
    match content with
    | some b => FileM.writeFile path b
    | none => FileM.makeDirectories path
  (made.run.run fs).2

def changes (before after : Files) : List (String × Node) :=
  (after.nodes.filter fun e => before.node? e.1 != some e.2).reverse.map fun e =>
    (Files.pathOf e.1, e.2)

end Host

namespace Launched

def takeWritten (l : Launched) : List Outgoing × Launched :=
  let shared := l.server.shared
  let writer := { shared.writer with written := [] }
  (shared.writer.written,
    { l with server := { l.server with shared := { shared with writer := writer } } })

def files (l : Launched) : Files := l.server.shared.site.files

def withFiles (l : Launched) (f : Files → Files) : Launched :=
  let shared := l.server.shared
  let site := { shared.site with files := f shared.site.files }
  { l with server := { l.server with shared := { shared with site := site } } }

end Launched

end BuildServer
