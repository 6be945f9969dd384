import BuildServer.Build.Tool
import BuildServer.Files.AtomicWrite
import BuildServer.Text.Digest

namespace BuildServer

structure Memory where
  list : Option Listing
  settings : Table (List SchemeSettings)
  index : Table IndexSettings
  deriving DecidableEq

def Memory.empty : Memory := ⟨none, .empty, .empty⟩

structure Site where
  files : Files
  memory : Memory
  runs : List (List String)
  deriving DecidableEq

/-- The build tool for the project in `root`, with a cache directory. -/
structure Builder where
  tool : Tool
  root : String
  cacheDir : String

namespace Builder

abbrev M := ExceptT BuildError (StateM Site)

def cacheName (b : Builder) : String :=
  (Path.fileName? b.root).getD "" ++ "-" ++
    String.ofList ((sha256Hex (Utf8.encode b.root)).toList.take 12)

def token (scheme : String) : String :=
  String.ofList (scheme.toList.map fun c => if c = ' ' ∨ c = '/' then '_' else c) ++ "-" ++
    String.ofList ((sha256Hex (Utf8.encode scheme)).toList.take 8)

def cacheFile (b : Builder) (ending : String) : String :=
  Path.join b.cacheDir (b.cacheName ++ "-" ++ ending)

def listFile (b : Builder) : String := b.cacheFile "list.json"

def settingsFile (b : Builder) (scheme : String) : String :=
  b.cacheFile (token scheme ++ "-settings.json")

def indexFile (b : Builder) (scheme : String) : String :=
  b.cacheFile (token scheme ++ "-settingsForIndex.json")

def launch (b : Builder) (shown arguments : List String) : M Run := do
  let site ← get
  let refuse := fun e => throw (.launch (String.intercalate " " shown) e)
  if arguments.any (·.toList.contains '\x00') then refuse .nulInArgument
  match site.files.locate b.root with
  | .error e => refuse (.file e)
  | .ok l =>
    match site.files.node? l with
    | some (.directory mode) => if !Mode.enterable mode then refuse (.file .accessDenied)
    | _ => refuse (.file .notADirectory)
  if !b.tool.installed then refuse (.file .notFound)
  set { site with runs := arguments :: site.runs }
  pure (b.tool.run site.runs arguments)

def output (b : Builder) (shown arguments : List String) : M Bytes := do
  let r ← b.launch shown arguments
  if r.ending = .exited 0 then pure r.output
  else
    let complaint := trim (Utf8.decodeLossy r.complaints)
    throw (.failed (String.intercalate " " shown) r.ending.text complaint)

def readCache (path : String) (site : Site) : Option Bytes :=
  (site.files.read path).toOption.filter (!·.isEmpty)

def writeCache (path : String) (data : Bytes) : M Unit :=
  modify fun site => { site with files := ((FileM.atomicWrite path data).run.run site.files).2 }

/-- Cached output if that is allowed and there is some, or else that of a new run. -/
def fetch (b : Builder) (arguments : List String) (path : String) (cached : Bool) : M Bytes := do
  let site ← get
  match if cached then readCache path site else none with
  | some data => pure data
  | none =>
    let data ← b.output arguments ("-json" :: arguments)
    writeCache path data
    pure data

def decode {α : Type} (what : String) (r : Json.Reader α) (data : Bytes) : M α :=
  match decodeText r data with
  | .ok a => pure a
  | .error e => throw (.decode what e)

/-- Fetches and decodes. After any failure that cached output may have caused, it runs anew. -/
def query {α : Type} (b : Builder) (what : String) (r : Json.Reader α) (arguments : List String)
    (path : String) (cached : Bool) : M α := do
  let attempt := fun cached => do decode what r (← b.fetch arguments path cached)
  if cached then tryCatch (attempt true) fun _ => attempt false
  else attempt false

def list (b : Builder) (cached : Bool) : M Listing := do
  let site ← get
  match if cached then site.memory.list else none with
  | some l => pure l
  | none =>
    let l ← b.query "list" Listing.shape.read ["-list"] b.listFile cached
    modify fun s => { s with memory := { s.memory with list := some l } }
    pure l

def settings (b : Builder) (scheme : String) (cached : Bool) : M (List SchemeSettings) := do
  let site ← get
  match if cached then site.memory.settings.get? scheme else none with
  | some ss => pure ss
  | none =>
    let ss ← b.query "showBuildSettings" SchemeSettings.reader
      ["-showBuildSettings", "-scheme", scheme] (b.settingsFile scheme) cached
    modify fun s =>
      { s with memory := { s.memory with settings := s.memory.settings.insert scheme ss } }
    pure ss

def keepIndex (scheme : String) (t : IndexSettings) : M Unit :=
  modify fun s => { s with memory := { s.memory with index := s.memory.index.insert scheme t } }

def index (b : Builder) (scheme : String) (cached : Bool) : M IndexSettings := do
  if cached then
    let site ← get
    match site.memory.index.get? scheme with
    | some t => pure t
    | none =>
      match (readCache (b.indexFile scheme) site).bind fun data =>
          (decodeText IndexSettings.reader data).toOption with
      | some t =>
        keepIndex scheme t
        pure t
      | none => pure .empty
  else
    let data ← b.fetch ["-showBuildSettingsForIndex", "-scheme", scheme] (b.indexFile scheme) false
    let t ← decode "settingsForIndex" IndexSettings.reader data
    keepIndex scheme t
    pure t

def warmup (b : Builder) (scheme : String) : M Unit := do
  let resolve := ["-scheme", scheme, "-resolvePackageDependencies"]
  let build := ["-scheme", scheme, "build", "CODE_SIGNING_ALLOWED=NO", "CODE_SIGNING_REQUIRED=NO"]
  tryCatch (do discard (b.output resolve resolve)) fun _ => pure ()
  discard (b.output build build)

def answer (b : Builder) : (c : Call) → Site → c.Answer × Site
  | .list cached, s => (b.list cached).run.run s
  | .index scheme cached, s => (b.index scheme cached).run.run s
  | .settings scheme cached, s => (b.settings scheme cached).run.run s
  | .warmup scheme, s => (b.warmup scheme).run.run s

def client (b : Builder) : Client Site := ⟨b.answer, fun s => s.files.view⟩

end Builder

end BuildServer
