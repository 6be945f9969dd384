import BuildServer.Host

/-!
The command line. The files that the server may look at are loaded before it starts, messages go from
standard input to standard output, and changed files are written after every move. This program starts
no other one, so it works with the cached answers of the build tool alone, and the argument store lasts
as long as it runs.
-/

namespace BuildServer.CommandLine

def environment : IO Environment := do
  pure ⟨← IO.getEnv "HOME", ← IO.getEnv "XDG_CACHE_HOME", ← IO.getEnv "XCODE_BSP_CACHE_DIR",
    ← IO.getEnv "XCODE_BSP_LEGACY_OPTIONS_CHANGED"⟩

def load (fs : Files) (path : String) : IO Files := do
  try
    let content ← IO.FS.readBinFile path
    pure (Host.add path (some content.toList) fs)
  catch _ =>
    try
      discard (IO.FS.realPath path)
      pure (Host.add path none fs)
    catch _ => pure fs

def setRights (path : String) (mode usual : Nat) : IO Unit :=
  if mode = usual then pure () else IO.Prim.setAccessRights path mode.toUInt32

def save (path : String) (node : Node) : IO Unit :=
  match node with
  | .directory mode => do
    IO.FS.createDirAll path
    setRights path mode 0o755
  | .file content mode => do
    IO.FS.createDirAll (FileM.directoryOf path)
    let file ← IO.FS.Handle.mk path (if content.isEmpty then .append else .write)
    file.write ⟨content.toArray⟩
    setRights path mode 0o644
  | .link _ => pure ()

def saveChanges (before after : Files) : IO Unit :=
  (Host.changes before after).forM fun (path, node) => do
    try save path node catch _ => pure ()

def tool : Tool := ⟨false, fun _ _ => ⟨[], [], .exited 1⟩⟩

def loadCache (l : Launched) : IO Launched := do
  let b := l.builder
  let fs ← load l.files b.listFile
  let schemes := l.service.active ++ Host.listedSchemes b fs
  let fs ← (Host.cacheFiles b schemes).foldlM load fs
  let fs ← (schemes.flatMap (Host.mentionedPaths b fs)).foldlM load fs
  pure (l.withFiles fun _ => fs)

def complain (lines : List String) : IO Unit := do
  let stderr ← IO.getStderr
  lines.forM stderr.putStrLn

def read (input : IO.FS.Stream) (l : Launched) : IO Move := do
  try
    let bytes ← input.read l.server.decoder.wanted.toUSize
    pure (if bytes.isEmpty then .close else .receive bytes.toList)
  catch e => pure (.breakOff (toString e))

def deliver (output : IO.FS.Stream) (before after : Launched) : IO Launched := do
  let (messages, next) := after.takeWritten
  saveChanges before.files next.files
  messages.forM fun m => output.write ⟨(Frame.encode m.toJson).toArray⟩
  output.flush
  pure next

-- Messages are delivered before a refresh goes on that was left under way, so nobody waits for it.
partial def serve (input output : IO.FS.Stream) (l : Launched) : IO UInt32 := do
  match l.server.outcome with
  | some (.exited code) => pure code.toUInt32
  | some (.failed message) =>
    complain ["Error: " ++ message]
    pure 1
  | none =>
    let rested ← deliver output l (l.rest 1000000)
    let moved := rested.move 1000000 (← read input rested)
    serve input output (← deliver output rested moved)

def run (arguments : List String) : IO UInt32 := do
  let env ← environment
  let root := (← IO.currentDir).toString
  let fs ← (Host.startFiles env root).foldlM load (Host.add root none .empty)
  match launch tool env root arguments ⟨fs, []⟩ with
  | (.error refusal, disk) =>
    saveChanges fs disk.files
    complain refusal.complaints
    pure refusal.code.toUInt32
  | (.ok l, disk) =>
    saveChanges fs disk.files
    serve (← IO.getStdin) (← IO.getStdout) (← loadCache l)

end BuildServer.CommandLine

def main (arguments : List String) : IO UInt32 :=
  BuildServer.CommandLine.run arguments
