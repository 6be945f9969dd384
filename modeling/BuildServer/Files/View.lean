import BuildServer.Files.Tree

namespace BuildServer

structure FileView where
  present : String → Bool
  resolve : String → String

def Files.view (fs : Files) : FileView :=
  ⟨fs.present, fs.resolve⟩

end BuildServer
