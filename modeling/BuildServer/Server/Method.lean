namespace BuildServer

inductive Request where
  | start
  | shutdown
  | buildTargets
  | sources
  | inverseSources
  | prepare
  | registerForChanges
  | options
  | wait
  deriving DecidableEq, Repr

inductive Notice where
  | initialized
  | exit
  | filesChanged
  deriving DecidableEq, Repr

namespace Request

def all : List Request :=
  [.start, .shutdown, .buildTargets, .sources, .inverseSources, .prepare, .registerForChanges,
   .options, .wait]

def name : Request → String
  | .start => "build/initialize"
  | .shutdown => "build/shutdown"
  | .buildTargets => "workspace/buildTargets"
  | .sources => "buildTarget/sources"
  | .inverseSources => "buildTarget/inverseSources"
  | .prepare => "buildTarget/prepare"
  | .registerForChanges => "textDocument/registerForChanges"
  | .options => "textDocument/sourceKitOptions"
  | .wait => "workspace/waitForBuildSystemUpdates"

end Request

namespace Notice

def all : List Notice := [.initialized, .exit, .filesChanged]

def name : Notice → String
  | .initialized => "build/initialized"
  | .exit => "build/exit"
  | .filesChanged => "workspace/didChangeWatchedFiles"

end Notice

inductive Method where
  | request (r : Request)
  | notice (n : Notice)
  deriving DecidableEq, Repr

def Method.name : Method → String
  | .request r => r.name
  | .notice n => n.name

structure DuplicateMethod where
  name : String
  deriving DecidableEq, Repr

def DuplicateMethod.message (e : DuplicateMethod) : String :=
  "Duplicate method registration: " ++ e.name

structure Registry where
  methods : List Method
  deriving DecidableEq, Repr

namespace Registry

def lookup (r : Registry) (name : String) : Option Method :=
  r.methods.find? (·.name == name)

def register (r : Registry) (m : Method) : Except DuplicateMethod Registry :=
  match r.lookup m.name with
  | some _ => .error ⟨m.name⟩
  | none => .ok ⟨r.methods ++ [m]⟩

def make (requests : List Request) (notices : List Notice) : Except DuplicateMethod Registry :=
  (requests.map Method.request ++ notices.map Method.notice).foldlM register ⟨[]⟩

def standard : Registry :=
  ⟨Request.all.map .request ++ Notice.all.map .notice⟩

theorem make_all : make Request.all Notice.all = .ok standard := by
  rfl

end Registry

end BuildServer
