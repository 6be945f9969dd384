import BuildServer.Message.Stream
import BuildServer.Server.Handlers
import BuildServer.Server.Shared

/-!
A server as a machine. Its reader takes in messages one after another: it acts on notices itself and
starts a task for every request. A move is one action of the reader or of one task, so a run of the
server is a sequence of moves in any order.
-/

namespace BuildServer

inductive TaskKind where
  | request
  | refresh
  deriving DecidableEq, Repr

structure Task where
  kind : TaskKind
  program : Program Unit

def Task.isDone (t : Task) : Bool :=
  t.program.result?.isSome

inductive Input where
  | opened
  | closed
  | broken (reason : String)
  deriving DecidableEq, Repr

inductive Outcome where
  | exited (code : Nat)
  | failed (message : String)
  deriving DecidableEq, Repr

structure Server (κ : Type) where
  shared : Shared κ
  input : Input
  decoder : Frame.Decoder
  inbox : List Incoming
  handling : Program Unit
  tasks : List Task
  outcome : Option Outcome

inductive Move where
  | receive (bytes : Bytes)
  | close
  | breakOff (reason : String)
  | handle
  | goOn
  | beginRefresh
  | step (task : Nat)
  | exit
  | finish

namespace Server

variable {κ : Type}

def initial (site : κ) (store : Store) : Server κ :=
  { shared := .initial site store, input := .opened, decoder := .empty, inbox := []
    handling := .done (), tasks := [], outcome := none }

def isReading (s : Server κ) : Bool :=
  s.inbox.isEmpty && s.handling.result?.isSome && s.outcome.isNone

def spawn (s : Server κ) (kind : TaskKind) (program : Program Unit) : Server κ :=
  { s with tasks := s.tasks ++ [⟨kind, program⟩] }

def dispatch (service : Service) (m : Incoming) (s : Server κ) : Server κ :=
  match Registry.standard.lookup m.method with
  | some (.notice n) => { s with handling := service.notice m n }
  | some (.request r) => s.spawn .request (service.respond (some r) m)
  | none => s.spawn .request (service.respond none m)

def requestsDone (s : Server κ) : Bool :=
  s.tasks.all fun t => t.kind != .request || t.isDone

def broke (reason : String) : Outcome :=
  .failed ("Failed to read from client: " ++ Incoming.brokenStream reason)

/-- The outcome behind the input. After its end all requests are answered first; an exit that was asked for
before keeps its code. -/
def inputOutcome (s : Server κ) : Option Outcome :=
  match s.input with
  | .opened => none
  | .closed =>
    if s.requestsDone then some (.exited (s.shared.exit.getD s.shared.state.exitCode)) else none
  | .broken reason => some (broke reason)

def move (client : Client κ) (service : Service) (s : Server κ) : Move → Option (Server κ)
  | .receive bytes =>
    if s.isReading && s.input == .opened then
      let (messages, decoder) := Incoming.feed s.decoder bytes
      some { s with decoder := decoder, inbox := messages }
    else none
  | .close => if s.isReading && s.input == .opened then some { s with input := .closed } else none
  | .breakOff reason =>
    if s.isReading && s.input == .opened then some { s with input := .broken reason } else none
  | .handle =>
    match s.handling, s.inbox with
    | .done (), m :: rest => some (dispatch service m { s with inbox := rest })
    | _, _ => none
  | .goOn =>
    (s.handling.step (Shared.perform client) s.shared).map fun (p, shared) =>
      { s with handling := p, shared := shared }
  | .beginRefresh =>
    match s.shared.accepted with
    | [] => none
    | _ :: rest =>
      some ({ s with shared := { s.shared with accepted := rest } }.spawn .refresh
        service.backgroundRefresh)
  | .step i =>
    s.tasks[i]?.bind fun t =>
      (t.program.step (Shared.perform client) s.shared).map fun (p, shared) =>
        { s with tasks := s.tasks.set i { t with program := p }, shared := shared }
  | .exit =>
    match s.shared.exit with
    | some code => if s.isReading then some { s with outcome := some (.exited code) } else none
    | none => none
  | .finish =>
    if s.isReading then s.inputOutcome.map fun o => { s with outcome := some o } else none

end Server

end BuildServer
