import BuildServer.Build.Call
import BuildServer.Graph.Changes
import BuildServer.Protocol.Params
import BuildServer.Server.Writer
import BuildServer.Store.Memory

/-!
Actions: the steps in which the tasks of a server touch what they share. Between two actions of one
task, any number of actions of others may come.
-/

namespace BuildServer

inductive Action where
  | probe (p : Probe)
  | beginRefresh
  | finishRefresh
  | cachedSnapshot
  | replaceSnapshot (s : Snapshot)
  | invalidate
  | enterUpdate
  | leaveUpdate
  | awaitIdle
  | register (r : Params.Registration)
  | hasDocuments
  | documents
  | record (c : Changes)
  | drain
  | requestRefresh (reason : String)
  | landRefresh
  | note (reason : String)
  | markShutdown
  | exit
  | fetch (path scope : String)
  | store (arguments : ArgumentsByPath) (scope : String)
  | send (m : Outgoing)

abbrev Action.Answer : Action → Type
  | .probe p => p.Answer
  | .cachedSnapshot => Option Snapshot
  | .replaceSnapshot _ => Option Snapshot
  | .hasDocuments => Bool
  | .documents => List String
  | .drain => Changes
  | .fetch _ _ => Except StoreError (List String)
  | .store _ _ => Except StoreError Unit
  | .send _ => Except WriteError Unit
  | _ => Unit

def Action.isSlow : Action → Bool
  | .probe (.call _) => true
  | .fetch _ _ => true
  | .store _ _ => true
  | _ => false

abbrev Program := Dialogue Action.Answer

namespace Program

def act (a : Action) : Program a.Answer :=
  .question a

def inquire {α : Type} (q : Inquiry α) : Program α :=
  q.via fun p => act (.probe p)

def files : Program FileView := act (.probe .files)

def call (c : Call) : Program c.Answer := act (.probe (.call c))

def send (m : Outgoing) : Program (Except WriteError Unit) := act (.send m)

end Program

end BuildServer
