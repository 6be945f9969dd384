import BuildServer.Server.BuildState

/-!
Waiting until no update is in progress. A waiter registers for wake-ups before it looks at the depth,
and the last update to leave sends a wake-up after it has left. Each of these is a move of its own, so
other moves may come between any two of them.
-/

namespace BuildServer

inductive Waiter where
  | arriving
  | registered (wakes : Nat)
  | parked (wakes : Nat)
  | returned
  deriving DecidableEq, Repr

/-- What a waiter does next, if anything: it registers, looks, and parks unless it may return. A
wake-up after its registration brings a parked waiter back to the start. -/
def Waiter.next (idle : Bool) (wakes : Nat) : Waiter → Option Waiter
  | .arriving => some (.registered wakes)
  | .registered n => some (if idle then .returned else .parked n)
  | .parked n => if n < wakes then some .arriving else none
  | .returned => none

structure Waiting where
  state : BuildState
  wakes : Nat
  due : Nat
  waiters : List Waiter
  deriving DecidableEq

namespace Waiting

inductive Move where
  | enter
  | request
  | leave
  | land
  | endRefresh
  | wake
  | arrive
  | step (waiter : Nat)
  deriving DecidableEq, Repr

def initial : Waiting := ⟨.initial, 0, 0, []⟩

def leaveBy (f : BuildState → BuildState) (w : Waiting) : Waiting :=
  { w with
    state := f w.state
    due := if (f w.state).isIdle then w.due + 1 else w.due }

def move : Move → Waiting → Option Waiting
  | .enter, w => some { w with state := w.state.enterUpdate }
  | .request, w => w.state.acceptRefresh?.map fun state => { w with state := state }
  | .leave, w => some (w.leaveBy .leaveUpdate)
  | .land, w => if w.state.inFlight then some { w with state := w.state.land } else none
  | .endRefresh, w => if w.state.inFlight then some (w.leaveBy (·.land.leaveUpdate)) else none
  | .wake, w => if w.due = 0 then none else some { w with wakes := w.wakes + 1, due := w.due - 1 }
  | .arrive, w => some { w with waiters := w.waiters ++ [.arriving] }
  | .step i, w =>
    (w.waiters[i]?.bind (·.next w.state.isIdle w.wakes)).map fun next =>
      { w with waiters := w.waiters.set i next }

def play (ms : List Move) (w : Waiting) : Waiting :=
  ms.foldl (fun w m => (w.move m).getD w) w

def settle (w : Waiting) : Waiting :=
  w.play ((List.range w.waiters.length).flatMap fun i => List.replicate 3 (.step i))

def returned (w : Waiting) : List Bool :=
  w.waiters.map (· == .returned)

end Waiting

end BuildServer
