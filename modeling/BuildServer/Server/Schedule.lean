import BuildServer.Server.Machine

/-!
Two orders of moves. In both the reader comes first, and tasks take turns.
-/

namespace BuildServer.Server

variable {κ : Type} (client : Client κ) (service : Service)

-- Views of the files come with the calls between which they are taken.
def isWork (a : Action) : Bool :=
  match a with
  | .probe _ => true
  | _ => a.isSlow

/-- The slow actions at the beginning of a program, and then all up to the next one. -/
def turn (p : Program Unit) (s : Shared κ) : Program Unit × Shared κ :=
  let (p, s) := p.advance (Shared.perform client) isWork s
  p.advance (Shared.perform client) (!·.isSlow) s

def giveTurn (i : Nat) (s : Server κ) : Server κ :=
  match s.tasks[i]? with
  | none => s
  | some t =>
    let (p, shared) := turn client t.program s.shared
    { s with tasks := s.tasks.set i { t with program := p }, shared := shared }

def tryMove (m : Move) (s : Server κ) : Server κ :=
  (s.move client service m).getD s

def readerMoves : List Move := [.goOn, .beginRefresh, .handle, .exit]

/-- Goes on for at most `fuel` turns, until it has ended or nothing can move. The first task in the queue
that can move gets a turn and then goes behind the others. -/
def takeTurns (give : Nat → Server κ → Server κ) (ended : Server κ → Bool) :
    Nat → List Nat → Server κ → Server κ
  | 0, _, s => s
  | fuel + 1, queue, s =>
    match readerMoves.findSome? (s.move client service) with
    | some s' =>
      let new := List.range' s.tasks.length (s'.tasks.length - s.tasks.length)
      takeTurns give ended fuel (queue ++ new) s'
    | none =>
      match queue.find? fun i => !ended s && (s.move client service (.step i)).isSome with
      | some i => takeTurns give ended fuel (queue.erase i ++ [i]) (give i s)
      | none => s.tryMove client service .finish

def settle (fuel : Nat) (s : Server κ) : Server κ :=
  takeTurns client service (giveTurn client) (fun _ => false) fuel (List.range s.tasks.length) s

def respondTo (fuel : Nat) (m : Move) (s : Server κ) : Server κ :=
  settle client service fuel (s.tryMove client service m)

/-- Makes a move if it is possible, and goes on until all requests are answered or the server has ended.
A turn is one action, and a refresh may be left under way. -/
def attendTo (fuel : Nat) (m : Move) (s : Server κ) : Server κ :=
  let s := s.tryMove client service m
  takeTurns client service (fun i => tryMove client service (.step i))
    (fun s => s.requestsDone || s.outcome.isSome) fuel (List.range s.tasks.length) s

end BuildServer.Server
