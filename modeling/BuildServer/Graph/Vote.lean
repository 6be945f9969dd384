import BuildServer.Table.Basic

namespace BuildServer.Vote

def counts (ns : List String) : Table Nat :=
  ns.foldl (fun t n => t.update n 0 (· + 1)) .empty

def beats (e f : String × Nat) : Bool :=
  f.2 < e.2 || (f.2 == e.2 && e.1 < f.1)

def winner : List (String × Nat) → Option (String × Nat)
  | [] => none
  | e :: rest =>
    match winner rest with
    | none => some e
    | some f => if beats f e then some f else some e

def mostFrequent (ns : List String) : Option String :=
  (winner (counts ns).entries).map (·.1)

end BuildServer.Vote
