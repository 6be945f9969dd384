import BuildServer.Store.Database

namespace BuildServer

inductive Store where
  | memory (s : MemoryStore)
  | database (db : Database)
  | failing (message : String)
  deriving DecidableEq

namespace Store

def fetch (s : Store) (path scope : String) : Except StoreError (List String) :=
  match s with
  | .memory m => m.fetch path scope
  | .database db => db.fetch path scope
  | .failing message => .error (.database message)

def update (s : Store) (arguments : ArgumentsByPath) (scope : String) : Except StoreError Store :=
  match s with
  | .memory m => .ok (.memory (m.update arguments scope))
  | .database db => .ok (.database (db.update arguments scope))
  | .failing message => .error (.database message)

end Store

end BuildServer
