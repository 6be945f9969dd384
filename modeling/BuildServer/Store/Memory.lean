import BuildServer.Table.Basic

namespace BuildServer

abbrev ArgumentsByPath := Table (List String)

inductive StoreError where
  | notFound (path scope : String)
  | invalidPayload (path : String)
  | database (message : String)
  deriving DecidableEq, Repr

def StoreError.message : StoreError → String
  | .notFound path scope => "no stored arguments for " ++ path ++ " in scope " ++ scope
  | .invalidPayload path => "stored arguments for " ++ path ++ " are not a JSON string list"
  | .database message => message

structure MemoryStore where
  scopes : Table ArgumentsByPath
  deriving DecidableEq

namespace MemoryStore

def empty : MemoryStore := ⟨.empty⟩

def scope (s : MemoryStore) (scope : String) : ArgumentsByPath :=
  (s.scopes.get? scope).getD .empty

def fetch (s : MemoryStore) (path scope : String) : Except StoreError (List String) :=
  match (s.scope scope).get? path with
  | some arguments => .ok arguments
  | none => .error (.notFound path scope)

def update (s : MemoryStore) (arguments : ArgumentsByPath) (scope : String) : MemoryStore :=
  ⟨s.scopes.insert scope arguments⟩

end MemoryStore

end BuildServer
