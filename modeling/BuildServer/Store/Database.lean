import BuildServer.Json.Decode
import BuildServer.Store.Memory
import BuildServer.Text.Digest

namespace BuildServer

structure ArgumentSet where
  hash : String
  payload : String
  deriving DecidableEq, Repr

structure ArgumentRow where
  scope : String
  path : String
  hash : String
  deriving DecidableEq, Repr

structure Database where
  sets : List ArgumentSet
  rows : List ArgumentRow
  deriving DecidableEq, Repr

namespace Database

def empty : Database := ⟨[], []⟩

def payloadOf (arguments : List String) : String :=
  (Json.strings arguments).render

def hashOf (payload : String) : String :=
  sha256Hex (Utf8.encode payload)

def insertSet (db : Database) (set : ArgumentSet) : Database :=
  if db.sets.any (·.hash == set.hash) then db else { db with sets := db.sets ++ [set] }

def putRow (db : Database) (row : ArgumentRow) : Database :=
  let others := db.rows.filter fun r => !(r.scope == row.scope && r.path == row.path)
  { db with rows := others ++ [row] }

def clearScope (db : Database) (scope : String) : Database :=
  { db with rows := db.rows.filter (·.scope != scope) }

def collect (db : Database) : Database :=
  { db with sets := db.sets.filter fun s => db.rows.any (·.hash == s.hash) }

def store (scope : String) (db : Database) (entry : String × List String) : Database :=
  let payload := payloadOf entry.2
  let hash := hashOf payload
  (db.insertSet ⟨hash, payload⟩).putRow ⟨scope, entry.1, hash⟩

def update (db : Database) (arguments : ArgumentsByPath) (scope : String) : Database :=
  (arguments.entries.foldl (store scope) (db.clearScope scope)).collect

def payload? (db : Database) (path scope : String) : Option String := do
  let row ← db.rows.find? fun r => r.scope == scope && r.path == path
  let set ← db.sets.find? (·.hash == row.hash)
  pure set.payload

def fetch (db : Database) (path scope : String) : Except StoreError (List String) :=
  match db.payload? path scope with
  | none => .error (.notFound path scope)
  | some payload =>
    match decodeText (Json.list Json.string) (Utf8.encode payload) with
    | .ok arguments => .ok arguments
    | .error _ => .error (.invalidPayload path)

end Database

end BuildServer
