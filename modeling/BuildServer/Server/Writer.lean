namespace BuildServer

inductive WriteStage where
  | writing
  | flushing
  deriving DecidableEq, Repr

structure WriteError where
  stage : WriteStage
  reason : String
  deriving DecidableEq, Repr

def WriteError.message (e : WriteError) : String :=
  (match e.stage with
    | .writing => "writing frame: "
    | .flushing => "flushing frame: ") ++ e.reason

structure Writer (α : Type) where
  written : List α
  trouble : Option WriteError

namespace Writer

variable {α : Type}

def empty : Writer α := ⟨[], none⟩

def append (w : Writer α) (a : α) : Writer α :=
  { w with written := w.written ++ [a] }

def send (a : α) (w : Writer α) : Except WriteError Unit × Writer α :=
  match w.trouble with
  | none => (.ok (), w.append a)
  | some e =>
    match e.stage with
    | .writing => (.error e, w)
    | .flushing => (.error e, w.append a)

end Writer

end BuildServer
