import BuildServer.Target.Query

namespace BuildServer

structure TargetUri where
  project : String
  scheme : String
  target : Option String
  deriving DecidableEq, Repr

inductive TargetUriError where
  | unexpectedScheme (uri : String)
  | missingScheme (uri : String)
  deriving DecidableEq, Repr

def TargetUriError.message : TargetUriError → String
  | .unexpectedScheme uri => "target uri does not use the xcode:// scheme: " ++ uri
  | .missingScheme uri => "target uri has no scheme query item: " ++ uri

namespace TargetUri

def start : String := "xcode://"

def nonempty? (s : String) : Option String :=
  if s.isEmpty then none else some s

def forScheme (project scheme : String) : TargetUri := ⟨project, scheme, none⟩

def nested (project scheme target : String) : TargetUri := ⟨project, scheme, nonempty? target⟩

def value? (key : String) (items : List (String × String)) : Option String :=
  items.lookup key

def parse (uri : String) : Except TargetUriError TargetUri :=
  match stripStart? start uri with
  | none => .error (.unexpectedScheme uri)
  | some rest =>
    let (project, query) := (cutAt '?' rest.toList).getD (rest.toList, [])
    let items := Query.items query
    match value? "scheme" items with
    | none => .error (.missingScheme uri)
    | some scheme =>
      .ok ⟨String.ofList project, scheme, (value? "target" items).bind nonempty?⟩

def parse? (uri : String) : Option TargetUri :=
  (parse uri).toOption

def render (t : TargetUri) : String :=
  let items := ("scheme", t.scheme) :: (t.target.map fun n => ("target", n)).toList
  start ++ t.project ++ "?" ++ Query.render items

/-- The scope under which the arguments of a prepared target are stored. -/
def cacheScope (t : TargetUri) : String :=
  match t.target with
  | some n => t.scheme ++ "::" ++ n
  | none => t.scheme

def withProject (t : TargetUri) (project : String) : TargetUri :=
  { t with project := project }

end TargetUri

def projectName (root : String) : String :=
  (Path.fileName? root).getD ""

end BuildServer
