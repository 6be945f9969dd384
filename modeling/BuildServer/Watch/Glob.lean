import BuildServer.Text.Blank

/-!
Glob patterns for whole paths. A star stands for any characters, also for slashes. Two stars stand for
directories: `**/` at the beginning for any of them or none, `/**` at the end for all that is below.
Braces hold texts to choose from, with commas between. Every other character stands for itself.
-/

namespace BuildServer

namespace Glob

inductive Token where
  | char (c : Char)
  | star
  | directories
  | below
  | choice (texts : List (List Char))
  deriving DecidableEq, Repr

/-- The tokens behind the beginning of a pattern. Inside braces, the first argument has what they hold so
far, the latest first. -/
def scan : Option (List Char) → List Char → List Token
  | _, [] => []
  | none, c :: cs =>
    if c = '*' then .star :: scan none cs
    else if c = '\x7b' then scan (some []) cs
    else if c = '/' ∧ cs = ['*', '*'] then [.below]
    else .char c :: scan none cs
  | some inside, c :: cs =>
    if c = '\x7d' then .choice (pieces ',' inside.reverse) :: scan none cs
    else scan (some (c :: inside)) cs

def tokens (pattern : String) : List Token :=
  match pattern.toList with
  | '*' :: '*' :: '/' :: cs => .directories :: scan none cs
  | cs => scan none cs

def fold (ignoreCase : Bool) (c : Char) : Char :=
  if ignoreCase then c.toLower else c

def suffixes : List Char → List (List Char)
  | [] => [[]]
  | c :: cs => (c :: cs) :: suffixes cs

def afterSlash? : List Char → Option (List Char)
  | '/' :: cs => some cs
  | _ => none

def afterText? (ignoreCase : Bool) : List Char → List Char → Option (List Char)
  | [], cs => some cs
  | c :: text, x :: cs =>
    if fold ignoreCase c = fold ignoreCase x then afterText? ignoreCase text cs else none
  | _ :: _, [] => none

def Token.rests (ignoreCase : Bool) : Token → List Char → List (List Char)
  | .char c, cs => (afterText? ignoreCase [c] cs).toList
  | .star, cs => suffixes cs
  | .directories, cs => cs :: (suffixes cs).filterMap afterSlash?
  | .below, cs => (afterSlash? cs).toList.flatMap suffixes
  | .choice texts, cs => texts.filterMap fun text => afterText? ignoreCase text cs

def fits (ignoreCase : Bool) : List Token → List Char → Bool
  | [], cs => cs.isEmpty
  | t :: ts, cs => (t.rests ignoreCase cs).any (fits ignoreCase ts)

def covers (ignoreCase : Bool) (pattern path : String) : Bool :=
  fits ignoreCase (tokens pattern) path.toList

end Glob

end BuildServer
