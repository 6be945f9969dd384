import BuildServer.Path.Basic

/-!
`file:` URIs and the paths they name, after the WHATWG URL rules. White space and control
characters around the URI and line breaks inside it do not count, a backslash is a slash, dots are
resolved, and the query and fragment are dropped.
-/

namespace BuildServer

def percentDecode : Bytes → Bytes
  | [] => []
  | 0x25 :: a :: b :: rest =>
    match hexValue? a, hexValue? b with
    | some x, some y => (x * 16 + y).toUInt8 :: percentDecode rest
    | _, _ => 0x25 :: percentDecode (a :: b :: rest)
  | b :: rest => b :: percentDecode rest
  termination_by bytes => bytes.length

def upperHexDigit (n : Nat) : Char :=
  (hexDigit n).toUpper

def percentEscape (b : UInt8) : List Char :=
  ['%', upperHexDigit (b.toNat / 16), upperHexDigit (b.toNat % 16)]

namespace FileUri

def clean (uri : String) : List Char :=
  let trimmed := ((uri.toList.dropWhile (· ≤ ' ')).reverse.dropWhile (· ≤ ' ')).reverse
  trimmed.filter fun c => c != '\t' && c != '\n' && c != '\r'

def afterScheme? (uri : List Char) : Option (List Char) :=
  match cutAt ':' uri with
  | some (scheme, rest) => if scheme.map Char.toLower = "file".toList then some rest else none
  | none => none

def isDrive : List Char → Bool
  | [a, b] => a.isAlpha && (b == ':' || b == '|')
  | _ => false

def dots (segment : List Char) : Option Nat :=
  let rec count : List Char → Option Nat
    | [] => some 0
    | '.' :: rest => (count rest).map (· + 1)
    | '%' :: '2' :: e :: rest =>
      if e = 'e' ∨ e = 'E' then (count rest).map (· + 1) else none
    | _ => none
  match count segment with
  | some 1 => some 1
  | some 2 => some 2
  | _ => none

def resolve (seen : List (List Char)) : List (List Char) → List (List Char)
  | [] => ([] :: seen).reverse
  | [s] =>
    match dots s with
    | none => (s :: seen).reverse
    | some 1 => ([] :: seen).reverse
    | some _ => ([] :: outer seen).reverse
  | s :: rest =>
    match dots s with
    | none => resolve (s :: seen) rest
    | some 1 => resolve seen rest
    | some _ => resolve (outer seen) rest
where
  outer : List (List Char) → List (List Char)
    | [] => []
    | s :: seen => if isDrive s then s :: seen else seen

def isHost (host : List Char) : Bool :=
  !host.isEmpty && host.all fun c =>
    '\x20' < c && c != '\x7f' && !("\"#%/:<>?@[\\]^\x60\x7b|\x7d".toList.contains c)

/-- The path of a URI, as bytes. Only this machine may be its host; before a path on a drive, any
host is ignored. -/
def pathBytes? (uri : String) : Option Bytes := do
  let text ← afterScheme? (clean uri)
  let text := (text.takeWhile fun c => c != '?' && c != '#').map fun c => if c = '\\' then '/' else c
  let (host, text) := match text with
    | '/' :: '/' :: rest =>
      let host := rest.takeWhile (· != '/')
      if isDrive host then ([], rest) else (host, rest.dropWhile (· != '/'))
    | _ => ([], text)
  let text := match text with
    | '/' :: rest => rest
    | _ => text
  -- A drive keeps its bar: `file:///C|/x` names `/C|/x`.
  let segments := resolve [] (pieces '/' text)
  let host := (Utf8.decodeLossy (percentDecode (Utf8.encodeChars host))).toList.map Char.toLower
  if host.isEmpty || host == "localhost".toList ||
      (isHost host && isDrive (segments.headD [])) then
    let segments := match segments.dropWhile List.isEmpty with
      | [] => [[]]
      | kept => kept
    let bytes := segments.flatMap fun s => 0x2F :: percentDecode (Utf8.encodeChars s)
    match bytes.reverse with
    | b :: a :: _ :: _ =>
      if isDrive [Char.ofNat a.toNat, Char.ofNat b.toNat] then some (bytes ++ [0x2F]) else some bytes
    | _ => some bytes
  else none

def path? (uri : String) : Option String :=
  (pathBytes? uri).map Utf8.decodeLossy

def isPlain (b : UInt8) : Bool :=
  let c := Char.ofNat b.toNat
  '\x20' < c && c < '\x7f' && !("\"#%/<>?\\\x60\x7b\x7d".toList.contains c)

def encodeSegment (s : String) : List Char :=
  (Utf8.encode s).flatMap fun b => if isPlain b then [Char.ofNat b.toNat] else percentEscape b

def ofPath? (path : String) : Option String :=
  match Path.parts path with
  | [.root] => some "file:///"
  | .root :: rest =>
    some ("file://" ++ String.ofList (rest.flatMap fun p => '/' :: encodeSegment p.text))
  | _ => none

def ofDirectory? (path : String) : Option String :=
  (ofPath? path).map fun uri => if uri.toList.getLast? == some '/' then uri else uri ++ "/"

end FileUri

end BuildServer
