import BuildServer.Path.FileUri

namespace BuildServer.Query

def decodeText (cs : List Char) : String :=
  let cs := cs.map fun c => if c = '+' then ' ' else c
  Utf8.decodeLossy (percentDecode (Utf8.encodeChars cs))

def item (cs : List Char) : String × String :=
  match cutAt '=' cs with
  | some (k, v) => (decodeText k, decodeText v)
  | none => (decodeText cs, "")

def items (query : List Char) : List (String × String) :=
  ((pieces '&' query).filter (!·.isEmpty)).map item

def isPlain (b : UInt8) : Bool :=
  let c := Char.ofNat b.toNat
  c.isAlphanum || c == '*' || c == '-' || c == '.' || c == '_'

def encodeText (s : String) : List Char :=
  (Utf8.encode s).flatMap fun b =>
    if b = 0x20 then ['+']
    else if isPlain b then [Char.ofNat b.toNat]
    else percentEscape b

def render (items : List (String × String)) : String :=
  String.intercalate "&" (items.map fun i =>
    String.ofList (encodeText i.1 ++ '=' :: encodeText i.2))

end BuildServer.Query
