import BuildServer.Frame.Invalid

/-!
Framing: a message is a block of header lines that gives the size of its body, an empty line and
the body. A `Decoder` collects bytes as they come and gives out bodies as they are complete.
-/

namespace BuildServer.Frame

def splitHeader (seen : Bytes) : Bytes → Option (Bytes × Bytes)
  | [] => none
  | 0x0D :: 0x0A :: 0x0D :: 0x0A :: rest => some (seen.reverse, rest)
  | b :: rest => splitHeader (b :: seen) rest

def emptyLine : Bytes := [0x0D, 0x0A, 0x0D, 0x0A]

def splitLines (line : List Char) : List Char → List (List Char)
  | [] => [line.reverse]
  | '\r' :: '\n' :: rest => line.reverse :: splitLines [] rest
  | c :: rest => splitLines (c :: line) rest

def parseSize? (cs : List Char) : Option Nat :=
  let digits := match cs with
    | '+' :: rest => rest
    | _ => cs
  if digits.isEmpty || !digits.all Char.isDigit then none
  else
    let n := digits.foldl (fun n c => n * 10 + (c.toNat - 48)) 0
    if n < Nat.pow 2 64 then some n else none

def sizeValue? (line : List Char) : Option (List Char) :=
  match cutAt ':' line with
  | some (name, value) =>
    if (trimChars name).map Char.toLower = "content-length".toList then some (trimChars value)
    else none
  | none => none

def bodySize (header : Bytes) : Except InvalidReason Nat :=
  match Utf8.decodeChars? header with
  | none => .error .header
  | some cs =>
    match (splitLines [] cs).findSome? sizeValue? with
    | none => .error .contentLength
    | some value =>
      match parseSize? value with
      | some n => .ok n
      | none => .error .contentLength

structure Decoder where
  buffer : Bytes
  discard : Nat
  deriving DecidableEq, Repr

inductive Outcome where
  | needMore
  | body (b : Bytes)
  | invalid (e : InvalidMessage)
  deriving DecidableEq, Repr

namespace Decoder

def empty : Decoder := ⟨[], 0⟩

def extend (d : Decoder) (bytes : Bytes) : Decoder :=
  { d with buffer := d.buffer ++ bytes }

def drain (d : Decoder) : Decoder :=
  ⟨d.buffer.drop d.discard, d.discard - d.buffer.length⟩

/-- The next frame of a buffer in which nothing is left to drop. -/
def nextFrame (buffer : Bytes) : Outcome × Decoder :=
  match splitHeader [] buffer with
  | none => (.needMore, ⟨buffer, 0⟩)
  | some (header, rest) =>
    match bodySize header with
    | .error reason => (.invalid ⟨reason, header ++ emptyLine⟩, ⟨rest, 0⟩)
    | .ok size =>
      if maxFrameSize < size then (.invalid ⟨.tooLarge size, header ++ emptyLine⟩, ⟨rest, size⟩)
      else if rest.length < size then (.needMore, ⟨buffer, 0⟩)
      else (.body (rest.take size), ⟨rest.drop size, 0⟩)

/-- The next body. A malformed or oversized frame is given up with its header block, so that later
frames are still reached. -/
def next (d : Decoder) : Outcome × Decoder :=
  let d := d.drain
  if 0 < d.discard then (.needMore, d) else nextFrame d.buffer

def drainAll : Nat → Decoder → List Outcome × Decoder
  | 0, d => ([], d)
  | fuel + 1, d =>
    match d.next with
    | (.needMore, d) => ([], d)
    | (o, d) =>
      let (os, d) := drainAll fuel d
      (o :: os, d)

def feed (d : Decoder) (bytes : Bytes) : List Outcome × Decoder :=
  let d := d.extend bytes
  d.drainAll (d.buffer.length / 4 + 1)

def wanted (d : Decoder) : Nat :=
  if 0 < d.discard then d.discard
  else
    match splitHeader [] d.buffer with
    | none => 1
    | some (header, rest) => max 1 (((bodySize header).toOption.getD 0) - rest.length)

end Decoder

def wrap (body : Bytes) : Bytes :=
  Utf8.encode ("Content-Length: " ++ toString body.length) ++ emptyLine ++ body

def encode (j : Json) : Bytes :=
  wrap j.bytes

end BuildServer.Frame
