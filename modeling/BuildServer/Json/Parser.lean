import BuildServer.Json.Lexeme

/-!
Reading JSON text into a `Doc`. The containers around the point reached are kept in a list, so
depth is bounded by the text alone.
-/

namespace BuildServer.Json

inductive Outer where
  | items (seen : List Doc)
  | member (seen : List (Except Fault String × Doc)) (key : Except Fault String)

inductive Phase where
  | value
  | firstItem
  | item (seen : List Doc)
  | afterItem (seen : List Doc)
  | firstKey
  | key (seen : List (Except Fault String × Doc))
  | colon (seen : List (Except Fault String × Doc)) (key : Except Fault String)
  | afterMember (seen : List (Except Fault String × Doc))

def abandon (f : Fault) (doc : Doc) : List Outer → Doc
  | [] => doc
  | .items seen :: outer => abandon f (.arr (doc :: seen).reverse (some f)) outer
  | .member seen key :: outer => abandon f (.obj ((key, doc) :: seen).reverse (some f)) outer

def breakOff (b : Broken) (outer : List Outer) : JsonText :=
  ⟨abandon b.skipped (.broken b) outer, none⟩

def breakItems (f : Fault) (seen : List Doc) (outer : List Outer) : JsonText :=
  ⟨abandon f (.arr seen.reverse (some f)) outer, none⟩

def breakMembers (f : Fault) (seen : List (Except Fault String × Doc)) (outer : List Outer) :
    JsonText :=
  ⟨abandon f (.obj seen.reverse (some f)) outer, none⟩

def isSpace (b : UInt8) : Bool :=
  b == 0x20 || b == 0x0A || b == 0x09 || b == 0x0D

def skipSpace (text : Bytes) : Bytes :=
  text.dropWhile isSpace

def behindValue (text : Bytes) : Option Fault :=
  if (skipSpace text).isEmpty then none else some (.flaw .trailing)

/-- Reads on. A step takes at least one byte or turns `item` and `firstItem` into `value`, so twice
the length of the text bounds the steps. -/
def run : Nat → Phase → List Outer → Bytes → JsonText
  | 0, _, outer, _ => breakOff .malformed outer
  | fuel + 1, phase, outer, text =>
    let filled := fun (doc : Doc) (rest : Bytes) =>
      match outer with
      | [] => ⟨doc, behindValue rest⟩
      | .items seen :: outer => run fuel (.afterItem (doc :: seen)) outer rest
      | .member seen key :: outer => run fuel (.afterMember ((key, doc) :: seen)) outer rest
    let text := skipSpace text
    match phase with
    | .value =>
      match text with
      | 0x5B :: rest => run fuel .firstItem outer rest
      | 0x7B :: rest => run fuel .firstKey outer rest
      | _ =>
        match readScalar text with
        | (doc, some rest) => filled doc rest
        | (.broken b, none) => breakOff b outer
        | (_, none) => breakOff .malformed outer
    | .firstItem =>
      match text with
      | [] => breakItems .endOfText [] outer
      | 0x5D :: rest => filled (.arr [] none) rest
      | _ => run fuel .value (.items [] :: outer) text
    | .item seen =>
      match text with
      | [] => breakOff (.of .endOfText) (.items seen :: outer)
      | 0x5D :: _ => breakItems (.flaw .malformed) seen outer
      | _ => run fuel .value (.items seen :: outer) text
    | .afterItem seen =>
      match text with
      | [] => breakItems .endOfText seen outer
      | 0x5D :: rest => filled (.arr seen.reverse none) rest
      | 0x2C :: rest => run fuel (.item seen) outer rest
      | _ => breakItems (.flaw .malformed) seen outer
    | .firstKey =>
      match text with
      | 0x7D :: rest => filled (.obj [] none) rest
      | _ => run fuel (.key []) outer text
    | .key seen =>
      match text with
      | [] => breakMembers .endOfText seen outer
      | 0x22 :: _ =>
        match readScalar text with
        | (.str key, some rest) => run fuel (.colon seen key) outer rest
        | (.broken b, none) => breakOff b (.member seen (.error b.used) :: outer)
        | _ => breakMembers (.flaw .malformed) seen outer
      | _ => breakMembers (.flaw .malformed) seen outer
    | .colon seen key =>
      match text with
      | [] => breakOff (.of .endOfText) (.member seen key :: outer)
      | 0x3A :: rest => run fuel .value (.member seen key :: outer) rest
      | _ => breakOff .malformed (.member seen key :: outer)
    | .afterMember seen =>
      match text with
      | [] => breakMembers .endOfText seen outer
      | 0x7D :: rest => filled (.obj seen.reverse none) rest
      | 0x2C :: rest => run fuel (.key seen) outer rest
      | _ => breakMembers (.flaw .malformed) seen outer

def read (text : Bytes) : JsonText :=
  run (2 * text.length + 2) .value [] text

end BuildServer.Json
