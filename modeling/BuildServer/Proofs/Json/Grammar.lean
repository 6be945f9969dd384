import BuildServer.Proofs.Json.Numerals
import BuildServer.Proofs.Json.Strings

/-!
JSON text as a grammar: values as they may be written, with any white space between their parts, any spelling of
their numbers and any escapes in their strings.
-/

namespace BuildServer.Json

structure Gap where
  bytes : Bytes
  blank : ∀ b ∈ bytes, isSpace b = true

def Gap.none : Gap := ⟨[], by simp⟩

structure Item (α : Type) where
  before : Gap
  value : α
  after : Gap

structure Member (α : Type) where
  before : Gap
  key : List Letter
  behindKey : Gap
  beforeValue : Gap
  value : α
  after : Gap

/-- A value as it is written, without white space around it. The gap of a container stands behind its opening
bracket. -/
inductive Text where
  | null
  | bool (b : Bool)
  | number (s : Spelling) (h : s.Valid)
  | string (ls : List Letter)
  | array (gap : Gap) (items : List (Item Text))
  | object (gap : Gap) (members : List (Member Text))

namespace Text

@[induction_eliminator]
theorem induct {P : Text → Prop} (null : P .null) (bool : ∀ b, P (.bool b)) (number : ∀ s h, P (.number s h))
    (string : ∀ ls, P (.string ls)) (array : ∀ gap items, (∀ i ∈ items, P i.value) → P (.array gap items))
    (object : ∀ gap members, (∀ m ∈ members, P m.value) → P (.object gap members)) (t : Text) : P t := by
  refine Text.rec (motive_1 := P) (motive_2 := fun is => ∀ i ∈ is, P i.value)
    (motive_3 := fun ms => ∀ m ∈ ms, P m.value) (motive_4 := fun i => P i.value) (motive_5 := fun m => P m.value)
    null bool number string array object ?_ ?_ ?_ ?_ ?_ ?_ t
  · simp
  · intro i is hi his
    simpa using ⟨hi, his⟩
  · simp
  · intro m ms hm hms
    simpa using ⟨hm, hms⟩
  · intro before value after h
    exact h
  · intro before key behindKey beforeValue value after h
    exact h

mutual

def bytes : Text → Bytes
  | null => Utf8.encode "null"
  | bool true => Utf8.encode "true"
  | bool false => Utf8.encode "false"
  | number s _ => Utf8.encodeChars s.chars
  | string ls => quotedBytes ls
  | array gap items => 0x5B :: (gap.bytes ++ (itemBytes [] items ++ [0x5D]))
  | object gap members => 0x7B :: (gap.bytes ++ (memberBytes [] members ++ [0x7D]))

def itemBytes (lead : Bytes) : List (Item Text) → Bytes
  | [] => []
  | ⟨before, t, after⟩ :: rest => lead ++ (before.bytes ++ (t.bytes ++ (after.bytes ++ itemBytes [0x2C] rest)))

def memberBytes (lead : Bytes) : List (Member Text) → Bytes
  | [] => []
  | ⟨before, key, behindKey, beforeValue, t, after⟩ :: rest =>
    lead ++ (before.bytes ++ (quotedBytes key ++ (behindKey.bytes ++ 0x3A :: (beforeValue.bytes ++
      (t.bytes ++ (after.bytes ++ memberBytes [0x2C] rest))))))

end

def within (lead tail : Gap) (t : Text) : Bytes := lead.bytes ++ (t.bytes ++ tail.bytes)

mutual

def doc : Text → Doc
  | null => .null
  | bool b => .bool b
  | number s _ => .num s.numeral.number
  | string ls => .str (stringDoc ls)
  | array _ items => .arr (itemDocs items) Option.none
  | object _ members => .obj (memberDocs members) Option.none

def itemDocs : List (Item Text) → List Doc
  | [] => []
  | ⟨_, t, _⟩ :: rest => t.doc :: itemDocs rest

def memberDocs : List (Member Text) → List (Except Fault String × Doc)
  | [] => []
  | ⟨_, key, _, _, t, _⟩ :: rest => (stringDoc key, t.doc) :: memberDocs rest

end

mutual

def depth : Text → Nat
  | array _ items => depthOfItems items + 1
  | object _ members => depthOfMembers members + 1
  | _ => 0

def depthOfItems : List (Item Text) → Nat
  | [] => 0
  | ⟨_, t, _⟩ :: rest => max t.depth (depthOfItems rest)

def depthOfMembers : List (Member Text) → Nat
  | [] => 0
  | ⟨_, _, _, _, t, _⟩ :: rest => max t.depth (depthOfMembers rest)

end

end Text

end BuildServer.Json
