import BuildServer.Proofs.Json.Reading
import BuildServer.Proofs.Json.Records

namespace BuildServer.Json

open Utf8

section Numbers

def reread (n : Number) : Except Fault Number :=
  match readNumeral (encode n.render) with
  | .ok (m, _) => m.number
  | .error b => .error b.used

theorem reread_eq {n : Number} {s : Spelling} (hs : s.Valid) (hchars : n.render.toList = s.chars) :
    reread n = s.numeral.number := by
  have h : readNumeral (encodeChars s.chars ++ []) = .ok (s.numeral, []) :=
    readNumeral_append hs (by simp [Ends])
  rw [List.append_nil] at h
  rw [reread, encode, hchars, h]

theorem reread_int {n : Number} {m : Int} (h : reread n = .ok (.int m)) : n = .int m := by
  obtain ⟨s, hs, hchars, hint⟩ := spelling_render n
  rw [reread_eq hs hchars] at h
  exact hint m h

theorem reread_of_bounds {n : Int} (hlow : -0x8000000000000000 ≤ n) (hhigh : n < 0x10000000000000000) :
    reread (.int n) = .ok (.int n) := by
  have hchars : (Number.int n).render.toList = (spellingOfInt n).chars := chars_spellingOfInt n
  rw [reread_eq (valid_spellingOfInt n) hchars]
  exact number_of_integer? (integer?_spellingOfInt n) hlow hhigh

end Numbers

mutual

def docOf : Json → Doc
  | .null => .null
  | .bool b => .bool b
  | .num n => .num (reread n)
  | .str s => .str (.ok s)
  | .arr items => .arr (docsOf items) none
  | .obj members => .obj (memberDocs members) none

def docsOf : List Json → List Doc
  | [] => []
  | j :: rest => docOf j :: docsOf rest

def memberDocs : List (String × Json) → List (Except Fault String × Doc)
  | [] => []
  | (k, j) :: rest => (.ok k, docOf j) :: memberDocs rest

end

mutual

theorem exists_text : (j : Json) → ∃ t : Text, t.bytes = j.bytes ∧ t.doc = docOf j
  | .null => ⟨.null, rfl, rfl⟩
  | .bool b => ⟨.bool b, by cases b <;> rfl, rfl⟩
  | .num n => by
    obtain ⟨s, hs, hchars, -⟩ := spelling_render n
    refine ⟨.number s hs, ?_, ?_⟩
    · rw [Text.bytes, bytes, chars, hchars]
    · rw [Text.doc, docOf, reread_eq hs hchars]
  | .str s => by
    obtain ⟨ls, hbytes, htext⟩ := exists_letters s
    exact ⟨.string ls, hbytes, by rw [Text.doc, docOf, stringDoc_text htext]⟩
  | .arr js => by
    obtain ⟨is, hbytes, hdocs⟩ := exists_items js
    refine ⟨.array .none is, ?_, by rw [Text.doc, docOf, hdocs]⟩
    have hchars : (Json.arr js).chars = ['['] ++ (charsOfItems js ++ [']']) := rfl
    rw [Text.bytes, hbytes, bytes, hchars, encodeChars_append, encodeChars_append]
    rfl
  | .obj ms => by
    obtain ⟨ts, hbytes, hdocs⟩ := exists_members ms
    refine ⟨.object .none ts, ?_, by rw [Text.doc, docOf, hdocs]⟩
    have hchars : (Json.obj ms).chars = ['\x7b'] ++ (charsOfMembers ms ++ ['\x7d']) := rfl
    rw [Text.bytes, hbytes, bytes, hchars, encodeChars_append, encodeChars_append]
    rfl

theorem exists_items : (js : List Json) →
    ∃ is, Text.itemBytes [] is = encodeChars (charsOfItems js) ∧ Text.itemDocs is = docsOf js
  | [] => ⟨[], rfl, rfl⟩
  | [j] => by
    obtain ⟨t, hbytes, hdoc⟩ := exists_text j
    refine ⟨[⟨.none, t, .none⟩], ?_, by rw [Text.itemDocs, Text.itemDocs, docsOf, docsOf, hdoc]⟩
    simp only [Text.itemBytes, Gap.none, List.nil_append, List.append_nil, hbytes, charsOfItems, bytes]
  | j :: j' :: js => by
    obtain ⟨t, hbytes, hdoc⟩ := exists_text j
    obtain ⟨is, hrest, hdocs⟩ := exists_items (j' :: js)
    cases is with
    | nil => cases hdocs
    | cons i is =>
      refine ⟨⟨.none, t, .none⟩ :: i :: is, ?_, by rw [Text.itemDocs, docsOf, hdoc, hdocs]⟩
      have hcomma : Text.itemBytes [0x2C] (i :: is) = 0x2C :: Text.itemBytes [] (i :: is) := rfl
      have hchars : charsOfItems (j :: j' :: js) = j.chars ++ ([','] ++ charsOfItems (j' :: js)) := rfl
      rw [Text.itemBytes, hcomma, hrest, hbytes, hchars, encodeChars_append, encodeChars_append]
      rfl

theorem exists_members : (ms : List (String × Json)) →
    ∃ ts, Text.memberBytes [] ts = encodeChars (charsOfMembers ms) ∧ Text.memberDocs ts = memberDocs ms
  | [] => ⟨[], rfl, rfl⟩
  | [(k, j)] => by
    obtain ⟨t, hbytes, hdoc⟩ := exists_text j
    obtain ⟨key, hkey, htext⟩ := exists_letters k
    refine ⟨[⟨.none, key, .none, .none, t, .none⟩], ?_, ?_⟩
    · have hchars : charsOfMembers [(k, j)] = quote k ++ ([':'] ++ j.chars) := rfl
      rw [Text.memberBytes, hkey, hbytes, hchars, encodeChars_append, encodeChars_append]
      simp [Text.memberBytes, Gap.none, bytes]
      rfl
    · rw [Text.memberDocs, Text.memberDocs, memberDocs, memberDocs, hdoc, stringDoc_text htext]
  | (k, j) :: m :: ms => by
    obtain ⟨t, hbytes, hdoc⟩ := exists_text j
    obtain ⟨key, hkey, htext⟩ := exists_letters k
    obtain ⟨ts, hrest, hdocs⟩ := exists_members (m :: ms)
    cases ts with
    | nil => cases hdocs
    | cons t' ts =>
      refine ⟨⟨.none, key, .none, .none, t, .none⟩ :: t' :: ts, ?_, ?_⟩
      · have hcomma : Text.memberBytes [0x2C] (t' :: ts) = 0x2C :: Text.memberBytes [] (t' :: ts) := rfl
        have hchars : charsOfMembers ((k, j) :: m :: ms) =
            quote k ++ ([':'] ++ (j.chars ++ ([','] ++ charsOfMembers (m :: ms)))) := rfl
        rw [Text.memberBytes, hcomma, hrest, hkey, hbytes, hchars, encodeChars_append, encodeChars_append,
          encodeChars_append, encodeChars_append]
        rfl
      · rw [Text.memberDocs, memberDocs, hdoc, hdocs, stringDoc_text htext]

end

theorem read_bytes (j : Json) : read j.bytes = ⟨docOf j, none⟩ := by
  obtain ⟨t, hbytes, hdoc⟩ := exists_text j
  rw [← hbytes, read_text, hdoc]

theorem docsOf_strings (ss : List String) :
    docsOf (ss.map .str) = ss.map fun s => .str (.ok s) := by
  induction ss with
  | nil => rfl
  | cons s ss ih =>
    rw [List.map_cons, docsOf, ih]
    rfl

theorem readItems_string (ss seen : List String) :
    readItems string seen (ss.map fun s => .str (.ok s)) = .ok (seen.reverse ++ ss) := by
  induction ss generalizing seen with
  | nil => simp [readItems]
  | cons s ss ih =>
    have hstep : readItems string seen ((s :: ss).map fun s => .str (.ok s)) =
        readItems string (s :: seen) (ss.map fun s => .str (.ok s)) := rfl
    rw [hstep, ih, List.reverse_cons, List.append_assoc, List.singleton_append]

theorem list_strings (ss : List String) : list string (docOf (strings ss)) = .ok ss := by
  rw [strings, docOf, docsOf_strings]
  simp only [list, readItems_string, List.reverse_nil, List.nil_append, bind, Except.bind]
  rfl

section Decoding

variable {α : Type} {r : Reader α} {j : Json} {a : α}

theorem decodeText_bytes (h : r (docOf j) = .ok a) : decodeText r j.bytes = .ok a := by
  rw [decodeText, read_bytes, h]

theorem decodeText_render (h : r (docOf j) = .ok a) : decodeText r (encode j.render) = .ok a := by
  have hbytes : encode j.render = j.bytes := by
    rw [encode, render, String.toList_ofList, bytes]
  rw [hbytes, decodeText_bytes h]

theorem decodeText_strings (ss : List String) : decodeText (list string) (encode (strings ss).render) = .ok ss :=
  decodeText_render (list_strings ss)

end Decoding

section Records

variable {σ α : Type} {s : Shape σ α} {ms : List (String × Json)} {r r' : σ}

theorem memberDocs_eq_keyed (ms : List (String × Json)) :
    memberDocs ms = keyed (ms.map fun m => (m.1, docOf m.2)) := by
  induction ms with
  | nil => rfl
  | cons m ms ih =>
    rw [memberDocs, ih]
    rfl

theorem readMembers_written {β : Type} {k : String} {j : Json} {reader : Reader β} {get : σ → Option β}
    {put : σ → β → σ} {dflt : Bool} {b : β}
    (hf : s.fields.find? (·.name == k) = some (field k reader get put dflt)) (hempty : (get r).isSome = false)
    (hread : reader (docOf j) = .ok b) (hrest : s.readMembers (put r b) (memberDocs ms) = .ok r') :
    s.readMembers r (memberDocs ((k, j) :: ms)) = .ok r' := by
  rw [memberDocs_eq_keyed] at hrest ⊢
  rw [List.map_cons, readMembers_found hf hempty (fill_field.mpr ⟨b, hread, rfl⟩), hrest]

theorem read_object {a : α} (hmembers : s.readMembers s.start (memberDocs ms) = .ok r)
    (hdone : s.complete r = .ok a) : s.read (docOf (.obj ms)) = .ok a := by
  simp only [docOf, Shape.read, hmembers, Doc.ending, lift, Shape.done, hdone, bind, Except.bind]

end Records

end BuildServer.Json
