import Mathlib.Data.List.Perm.Basic
import BuildServer.Message.Incoming
import BuildServer.Proofs.Json.Reading
import BuildServer.Proofs.Json.Records

namespace BuildServer

namespace Json

def named (name : String) (ms : List (Member Text)) : List Text :=
  (ms.filter fun m => text? m.key == some name).map Member.value

def entries (ms : List (Member Text)) : List (String × Doc) :=
  ms.map fun m => ((text? m.key).getD "", m.value.doc)

section Entries

variable {ms : List (Member Text)}

theorem memberDocs_eq (h : ∀ m ∈ ms, (text? m.key).isSome = true) : Text.memberDocs ms = keyed (entries ms) := by
  induction ms with
  | nil => rfl
  | cons m ms ih =>
    obtain ⟨s, hs⟩ := Option.isSome_iff_exists.mp (h m List.mem_cons_self)
    rw [Text.memberDocs, ih fun m hm => h m (List.mem_cons_of_mem _ hm), stringDoc_text hs, entries, entries,
      List.map_cons, hs]
    rfl

theorem skip_entries : ∀ e ∈ entries ms, e.2.skip = .ok () := by
  intro e he
  obtain ⟨m, -, rfl⟩ := List.mem_map.mp he
  exact m.value.skip_doc

theorem filter_entries (h : ∀ m ∈ ms, (text? m.key).isSome = true) (name : String) :
    (entries ms).filter (·.1 == name) = (named name ms).map fun t => (name, t.doc) := by
  induction ms with
  | nil => rfl
  | cons m ms ih =>
    obtain ⟨s, hs⟩ := Option.isSome_iff_exists.mp (h m List.mem_cons_self)
    have hrest := ih fun m hm => h m (List.mem_cons_of_mem _ hm)
    simp only [entries, named] at hrest ⊢
    by_cases hname : s = name
    · subst hname
      simp [hs, hrest]
    · simp [hs, hname, hrest]

end Entries

theorem filter_or_perm {α : Type} {p q : α → Bool} (h : ∀ x, p x = true → q x = false) (l : List α) :
    (l.filter fun x => p x || q x).Perm (l.filter p ++ l.filter q) := by
  induction l with
  | nil => exact .refl []
  | cons x l ih =>
    cases hp : p x with
    | true => simpa [List.filter_cons, hp, h x hp] using ih
    | false =>
      cases hq : q x with
      | true => simpa [List.filter_cons, hp, hq] using (ih.cons x).trans List.perm_middle.symm
      | false => simpa [List.filter_cons, hp, hq] using ih

end Json

namespace Incoming

open Json

inductive IdText : Text → Option RequestId → Prop
  | null : IdText .null none
  | string {ls : List Letter} {s : String} (h : text? ls = some s) : IdText (.string ls) (some (.str s))
  | integer {s : Spelling} {n : Int} (hs : s.Valid) (h : s.integer? = some n) (hlow : -0x8000000000000000 ≤ n)
      (hhigh : n ≤ 0x7FFFFFFFFFFFFFFF) : IdText (.number s hs) (some (.int n))

/-- The members of a message: one method, at most one identifier, at most one value of parameters, and whatever
others. -/
structure Says (ms : List (Member Text)) (method : String) (id : Option RequestId) (params : Option Text) :
    Prop where
  keys : ∀ m ∈ ms, (text? m.key).isSome = true
  method : ∃ ls, named "method" ms = [.string ls] ∧ text? ls = some method
  id : named "id" ms = [] ∧ id = none ∨ ∃ t, named "id" ms = [t] ∧ IdText t id
  params : named "params" ms = params.toList

theorem IdText.read {t : Text} {id : Option RequestId} (h : IdText t id) (depth : Nat) :
    optional (RequestId.readWithin depth) t.doc = .ok id := by
  cases h with
  | null => rfl
  | string h =>
    rw [Text.doc, stringDoc_text h]
    rfl
  | integer hs h hlow hhigh =>
    rw [Text.doc, number_of_integer? h hlow (by omega)]
    simp [Json.optional, RequestId.readWithin, any, lift, Doc.value, Except.map, bind, Except.bind, RequestId.ofJson?,
      hlow, hhigh, pure, Except.pure]

variable {ms : List (Member Text)} {method : String} {id : Option RequestId} {params : Option Text}

theorem independent_shape : shape.Independent where
  fills f hf r d r' h := by
    simp only [shape, List.mem_cons, List.not_mem_nil, or_false] at hf
    rcases hf with rfl | rfl <;> obtain ⟨b, -, rfl⟩ := fill_field.mp h <;> rfl
  filled f hf g hg hname r d r' h := by
    simp only [shape, List.mem_cons, List.not_mem_nil, or_false] at hf hg
    rcases hf with rfl | rfl <;> rcases hg with rfl | rfl
    · exact absurd rfl hname
    · obtain ⟨b, -, rfl⟩ := fill_field.mp h
      rfl
    · obtain ⟨b, -, rfl⟩ := fill_field.mp h
      rfl
    · exact absurd rfl hname
  comm f hf g hg hname r d e r₁ r₂ h₁ h₂ := by
    simp only [shape, List.mem_cons, List.not_mem_nil, or_false] at hf hg
    rcases hf with rfl | rfl <;> rcases hg with rfl | rfl
    · exact absurd rfl hname
    · obtain ⟨b, hb, rfl⟩ := fill_field.mp h₁
      obtain ⟨c, hc, rfl⟩ := fill_field.mp h₂
      exact ⟨_, fill_field.mpr ⟨c, hc, rfl⟩, fill_field.mpr ⟨b, hb, rfl⟩⟩
    · obtain ⟨b, hb, rfl⟩ := fill_field.mp h₁
      obtain ⟨c, hc, rfl⟩ := fill_field.mp h₂
      exact ⟨_, fill_field.mpr ⟨c, hc, rfl⟩, fill_field.mpr ⟨b, hb, rfl⟩⟩
    · exact absurd rfl hname

theorem known_perm (h : Says ms method id params) :
    ((entries ms).filter fun e => shape.knows e.1).Perm
      (("method", .str (.ok method)) :: (named "id" ms).map fun t => ("id", t.doc)) := by
  obtain ⟨ls, hmethod, htext⟩ := h.method
  have hknows : ∀ e : String × Doc, shape.knows e.1 = (e.1 == "method" || e.1 == "id") := by
    intro e
    simp [Shape.knows, shape, field, Bool.beq_comm]
  have hapart : ∀ e : String × Doc, (e.1 == "method") = true → (e.1 == "id") = false := by
    intro e he
    rw [beq_iff_eq] at he
    rw [he]
    decide
  have hperm := filter_or_perm hapart (entries ms)
  rw [filter_entries h.keys, filter_entries h.keys, hmethod] at hperm
  simp only [hknows]
  rw [List.map_singleton, Text.doc, stringDoc_text htext] at hperm
  exact hperm

theorem read_envelope (h : Says ms method id params) (gap : Gap) :
    shape.read (Text.object gap ms).doc = .ok (method, id) := by
  have hread : ∃ d, shape.readMembers shape.start (Text.memberDocs ms) = .ok d ∧
      shape.done d = .ok (method, id) := by
    rw [memberDocs_eq h.keys, readMembers_filter skip_entries]
    have hperm := known_perm h
    rcases h.id with ⟨hid, rfl⟩ | ⟨t, hid, hidText⟩
    · rw [hid] at hperm
      exact ⟨⟨some method, none⟩, independent_shape.readMembers_perm hperm.symm rfl, rfl⟩
    · rw [hid] at hperm
      refine ⟨⟨some method, some id⟩, independent_shape.readMembers_perm hperm.symm ?_, rfl⟩
      have hmethod : (field "method" string Draft.method (fun d s => { d with method := some s }) false).fill
          shape.start (.str (.ok method)) = .ok ⟨some method, none⟩ := rfl
      rw [readMembers_found rfl rfl hmethod, List.map_singleton,
        readMembers_found rfl rfl (fill_field.mpr ⟨id, hidText.read _, rfl⟩)]
      rfl
  obtain ⟨d, hmembers, hdone⟩ := hread
  simp only [Text.doc, Shape.read, hmembers, Doc.ending, lift, bind, Except.bind, hdone]

def paramsOf : Option Text → Except JsonError Json
  | none => .ok .null
  | some t => decodeText (any (maxDepth - 1)) t.bytes

theorem decode_params (h : Says ms method id params) (lead gap tail : Gap) :
    decodeText paramsShape.read ((Text.object gap ms).within lead tail) = paramsOf params := by
  have hknows : ∀ e : String × Doc, paramsShape.knows e.1 = (e.1 == "params") := by
    intro e
    simp [Shape.knows, paramsShape, field, Bool.beq_comm]
  have hmembers : paramsShape.readMembers paramsShape.start (Text.memberDocs ms) =
      paramsShape.readMembers none (keyed (params.toList.map fun t => ("params", t.doc))) := by
    rw [memberDocs_eq h.keys, readMembers_filter skip_entries, ← h.params, ← filter_entries h.keys]
    simp only [hknows]
    rfl
  rw [decodeText, read_within, Text.doc, Shape.read, hmembers]
  cases params with
  | none => rfl
  | some t =>
    rw [paramsOf, decodeText, read_text]
    have hone : paramsShape.readMembers none (keyed ((some t).toList.map fun t => ("params", t.doc))) =
        (any (maxDepth - 1) t.doc).map some := by
      cases h : any (maxDepth - 1) t.doc <;>
        simp [keyed, Shape.readMembers, paramsShape, field, lift, bind, Except.bind, pure, Except.pure, h,
          Except.map]
    rw [hone]
    cases any (maxDepth - 1) t.doc <;> rfl

theorem paramsOf_some {t : Text} (hdepth : t.depth < maxDepth) : paramsOf (some t) = Json.parse t.bytes := by
  rw [paramsOf, Json.parse, decodeText, decodeText, read_text, any, any,
    value_of_depth_le (n := maxDepth - 1) (k := maxDepth) (by omega) (by omega)]

theorem parse_within (h : Says ms method id params) (lead gap tail : Gap) :
    let body := (Text.object gap ms).within lead tail
    parse body = .ok ⟨method, id, body⟩ := by
  dsimp only
  rw [parse, decodeText, read_within, read_envelope h]

theorem params_within (h : Says ms method id params) {lead gap tail : Gap} {α : Type} (r : Reader α) :
    Incoming.params ⟨method, id, (Text.object gap ms).within lead tail⟩ r =
      (paramsOf params).bind (decodeValue r) := by
  rw [Incoming.params, decode_params h]
  rfl

/-- A message is what its method, its identifier and its parameters say, wherever they stand among whatever
other members. Parameters within the bounds of depth are decoded as they are alone. -/
theorem decoded_by_name (h : Says ms method id params) (lead gap tail : Gap) :
    let body := (Text.object gap ms).within lead tail
    parse body = .ok ⟨method, id, body⟩ ∧
    (∀ {α : Type} (r : Reader α), params = none → Incoming.params ⟨method, id, body⟩ r = decodeValue r .null) ∧
    (∀ {α : Type} (r : Reader α) (t : Text) (j : Json), params = some t → t.depth < maxDepth →
      Json.parse t.bytes = .ok j → Incoming.params ⟨method, id, body⟩ r = decodeValue r j) ∧
    ∀ (ms' : List (Member Text)) (lead' gap' tail' : Gap), Says ms' method id params →
      let body' := (Text.object gap' ms').within lead' tail'
      parse body' = .ok ⟨method, id, body'⟩ ∧
      ∀ {α : Type} (r : Reader α),
        Incoming.params ⟨method, id, body'⟩ r = Incoming.params ⟨method, id, body⟩ r := by
  refine ⟨parse_within h lead gap tail, fun r hnone => ?_, fun r t j hsome hdepth hj => ?_,
    fun ms' lead' gap' tail' h' => ⟨parse_within h' lead' gap' tail', fun r => ?_⟩⟩
  · rw [params_within h, hnone]
    rfl
  · rw [params_within h, hsome, paramsOf_some hdepth, hj]
    rfl
  · rw [params_within h', params_within h]

def plainLetters (s : String) : List Letter :=
  s.toList.filterMap fun c =>
    if h : 0x20 ≤ c.toNat ∧ c ≠ '"' ∧ c ≠ '\\' then some (.plain c h) else none

def space : Gap := ⟨[0x20], by simp [isSpace]⟩

def mixed : List (Member Text) := [
  ⟨.none, plainLetters "x", .none, .none, .string [.ofUnit 0xD800 (by decide)], .none⟩,
  ⟨.none, plainLetters "params", .none, .none, .array space [], space⟩,
  ⟨space, plainLetters "id", .none, .none, .number (spellingOfInt (-7)) (valid_spellingOfInt (-7)), .none⟩,
  ⟨.none, plainLetters "me" ++ [.ofUnit 0x74 (by decide)] ++ plainLetters "hod", .none, .none,
    .string (plainLetters "build/exit"), .none⟩,
  ⟨.none, plainLetters "x", .none, .none,
    .object .none [⟨.none, plainLetters "id", .none, .none, .null, .none⟩], .none⟩]

def bare : List (Member Text) :=
  [⟨.none, plainLetters "method", .none, .none, .string (plainLetters "exit"), .none⟩]

theorem decoded_mixed :
    let body := (Text.object space mixed).within space .none
    let reversed := (Text.object .none mixed.reverse).within .none space
    let plain := (Text.object .none bare).within .none .none
    parse body = .ok ⟨"build/exit", some (.int (-7)), body⟩ ∧
    parse reversed = .ok ⟨"build/exit", some (.int (-7)), reversed⟩ ∧
    (∀ {α : Type} (r : Reader α),
      Incoming.params ⟨"build/exit", some (.int (-7)), body⟩ r = decodeValue r (.arr [])) ∧
    (∀ {α : Type} (r : Reader α), Incoming.params ⟨"build/exit", some (.int (-7)), reversed⟩ r =
      Incoming.params ⟨"build/exit", some (.int (-7)), body⟩ r) ∧
    ∀ {α : Type} (r : Reader α), Incoming.params ⟨"exit", none, plain⟩ r = decodeValue r .null := by
  have hid : IdText (.number (spellingOfInt (-7)) (valid_spellingOfInt (-7))) (some (.int (-7))) :=
    .integer _ (integer?_spellingOfInt (-7)) (by decide) (by decide)
  have hmixed : Says mixed "build/exit" (some (.int (-7))) (some (.array space [])) :=
    ⟨by decide, ⟨plainLetters "build/exit", rfl, by decide⟩, .inr ⟨_, rfl, hid⟩, rfl⟩
  have hreversed : Says mixed.reverse "build/exit" (some (.int (-7))) (some (.array space [])) :=
    ⟨by decide, ⟨plainLetters "build/exit", rfl, by decide⟩, .inr ⟨_, rfl, hid⟩, rfl⟩
  have hbare : Says bare "exit" none none :=
    ⟨by decide, ⟨plainLetters "exit", rfl, by decide⟩, .inl ⟨rfl, rfl⟩, rfl⟩
  obtain ⟨hparse, -, hparams, hother⟩ := decoded_by_name hmixed space space .none
  obtain ⟨hparse', hparams'⟩ := hother mixed.reverse .none .none space hreversed
  obtain ⟨-, hnull, -, -⟩ := decoded_by_name hbare .none .none .none
  exact ⟨hparse, hparse', fun r => hparams r _ (.arr []) rfl (by decide) rfl, hparams', fun r => hnull r rfl⟩

end Incoming

end BuildServer
