import BuildServer.Message.Incoming
import BuildServer.Proofs.Json.Values

namespace BuildServer

namespace Json

def identifier? : Option Json → Option (Option RequestId)
  | none => some none
  | some .null => some none
  | some j => (RequestId.ofJson? j).map some

def envelope? : Json → Option (String × Option RequestId)
  | .obj members =>
    match members.lookup "method" with
    | some (.str method) => (identifier? (members.lookup "id")).map fun i => (method, i)
    | _ => none
  | .arr [.str method] => some (method, none)
  | .arr [.str method, id] => (identifier? (some id)).map fun i => (method, i)
  | _ => none

theorem refuse_ne_ok {α : Type} (expected : String) (d : Doc) (a : α) :
    refuse expected d ≠ .ok a := by
  cases d with
  | num n => cases n <;> simp [refuse, lift, raise, bind, Except.bind]
  | str s => cases s <;> simp [refuse, lift, raise, bind, Except.bind]
  | _ => simp [refuse, raise]

theorem string_ok {d : Doc} {s : String} (h : string d = .ok s) : d = .str (.ok s) := by
  unfold string at h
  split at h
  · rename_i r
    cases r with
    | ok s' => rw [Except.ok.inj h]
    | error f => cases h
  · exact absurd h (refuse_ne_ok _ _ _)

theorem docOf_str {j : Json} {s : String} (h : docOf j = .str (.ok s)) : j = .str s := by
  cases j with
  | str s' => rw [Except.ok.inj (Doc.str.inj h)]
  | _ => cases h

theorem docOf_null {j : Json} (h : docOf j = .null) : j = .null := by
  cases j with
  | null => rfl
  | _ => cases h

theorem value_arr {depth : Nat} {items : List Json} {v : Json}
    (h : (docOf (.arr items)).value depth = .ok v) : ∃ js, v = .arr js := by
  cases depth with
  | zero => simp [docOf, Doc.value] at h
  | succ depth =>
    simp only [docOf, Doc.value, bind, Except.bind, Doc.ending] at h
    split at h
    · cases h
    · exact ⟨_, (Except.ok.inj h).symm⟩

theorem value_obj {depth : Nat} {members : List (String × Json)} {v : Json}
    (h : (docOf (.obj members)).value depth = .ok v) : ∃ ms, v = .obj ms := by
  cases depth with
  | zero => simp [docOf, Doc.value] at h
  | succ depth =>
    simp only [docOf, Doc.value, bind, Except.bind, Doc.ending] at h
    split at h
    · cases h
    · exact ⟨_, (Except.ok.inj h).symm⟩

theorem ofJson?_value {depth : Nat} {j v : Json} {i : RequestId} (h : (docOf j).value depth = .ok v)
    (hv : RequestId.ofJson? v = some i) : RequestId.ofJson? j = some i := by
  cases j with
  | null =>
    obtain rfl := Except.ok.inj h
    exact hv
  | bool b =>
    obtain rfl := Except.ok.inj h
    exact hv
  | str s =>
    obtain rfl := Except.ok.inj h
    exact hv
  | num n =>
    rw [docOf, Doc.value] at h
    cases hn : reread n with
    | error f =>
      rw [hn] at h
      cases h
    | ok m =>
      rw [hn] at h
      obtain rfl := Except.ok.inj h
      cases m with
      | int k => rwa [reread_int hn]
      | float bits => cases hv
  | arr items =>
    obtain ⟨js, rfl⟩ := value_arr h
    cases hv
  | obj members =>
    obtain ⟨ms, rfl⟩ := value_obj h
    cases hv

theorem readWithin_docOf {depth : Nat} {j : Json} {i : RequestId}
    (h : RequestId.readWithin depth (docOf j) = .ok i) : RequestId.ofJson? j = some i := by
  simp only [RequestId.readWithin, any, bind, Except.bind] at h
  cases hv : (docOf j).value depth with
  | error f =>
    rw [hv] at h
    cases h
  | ok v =>
    rw [hv] at h
    dsimp only [lift] at h
    split at h
    · rename_i i' hi
      obtain rfl := Except.ok.inj h
      exact ofJson?_value hv hi
    · cases h

theorem identifier?_optional {depth : Nat} {j : Json} {i : Option RequestId}
    (h : optional (RequestId.readWithin depth) (docOf j) = .ok i) : identifier? (some j) = some i := by
  unfold optional at h
  split at h
  · rename_i hnull
    obtain rfl := docOf_null hnull
    rw [← Except.ok.inj h]
    rfl
  · rename_i hne
    cases hr : RequestId.readWithin depth (docOf j) with
    | error e =>
      rw [hr] at h
      cases h
    | ok i' =>
      rw [hr] at h
      have hi := readWithin_docOf hr
      obtain rfl := Except.ok.inj h
      rw [identifier?, hi]
      · rfl
      · rintro rfl
        exact hne rfl

theorem readElements_cons {σ α : Type} {s : Shape σ α} {e : Option Fault} {n : Nat} {r r' : σ}
    {f : Field σ} {fields : List (Field σ)} {d : Doc} {rest : List Doc}
    (h : s.readElements e n r (f :: fields) (d :: rest) = .ok r') :
    ∃ r₁, f.fill r d = .ok r₁ ∧ s.readElements e (n + 1) r₁ fields rest = .ok r' := by
  rw [Shape.readElements] at h
  cases hf : f.fill r d with
  | error x =>
    rw [hf] at h
    cases h
  | ok r₁ =>
    rw [hf] at h
    exact ⟨r₁, rfl, h⟩

section Members

variable {σ α β : Type} {s : Shape σ α} {name : String} {r : Reader β} {get : σ → Option β}

structure Keeps (s : Shape σ α) (name : String) (r : Reader β) (get : σ → Option β) : Prop where
  found : ∃ f, s.fields.find? (·.name == name) = some f ∧ (∀ d, f.filled d = (get d).isSome) ∧
    ∀ d doc d', f.fill d doc = .ok d' → ∃ b, r doc = .ok b ∧ get d' = some b
  others : ∀ f ∈ s.fields, f.name ≠ name → ∀ d doc d', f.fill d doc = .ok d' → get d' = get d

theorem Keeps.readMembers (hs : Keeps s name r get) {ms : List (String × Json)} {d d' : σ}
    (h : s.readMembers d (memberDocs ms) = .ok d') :
    match ms.lookup name with
    | none => get d' = get d
    | some j => get d = none ∧ ∃ b, r (docOf j) = .ok b ∧ get d' = some b := by
  obtain ⟨f, hfind, hfilled, hfill⟩ := hs.found
  rw [memberDocs_eq_keyed] at h
  induction ms generalizing d with
  | nil => rw [List.lookup_nil, Except.ok.inj h]
  | cons m ms ih =>
    obtain ⟨k, j⟩ := m
    rcases readMembers_cons_ok h with ⟨g, d₁, hg, hempty, hfill₁, h₁⟩ | ⟨hg, -, h₁⟩
    · have hrest := ih h₁
      obtain ⟨hmem, rfl⟩ := find?_name hg
      by_cases hk : g.name = name
      · obtain rfl : f = g := Option.some.inj (hfind.symm.trans (hk ▸ hg))
        obtain ⟨b, hb, hget⟩ := hfill _ _ _ hfill₁
        rw [hk, List.lookup_cons_self]
        cases hl : ms.lookup name with
        | none =>
          rw [hl] at hrest
          refine ⟨?_, b, hb, by rw [hrest, hget]⟩
          simpa [hfilled] using hempty
        | some j' =>
          rw [hl, hget] at hrest
          cases hrest.1
      · have hkept := hs.others g hmem hk _ _ _ hfill₁
        rw [List.lookup_cons, beq_false_of_ne (Ne.symm hk)]
        rwa [hkept] at hrest
    · have hk : name ≠ k := by
        rintro rfl
        rw [hfind] at hg
        cases hg
      rw [List.lookup_cons, beq_false_of_ne hk]
      exact ih h₁

end Members

end Json

namespace Incoming

open Json

theorem keeps_method : Keeps shape "method" string Draft.method where
  found := by
    refine ⟨_, rfl, fun d => rfl, fun d doc d' h => ?_⟩
    obtain ⟨b, hb, rfl⟩ := fill_field.mp h
    exact ⟨b, hb, rfl⟩
  others := by
    intro f hf hname d doc d' h
    simp only [shape, List.mem_cons, List.not_mem_nil, or_false] at hf
    rcases hf with rfl | rfl
    · exact absurd rfl hname
    · obtain ⟨b, hb, rfl⟩ := fill_field.mp h
      rfl

theorem keeps_id :
    Keeps shape "id" (optional (RequestId.readWithin (maxDepth - 1))) Draft.id where
  found := by
    refine ⟨_, rfl, fun d => rfl, fun d doc d' h => ?_⟩
    obtain ⟨b, hb, rfl⟩ := fill_field.mp h
    exact ⟨b, hb, rfl⟩
  others := by
    intro f hf hname d doc d' h
    simp only [shape, List.mem_cons, List.not_mem_nil, or_false] at hf
    rcases hf with rfl | rfl
    · obtain ⟨b, hb, rfl⟩ := fill_field.mp h
      rfl
    · exact absurd rfl hname

theorem done_ok {d : Draft} {method : String} {id : Option RequestId}
    (h : shape.done d = .ok (method, id)) : d.method = some method ∧ d.id.getD none = id := by
  obtain ⟨_ | s, i⟩ := d
  · cases h
  · obtain ⟨rfl, rfl⟩ := Prod.mk.inj (Except.ok.inj h)
    exact ⟨rfl, rfl⟩

theorem envelope?_obj {members : List (String × Json)} {method : String} {id : Option RequestId}
    (h : shape.read (docOf (.obj members)) = .ok (method, id)) :
    (Json.obj members).envelope? = some (method, id) := by
  simp only [docOf, Shape.read, bind, Except.bind, lift, Doc.ending] at h
  cases hd : shape.readMembers shape.start (memberDocs members) with
  | error e =>
    rw [hd] at h
    cases h
  | ok d =>
    rw [hd] at h
    obtain ⟨hs, hi⟩ := done_ok h
    have hmethod := keeps_method.readMembers hd
    have hid := keeps_id.readMembers hd
    cases hm : members.lookup "method" with
    | none =>
      rw [hm, hs] at hmethod
      cases hmethod
    | some j =>
      rw [hm, hs] at hmethod
      obtain ⟨-, s, hj, heq⟩ := hmethod
      obtain rfl := Option.some.inj heq
      obtain rfl := docOf_str (string_ok hj)
      have hfound : identifier? (members.lookup "id") = some id := by
        cases hl : members.lookup "id" with
        | none =>
          rw [hl] at hid
          rw [← hi, hid]
          rfl
        | some j =>
          rw [hl] at hid
          obtain ⟨-, i, hj, heq⟩ := hid
          rw [identifier?_optional hj, ← hi, heq]
          rfl
      simp only [envelope?, hm, hfound, Option.map_some]

theorem envelope?_arr {items : List Json} {method : String} {id : Option RequestId}
    (h : shape.read (docOf (.arr items)) = .ok (method, id)) :
    (Json.arr items).envelope? = some (method, id) := by
  simp only [docOf, Shape.read, bind, Except.bind] at h
  cases hd : shape.readElements none 0 shape.start shape.fields (docsOf items) with
  | error e =>
    rw [hd] at h
    cases h
  | ok d =>
    rw [hd] at h
    obtain ⟨hs, hi⟩ := done_ok h
    rcases items with _ | ⟨j, rest⟩
    · cases hd
    obtain ⟨d₁, hfill, hrest⟩ := readElements_cons hd
    obtain ⟨s, hj, rfl⟩ := fill_field.mp hfill
    obtain rfl := docOf_str (string_ok hj)
    rcases rest with _ | ⟨j', rest⟩
    · obtain rfl := Except.ok.inj hrest
      obtain rfl := Option.some.inj hs
      rw [← hi]
      rfl
    obtain ⟨d₂, hfill', hrest'⟩ := readElements_cons hrest
    obtain ⟨i, hj', rfl⟩ := fill_field.mp hfill'
    rcases rest with _ | ⟨j'', rest⟩
    · obtain rfl := Except.ok.inj hrest'
      obtain rfl := Option.some.inj hs
      obtain rfl := hi
      rw [envelope?, identifier?_optional hj']
      rfl
    · cases hrest'

theorem envelope?_of_parse {j : Json} {m : Incoming} (h : parse j.bytes = .ok m) :
    j.envelope? = some (m.method, m.id) ∧ m.body = j.bytes := by
  rw [parse, decodeText, read_bytes] at h
  cases hr : shape.read (docOf j) with
  | error e =>
    rw [hr] at h
    rcases e with (_ | _) | _ | _ <;> cases h
  | ok r =>
    obtain ⟨method, id⟩ := r
    rw [hr] at h
    obtain rfl := Except.ok.inj h
    refine ⟨?_, rfl⟩
    cases j with
    | arr items => exact envelope?_arr hr
    | obj members => exact envelope?_obj hr
    | _ =>
      simp only [docOf, Shape.read] at hr
      exact absurd hr (refuse_ne_ok _ _ _)

end Incoming

end BuildServer
