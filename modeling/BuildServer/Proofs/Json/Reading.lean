import BuildServer.Proofs.Json.Grammar

namespace BuildServer.Json

open Utf8

def resume (fuel : Nat) (outer : List Outer) (doc : Doc) (rest : Bytes) : JsonText :=
  match outer with
  | [] => ⟨doc, behindValue rest⟩
  | .items seen :: outer => run fuel (.afterItem (doc :: seen)) outer rest
  | .member seen key :: outer => run fuel (.afterMember ((key, doc) :: seen)) outer rest

section Gaps

variable (g : Gap) (rest : Bytes)

theorem skipSpace_gap : skipSpace (g.bytes ++ rest) = skipSpace rest := by
  rw [skipSpace, List.dropWhile_append_of_pos g.blank]
  rfl

theorem run_gap (fuel : Nat) (phase : Phase) (outer : List Outer) :
    run fuel phase outer (g.bytes ++ rest) = run fuel phase outer rest := by
  cases fuel with
  | zero => rfl
  | succ fuel => cases phase <;> simp only [run, skipSpace_gap]

theorem resume_gap (fuel : Nat) (outer : List Outer) (doc : Doc) :
    resume fuel outer doc (g.bytes ++ rest) = resume fuel outer doc rest := by
  rcases outer with _ | ⟨_ | _, outer⟩
  · rw [resume, behindValue, skipSpace_gap]
    rfl
  · exact run_gap g rest fuel _ outer
  · exact run_gap g rest fuel _ outer

end Gaps

section Ends

theorem ends_of_space {b : UInt8} (h : isSpace b = true) (rest : Bytes) : Ends (b :: rest) := by
  rintro _ ⟨⟩
  simp only [isSpace, Bool.or_eq_true, beq_iff_eq] at h
  rcases h with ((rfl | rfl) | rfl) | rfl <;> decide

theorem ends_of_closing {b : UInt8} (h : b = 0x2C ∨ b = 0x5D ∨ b = 0x7D) (rest : Bytes) :
    Ends (b :: rest) := by
  rintro _ ⟨⟩
  rcases h with rfl | rfl | rfl <;> decide

theorem ends_gap (g : Gap) {rest : Bytes} (h : Ends rest) : Ends (g.bytes ++ rest) := by
  cases hg : g.bytes with
  | nil => exact h
  | cons b bs => exact ends_of_space (g.blank b (hg ▸ List.mem_cons_self)) _

theorem ends_itemBytes (is : List (Item Text)) (rest : Bytes) :
    Ends (Text.itemBytes [0x2C] is ++ 0x5D :: rest) := by
  cases is with
  | nil => exact ends_of_closing (.inr (.inl rfl)) _
  | cons i is => exact ends_of_closing (.inl rfl) _

theorem ends_memberBytes (ms : List (Member Text)) (rest : Bytes) :
    Ends (Text.memberBytes [0x2C] ms ++ 0x7D :: rest) := by
  cases ms with
  | nil => exact ends_of_closing (.inr (.inr rfl)) _
  | cons m ms => exact ends_of_closing (.inl rfl) _

end Ends

section Begins

def Begins (b : UInt8) : Prop := isSpace b = false ∧ b ≠ 0x5D

theorem begins_number {b : UInt8} (h : b = 0x2D ∨ isDigit b = true) : Begins b := by
  rcases h with rfl | h
  · exact ⟨by decide, by decide⟩
  · refine ⟨?_, ?_⟩
    · rw [← Bool.not_eq_true]
      intro hs
      simp only [isSpace, Bool.or_eq_true, beq_iff_eq] at hs
      rcases hs with ((rfl | rfl) | rfl) | rfl <;> revert h <;> decide
    · rintro rfl
      revert h
      decide

theorem Text.bytes_cons (t : Text) : ∃ b bs, t.bytes = b :: bs ∧ Begins b := by
  cases t with
  | null => exact ⟨_, _, rfl, by decide, by decide⟩
  | bool b => cases b <;> exact ⟨_, _, rfl, by decide, by decide⟩
  | number s hs =>
    obtain ⟨b, bs, h, hb⟩ := hs.cons_bytes
    exact ⟨b, bs, h, begins_number hb⟩
  | string ls => exact ⟨_, _, rfl, by decide, by decide⟩
  | array gap items => exact ⟨_, _, rfl, by decide, by decide⟩
  | object gap members => exact ⟨_, _, rfl, by decide, by decide⟩

theorem skipSpace_bytes (t : Text) (rest : Bytes) : skipSpace (t.bytes ++ rest) = t.bytes ++ rest := by
  obtain ⟨b, bs, h, hb, -⟩ := t.bytes_cons
  rw [h, List.cons_append, skipSpace, List.dropWhile_cons_of_neg (by simp [hb])]

theorem skipSpace_quotedBytes (ls : List Letter) (rest : Bytes) :
    skipSpace (quotedBytes ls ++ rest) = quotedBytes ls ++ rest := by
  rw [quotedBytes_append]
  rfl

end Begins

section Scalars

def ReadsAs (text : Bytes) (doc : Doc) : Prop :=
  ∃ k ≤ 2 * text.length, ∀ fuel outer rest, Ends rest →
    run (k + fuel) .value outer (text ++ rest) = resume fuel outer doc rest

theorem readScalar_number {s : Spelling} (hs : s.Valid) {rest : Bytes} (hrest : Ends rest) :
    readScalar (encodeChars s.chars ++ rest) = (.num s.numeral.number, some rest) := by
  have hread := readNumeral_append hs hrest
  obtain ⟨b, bs, hbytes, hb⟩ := hs.cons_bytes
  rw [hbytes, List.cons_append] at hread ⊢
  rw [readScalar, if_pos (by simpa using hb), hread]
  all_goals
    rintro rfl
    revert hb
    decide

theorem readsAs_scalar {t : Text} {doc : Doc} {b : UInt8} {bs : Bytes} (hb : t.bytes = b :: bs)
    (hopen : b ≠ 0x5B) (hbrace : b ≠ 0x7B)
    (h : ∀ rest, Ends rest → readScalar (t.bytes ++ rest) = (doc, some rest)) : ReadsAs t.bytes doc := by
  refine ⟨1, by simp only [hb, List.length_cons]; omega, fun fuel outer rest hrest => ?_⟩
  have hscalar := h rest hrest
  rw [Nat.add_comm, run, skipSpace_bytes]
  rw [hb, List.cons_append] at hscalar ⊢
  split
  · rename_i heq
    exact absurd (List.cons.inj heq).1 hopen
  · rename_i heq
    exact absurd (List.cons.inj heq).1 hbrace
  · simp only [hscalar]
    rfl

theorem readsAs_number {s : Spelling} (hs : s.Valid) :
    ReadsAs (Text.number s hs).bytes (Text.number s hs).doc := by
  obtain ⟨b, bs, hb, hfirst⟩ := hs.cons_bytes
  have hne : ∀ c, isDigit c = false → c ≠ 0x2D → b ≠ c := by
    rintro c hdigit hminus rfl
    rcases hfirst with h | h
    · exact hminus h
    · exact Bool.false_ne_true (hdigit.symm.trans h)
  exact readsAs_scalar hb (hne _ rfl (by decide)) (hne _ rfl (by decide)) fun rest hrest =>
    readScalar_number hs hrest

end Scalars

section Arrays

theorem run_open (fuel : Nat) (outer : List Outer) (text : Bytes) :
    run (fuel + 1) .value outer (0x5B :: text) = run fuel .firstItem outer text := rfl

theorem run_comma (fuel : Nat) (seen : List Doc) (outer : List Outer) (text : Bytes) :
    run (fuel + 1) (.afterItem seen) outer (0x2C :: text) = run fuel (.item seen) outer text := rfl

theorem run_item (fuel : Nat) (seen : List Doc) (outer : List Outer) (t : Text) (rest : Bytes) :
    run (fuel + 1) (.item seen) outer (t.bytes ++ rest) =
      run fuel .value (.items seen :: outer) (t.bytes ++ rest) := by
  obtain ⟨b, bs, h, -, hb⟩ := t.bytes_cons
  rw [run, skipSpace_bytes, h, List.cons_append]
  split
  · rename_i heq
    cases heq
  · rename_i heq
    exact absurd (List.cons.inj heq).1 hb
  · rfl

theorem run_firstItem (fuel : Nat) (outer : List Outer) (t : Text) (rest : Bytes) :
    run (fuel + 1) .firstItem outer (t.bytes ++ rest) =
      run fuel .value (.items [] :: outer) (t.bytes ++ rest) := by
  obtain ⟨b, bs, h, -, hb⟩ := t.bytes_cons
  rw [run, skipSpace_bytes, h, List.cons_append]
  dsimp only
  split
  · rename_i heq
    cases heq
  · rename_i heq
    exact absurd (List.cons.inj heq).1 hb
  · rfl

theorem run_itemBytes {is : List (Item Text)} (h : ∀ i ∈ is, ReadsAs i.value.bytes i.value.doc) :
    ∃ k ≤ 2 * (Text.itemBytes [0x2C] is).length + 1, ∀ fuel seen outer rest,
      run (k + fuel) (.afterItem seen) outer (Text.itemBytes [0x2C] is ++ 0x5D :: rest) =
        resume fuel outer (.arr (seen.reverse ++ Text.itemDocs is) none) rest := by
  induction is with
  | nil =>
    refine ⟨1, by simp, fun fuel seen outer rest => ?_⟩
    rw [Nat.add_comm, Text.itemDocs, List.append_nil]
    rfl
  | cons i is ih =>
    obtain ⟨before, t, after⟩ := i
    obtain ⟨k, hk, hrun⟩ := h _ List.mem_cons_self
    obtain ⟨k', hk', hrun'⟩ := ih fun i hi => h i (List.mem_cons_of_mem _ hi)
    refine ⟨k + k' + 2, ?_, fun fuel seen outer rest => ?_⟩
    · simp only [Text.itemBytes, List.length_append, List.length_cons] at hk hk' ⊢
      omega
    have htext : Text.itemBytes [0x2C] (⟨before, t, after⟩ :: is) ++ 0x5D :: rest =
        0x2C :: (before.bytes ++ (t.bytes ++ (after.bytes ++ (Text.itemBytes [0x2C] is ++ 0x5D :: rest)))) := by
      simp [Text.itemBytes]
    -- Two steps for the comma and for the element to begin, then those of the element and of the ones behind it.
    have hfuel : k + k' + 2 + fuel = k + (k' + fuel) + 1 + 1 := by omega
    rw [htext, hfuel, run_comma, run_gap, run_item, hrun _ _ _ (ends_gap after (ends_itemBytes is rest)),
      resume_gap, resume, hrun', List.reverse_cons, Text.itemDocs]
    simp

theorem readsAs_array {gap : Gap} {is : List (Item Text)} (h : ∀ i ∈ is, ReadsAs i.value.bytes i.value.doc) :
    ReadsAs (Text.array gap is).bytes (Text.array gap is).doc := by
  cases is with
  | nil =>
    refine ⟨2, by simp only [Text.bytes, List.length_cons]; omega, fun fuel outer rest _ => ?_⟩
    have htext : (Text.array gap []).bytes ++ rest = 0x5B :: (gap.bytes ++ 0x5D :: rest) := by
      simp [Text.bytes, Text.itemBytes]
    rw [htext, Nat.add_comm, run_open, run_gap]
    rfl
  | cons i is =>
    obtain ⟨before, t, after⟩ := i
    obtain ⟨k, hk, hrun⟩ := h _ List.mem_cons_self
    obtain ⟨k', hk', hrun'⟩ := run_itemBytes fun i hi => h i (List.mem_cons_of_mem _ hi)
    refine ⟨k + k' + 2, ?_, fun fuel outer rest _ => ?_⟩
    · simp only [Text.bytes, Text.itemBytes, List.length_append, List.length_cons] at hk ⊢
      omega
    have htext : (Text.array gap (⟨before, t, after⟩ :: is)).bytes ++ rest =
        0x5B :: (gap.bytes ++ (before.bytes ++ (t.bytes ++ (after.bytes ++
          (Text.itemBytes [0x2C] is ++ 0x5D :: rest))))) := by
      simp [Text.bytes, Text.itemBytes]
    have hfuel : k + k' + 2 + fuel = k + (k' + fuel) + 1 + 1 := by omega
    rw [htext, hfuel, run_open, run_gap, run_gap, run_firstItem,
      hrun _ _ _ (ends_gap after (ends_itemBytes is rest)), resume_gap, resume, hrun', Text.doc, Text.itemDocs]
    rfl

end Arrays

section Objects

theorem run_brace (fuel : Nat) (outer : List Outer) (text : Bytes) :
    run (fuel + 1) .value outer (0x7B :: text) = run fuel .firstKey outer text := rfl

theorem run_memberComma (fuel : Nat) (seen : List (Except Fault String × Doc)) (outer : List Outer)
    (text : Bytes) :
    run (fuel + 1) (.afterMember seen) outer (0x2C :: text) = run fuel (.key seen) outer text := rfl

theorem run_colon (fuel : Nat) (seen : List (Except Fault String × Doc)) (key : Except Fault String)
    (outer : List Outer) (text : Bytes) :
    run (fuel + 1) (.colon seen key) outer (0x3A :: text) =
      run fuel .value (.member seen key :: outer) text := rfl

theorem run_key (fuel : Nat) (seen : List (Except Fault String × Doc)) (outer : List Outer)
    (key : List Letter) (rest : Bytes) :
    run (fuel + 1) (.key seen) outer (quotedBytes key ++ rest) =
      run fuel (.colon seen (stringDoc key)) outer rest := by
  have hscalar := readScalar_quotedBytes key rest
  rw [run, skipSpace_quotedBytes]
  rw [quotedBytes_append] at hscalar ⊢
  simp only [hscalar]

theorem run_firstKey (fuel : Nat) (outer : List Outer) (key : List Letter) (rest : Bytes) :
    run (fuel + 1) .firstKey outer (quotedBytes key ++ rest) =
      run fuel (.key []) outer (quotedBytes key ++ rest) := by
  rw [quotedBytes_append]
  rfl

theorem run_memberBytes {ms : List (Member Text)} (h : ∀ m ∈ ms, ReadsAs m.value.bytes m.value.doc) :
    ∃ k ≤ 2 * (Text.memberBytes [0x2C] ms).length + 1, ∀ fuel seen outer rest,
      run (k + fuel) (.afterMember seen) outer (Text.memberBytes [0x2C] ms ++ 0x7D :: rest) =
        resume fuel outer (.obj (seen.reverse ++ Text.memberDocs ms) none) rest := by
  induction ms with
  | nil =>
    refine ⟨1, by simp, fun fuel seen outer rest => ?_⟩
    rw [Nat.add_comm, Text.memberDocs, List.append_nil]
    rfl
  | cons m ms ih =>
    obtain ⟨before, key, behindKey, beforeValue, t, after⟩ := m
    obtain ⟨k, hk, hrun⟩ := h _ List.mem_cons_self
    obtain ⟨k', hk', hrun'⟩ := ih fun m hm => h m (List.mem_cons_of_mem _ hm)
    refine ⟨k + k' + 3, ?_, fun fuel seen outer rest => ?_⟩
    · simp only [Text.memberBytes, List.length_append, List.length_cons] at hk hk' ⊢
      omega
    have htext : Text.memberBytes [0x2C] (⟨before, key, behindKey, beforeValue, t, after⟩ :: ms) ++ 0x7D :: rest =
        0x2C :: (before.bytes ++ (quotedBytes key ++ (behindKey.bytes ++ 0x3A :: (beforeValue.bytes ++
          (t.bytes ++ (after.bytes ++ (Text.memberBytes [0x2C] ms ++ 0x7D :: rest))))))) := by
      simp [Text.memberBytes]
    have hfuel : k + k' + 3 + fuel = k + (k' + fuel) + 1 + 1 + 1 := by omega
    rw [htext, hfuel, run_memberComma, run_gap, run_key, run_gap, run_colon, run_gap,
      hrun _ _ _ (ends_gap after (ends_memberBytes ms rest)), resume_gap, resume, hrun', List.reverse_cons,
      Text.memberDocs]
    simp

theorem readsAs_object {gap : Gap} {ms : List (Member Text)}
    (h : ∀ m ∈ ms, ReadsAs m.value.bytes m.value.doc) :
    ReadsAs (Text.object gap ms).bytes (Text.object gap ms).doc := by
  cases ms with
  | nil =>
    refine ⟨2, by simp only [Text.bytes, List.length_cons]; omega, fun fuel outer rest _ => ?_⟩
    have htext : (Text.object gap []).bytes ++ rest = 0x7B :: (gap.bytes ++ 0x7D :: rest) := by
      simp [Text.bytes, Text.memberBytes]
    rw [htext, Nat.add_comm, run_brace, run_gap]
    rfl
  | cons m ms =>
    obtain ⟨before, key, behindKey, beforeValue, t, after⟩ := m
    obtain ⟨k, hk, hrun⟩ := h _ List.mem_cons_self
    obtain ⟨k', hk', hrun'⟩ := run_memberBytes fun m hm => h m (List.mem_cons_of_mem _ hm)
    refine ⟨k + k' + 4, ?_, fun fuel outer rest _ => ?_⟩
    · simp only [Text.bytes, Text.memberBytes, quotedBytes, List.length_append, List.length_cons] at hk ⊢
      omega
    have htext : (Text.object gap (⟨before, key, behindKey, beforeValue, t, after⟩ :: ms)).bytes ++ rest =
        0x7B :: (gap.bytes ++ (before.bytes ++ (quotedBytes key ++ (behindKey.bytes ++ 0x3A ::
          (beforeValue.bytes ++ (t.bytes ++ (after.bytes ++
            (Text.memberBytes [0x2C] ms ++ 0x7D :: rest)))))))) := by
      simp [Text.bytes, Text.memberBytes]
    have hfuel : k + k' + 4 + fuel = k + (k' + fuel) + 1 + 1 + 1 + 1 := by omega
    rw [htext, hfuel, run_brace, run_gap, run_gap, run_firstKey, run_key, run_gap, run_colon, run_gap,
      hrun _ _ _ (ends_gap after (ends_memberBytes ms rest)), resume_gap, resume, hrun', Text.doc,
      Text.memberDocs]
    rfl

end Objects

theorem readsAs_bytes (t : Text) : ReadsAs t.bytes t.doc := by
  induction t with
  | null => exact readsAs_scalar rfl (by decide) (by decide) fun rest _ => rfl
  | bool b => cases b <;> exact readsAs_scalar rfl (by decide) (by decide) fun rest _ => rfl
  | number s hs => exact readsAs_number hs
  | string ls =>
    exact readsAs_scalar rfl (by decide) (by decide) fun rest _ => readScalar_quotedBytes ls rest
  | array gap items ih => exact readsAs_array ih
  | object gap members ih => exact readsAs_object ih

theorem read_within (lead tail : Gap) (t : Text) : read (t.within lead tail) = ⟨t.doc, none⟩ := by
  obtain ⟨k, hk, hrun⟩ := readsAs_bytes t
  have hends : Ends tail.bytes := by
    have hnil : Ends [] := by simp [Ends]
    have h := ends_gap tail hnil
    rwa [List.append_nil] at h
  have htail : behindValue tail.bytes = none := by
    have h := skipSpace_gap tail []
    rw [List.append_nil] at h
    rw [behindValue, h]
    rfl
  rw [read, Text.within, run_gap]
  generalize hn : 2 * (lead.bytes ++ (t.bytes ++ tail.bytes)).length + 2 = n
  have hfuel : n = k + (n - k) := by
    simp only [List.length_append] at hn
    omega
  rw [hfuel, hrun _ _ _ hends, resume, htail]

theorem read_text (t : Text) : read t.bytes = ⟨t.doc, none⟩ := by
  have h := read_within .none .none t
  rwa [Text.within, Gap.none, List.nil_append, List.append_nil] at h

section Depth

theorem Text.skip_doc (t : Text) : t.doc.skip = .ok () := by
  cases t <;> rfl

theorem depth_le_of_mem_items {is : List (Item Text)} {i : Item Text} (h : i ∈ is) :
    i.value.depth ≤ Text.depthOfItems is := by
  induction is with
  | nil => cases h
  | cons j is ih =>
    rw [Text.depthOfItems]
    rcases List.mem_cons.mp h with rfl | h
    · exact Nat.le_max_left ..
    · exact Nat.le_trans (ih h) (Nat.le_max_right ..)

theorem depth_le_of_mem_members {ms : List (Member Text)} {m : Member Text} (h : m ∈ ms) :
    m.value.depth ≤ Text.depthOfMembers ms := by
  induction ms with
  | nil => cases h
  | cons m' ms ih =>
    rw [Text.depthOfMembers]
    rcases List.mem_cons.mp h with rfl | h
    · exact Nat.le_max_left ..
    · exact Nat.le_trans (ih h) (Nat.le_max_right ..)

theorem valueOfItems_congr {n n' : Nat} {is : List (Item Text)}
    (h : ∀ i ∈ is, i.value.doc.value n = i.value.doc.value n') (seen : List Json) :
    Doc.valueOfItems n seen (Text.itemDocs is) = Doc.valueOfItems n' seen (Text.itemDocs is) := by
  induction is generalizing seen with
  | nil => rfl
  | cons i is ih =>
    have hrest := ih fun i hi => h i (List.mem_cons_of_mem _ hi)
    simp only [Text.itemDocs, Doc.valueOfItems, h i List.mem_cons_self, hrest]

theorem valueOfMembers_congr {n n' : Nat} {ms : List (Member Text)}
    (h : ∀ m ∈ ms, m.value.doc.value n = m.value.doc.value n') (seen : Table Json) :
    Doc.valueOfMembers n seen (Text.memberDocs ms) = Doc.valueOfMembers n' seen (Text.memberDocs ms) := by
  induction ms generalizing seen with
  | nil => rfl
  | cons m ms ih =>
    have hrest := ih fun m hm => h m (List.mem_cons_of_mem _ hm)
    simp only [Text.memberDocs, Doc.valueOfMembers, h m List.mem_cons_self, hrest]

theorem value_of_depth_le {t : Text} {n k : Nat} (h : t.depth ≤ n) (h' : t.depth ≤ k) :
    t.doc.value n = t.doc.value k := by
  induction t generalizing n k with
  | null => rfl
  | bool b => rfl
  | number s hs => rfl
  | string ls => rfl
  | array gap items ih =>
    rw [Text.depth] at h h'
    obtain ⟨n, rfl⟩ := Nat.exists_eq_succ_of_ne_zero (show n ≠ 0 by omega)
    obtain ⟨k, rfl⟩ := Nat.exists_eq_succ_of_ne_zero (show k ≠ 0 by omega)
    have hitems : ∀ i ∈ items, i.value.doc.value n = i.value.doc.value k := by
      intro i hi
      have := depth_le_of_mem_items hi
      exact ih i hi (by omega) (by omega)
    simp only [Text.doc, Doc.value, valueOfItems_congr hitems]
  | object gap members ih =>
    rw [Text.depth] at h h'
    obtain ⟨n, rfl⟩ := Nat.exists_eq_succ_of_ne_zero (show n ≠ 0 by omega)
    obtain ⟨k, rfl⟩ := Nat.exists_eq_succ_of_ne_zero (show k ≠ 0 by omega)
    have hmembers : ∀ m ∈ members, m.value.doc.value n = m.value.doc.value k := by
      intro m hm
      have := depth_le_of_mem_members hm
      exact ih m hm (by omega) (by omega)
    simp only [Text.doc, Doc.value, valueOfMembers_congr hmembers]

end Depth

end BuildServer.Json
