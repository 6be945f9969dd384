import BuildServer.Proofs.Frame.Grammar

namespace BuildServer

namespace Frame

variable {buffer used segment bytes : Bytes} {o : Outcome} {os : List Outcome} {owed n : Nat}

inductive Takes : Outcome → Bytes → Nat → Prop
  | body {header body : Bytes} (opens : Opens header body (header ++ emptyLine ++ body))
    (declared : Declares header body.length) : Takes (.body body) (header ++ emptyLine ++ body) 0
  | invalid {reason : InvalidReason} {data : Bytes} (small : ∀ n, reason ≠ .tooLarge n) :
    Takes (.invalid ⟨reason, data⟩) data 0
  | oversized {n owed : Nat} {data dropped : Bytes} (size : dropped.length + owed = n) :
    Takes (.invalid ⟨.tooLarge n, data⟩) (data ++ dropped) owed

/-- The outcomes so far have taken these bytes, each its own behind those of the ones before. Only the last may
have bytes still to take. -/
inductive Accounted : List Outcome → Bytes → Nat → Prop
  | nil : Accounted [] [] 0
  | snoc {os : List Outcome} {o : Outcome} {used segment : Bytes} {owed : Nat} (before : Accounted os used 0)
    (takes : Takes o segment owed) : Accounted (os ++ [o]) (used ++ segment) owed

theorem Opens.cut {header body rest : Bytes} (h : Opens header (body ++ rest) buffer) :
    Opens header body (header ++ emptyLine ++ body) := by
  obtain ⟨rfl, first⟩ := h
  refine ⟨rfl, fun before after hbody => first before (after ++ rest) ?_⟩
  rw [← List.append_assoc, hbody, List.append_assoc]

theorem takes_of_yields {d : Decoder} (h : Yields buffer o d) :
    ∃ segment, buffer = segment ++ d.buffer ∧ Takes o segment d.discard := by
  cases h with
  | @body header body rest opens declared fits =>
    refine ⟨header ++ emptyLine ++ body, ?_, .body opens.cut declared⟩
    rw [opens.1, List.append_assoc _ body]
  | noText opens bad => exact ⟨_, opens.1, .invalid nofun⟩
  | noSize opens text undeclared => exact ⟨_, opens.1, .invalid nofun⟩
  | @tooLarge header rest n opens declared bounded large =>
    refine ⟨header ++ emptyLine, opens.1, ?_⟩
    have takes : Takes (.invalid ⟨.tooLarge n, header ++ emptyLine⟩) (header ++ emptyLine ++ []) n :=
      .oversized (Nat.zero_add n)
    rwa [List.append_nil] at takes

theorem nothing_dropped {dropped : Bytes} (h : dropped.length + owed = 0) : dropped = [] ∧ owed = 0 :=
  ⟨List.eq_nil_of_length_eq_zero (by omega), by omega⟩

theorem Takes.drop {dropped : Bytes} (h : Takes o segment n) (hn : dropped.length + owed = n) :
    Takes o (segment ++ dropped) owed := by
  by_cases hzero : n = 0
  · subst hzero
    obtain ⟨rfl, rfl⟩ := nothing_dropped hn
    rwa [List.append_nil]
  · cases h with
    | body opens declared => exact absurd rfl hzero
    | invalid small => exact absurd rfl hzero
    | oversized size =>
      rw [List.append_assoc]
      exact .oversized (by rw [List.length_append]; omega)

theorem Accounted.drop {dropped : Bytes} (h : Accounted os used n) (hn : dropped.length + owed = n) :
    Accounted os (used ++ dropped) owed := by
  cases h with
  | nil =>
    obtain ⟨rfl, rfl⟩ := nothing_dropped hn
    exact .nil
  | snoc before takes =>
    rw [List.append_assoc]
    exact .snoc before (takes.drop hn)

namespace Decoder

variable {d d' : Decoder}

inductive Act where
  | extend (bytes : Bytes)
  | next

def Act.fed : Act → Bytes
  | extend bytes => bytes
  | next => []

def perform (d : Decoder) : List Act → List Outcome × Decoder
  | [] => ([], d)
  | .extend bytes :: acts => (d.extend bytes).perform acts
  | .next :: acts =>
    let (o, d) := d.next
    let (os, d) := d.perform acts
    (o :: os, d)

theorem drain_accounted (h : Accounted os used d.discard) :
    Accounted os (used ++ d.buffer.take d.discard) d.drain.discard := by
  refine h.drop ?_
  rw [List.length_take]
  change _ + (d.discard - d.buffer.length) = d.discard
  omega

theorem next_accounted (h : Accounted os used d.discard) (hnext : d.next = (o, d')) :
    ∃ taken, d.buffer = taken ++ d'.buffer ∧
      Accounted (os ++ [o].filter (· ≠ .needMore)) (used ++ taken) d'.discard := by
  have drained := drain_accounted h
  have hbuffer : d.buffer = d.buffer.take d.discard ++ d.drain.buffer := (List.take_append_drop _ _).symm
  by_cases ho : o = .needMore
  · subst ho
    obtain rfl := next_needMore hnext
    exact ⟨_, hbuffer, by simpa using drained⟩
  · obtain ⟨buffer, hdrain, hframe⟩ := next_outcome hnext ho
    obtain ⟨segment, rfl, takes⟩ := takes_of_yields (yields_of_nextFrame hframe ho)
    rw [hdrain] at drained hbuffer
    refine ⟨d.buffer.take d.discard ++ segment, by rw [List.append_assoc, ← hbuffer], ?_⟩
    rw [← List.append_assoc, List.filter_cons_of_pos (by simpa using ho)]
    exact drained.snoc takes

theorem perform_accounted (acts : List Act) (h : Accounted os used d.discard) :
    ∃ used', used ++ d.buffer ++ acts.flatMap Act.fed = used' ++ (d.perform acts).2.buffer ∧
      Accounted (os ++ (d.perform acts).1.filter (· ≠ .needMore)) used' (d.perform acts).2.discard := by
  induction acts generalizing d os used with
  | nil => exact ⟨used, by simp [perform], by simpa [perform] using h⟩
  | cons act acts ih =>
    cases act with
    | extend bytes =>
      obtain ⟨used', hused, accounted⟩ := ih (d := d.extend bytes) h
      refine ⟨used', ?_, accounted⟩
      rw [perform, ← hused]
      simp [extend, Act.fed]
    | next =>
      cases hnext : d.next with
      | mk o d' =>
        obtain ⟨taken, hbuffer, now⟩ := next_accounted h hnext
        obtain ⟨used', hused, accounted⟩ := ih now
        rw [perform, hnext]
        dsimp only
        refine ⟨used', ?_, ?_⟩
        · rw [← hused, hbuffer]
          simp [Act.fed]
        · rwa [List.append_assoc, ← List.filter_append] at accounted

theorem needMore_mem_perform {k : Nat} (h : d.buffer.length < 4 * k) :
    .needMore ∈ (d.perform (List.replicate k .next)).1 := by
  induction k generalizing d with
  | zero => omega
  | succ k ih =>
    rw [List.replicate_succ, perform]
    cases hnext : d.next with
    | mk o d' =>
      by_cases ho : o = .needMore
      · exact List.mem_cons.2 (.inl ho.symm)
      · have hlength := next_length hnext ho
        exact List.mem_cons_of_mem _ (ih (by omega))

/-- After any acts, a decoder comes to need more bytes within one call for every four bytes that it holds and one
more, so to drain it comes to an end. And the bytes that it was given are in its outcomes, in order, and behind
them in its buffer. -/
theorem every_byte_accounted (acts : List Act) :
    .needMore ∈ ((empty.perform acts).2.perform
      (List.replicate ((empty.perform acts).2.buffer.length / 4 + 1) .next)).1 ∧
    (∀ bytes, Drains ((empty.perform acts).2.extend bytes) ((empty.perform acts).2.feed bytes).1
      ((empty.perform acts).2.feed bytes).2) ∧
    ∃ used, acts.flatMap Act.fed = used ++ (empty.perform acts).2.buffer ∧
      Accounted ((empty.perform acts).1.filter (· ≠ .needMore)) used (empty.perform acts).2.discard := by
  refine ⟨needMore_mem_perform (by omega), fun bytes => drains_feed _ bytes, ?_⟩
  obtain ⟨used, hused, accounted⟩ := perform_accounted acts (d := empty) .nil
  exact ⟨used, hused, accounted⟩

end Decoder

end Frame

end BuildServer
