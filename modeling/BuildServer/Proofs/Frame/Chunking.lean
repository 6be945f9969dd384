import Mathlib.Tactic.SplitIfs
import BuildServer.Message.Stream

namespace BuildServer

namespace Frame

variable {buffer header rest seen bytes : Bytes}

theorem splitHeader_length (h : splitHeader seen buffer = some (header, rest)) :
    seen.length ≤ header.length ∧ header.length + 4 + rest.length = seen.length + buffer.length := by
  fun_induction splitHeader seen buffer with
  | case1 => cases h
  | case2 seen rest' =>
    obtain ⟨rfl, rfl⟩ := Prod.mk.inj (Option.some.inj h)
    simp only [List.length_reverse, List.length_cons]
    omega
  | case3 seen b tail _ ih =>
    have hlength := ih h
    simp only [List.length_cons] at hlength ⊢
    omega

theorem splitHeader_append (h : splitHeader seen buffer = some (header, rest)) (bytes : Bytes) :
    splitHeader seen (buffer ++ bytes) = some (header, rest ++ bytes) := by
  fun_induction splitHeader seen buffer with
  | case1 => cases h
  | case2 seen rest' =>
    obtain ⟨rfl, rfl⟩ := Prod.mk.inj (Option.some.inj h)
    rfl
  | case3 seen b tail hne ih =>
    rw [List.cons_append, splitHeader, ih h]
    -- The tail holds a whole empty line, so none begins at `b` and ends in the new bytes.
    intro rest' hb hr
    have hlength := splitHeader_length h
    rw [List.length_cons] at hlength
    rcases tail with _ | ⟨b₁, _ | ⟨b₂, _ | ⟨b₃, tail⟩⟩⟩
    any_goals
      simp only [List.length_cons, List.length_nil] at hlength
      omega
    simp only [List.cons_append, List.cons.injEq] at hr
    obtain ⟨rfl, rfl, rfl, -⟩ := hr
    exact hne tail hb rfl

namespace Decoder

variable {d d' d'' : Decoder} {o : Outcome} {os os' : List Outcome} {chunks : List Bytes}

@[simp] theorem extend_nil (d : Decoder) : d.extend [] = d := by
  rw [extend, List.append_nil]

@[simp] theorem extend_append (d : Decoder) (x y : Bytes) :
    (d.extend x).extend y = d.extend (x ++ y) := by
  rw [extend, extend, extend, List.append_assoc]

theorem drain_extend (d : Decoder) (bytes : Bytes) :
    (d.extend bytes).drain = (d.drain.extend bytes).drain := by
  simp only [drain, extend, List.length_append, List.length_drop, mk.injEq]
  constructor
  · rcases Nat.le_total d.discard d.buffer.length with hle | hle
    · simp [List.drop_append, Nat.sub_eq_zero_of_le hle]
    · simp [List.drop_append, List.drop_eq_nil_of_le hle]
  · omega

theorem drain_drain (d : Decoder) : d.drain.drain = d.drain := by
  simpa using (d.drain_extend []).symm

theorem next_drain (d : Decoder) : d.drain.next = d.next := by
  rw [next, next, drain_drain]

theorem nextFrame_needMore (h : nextFrame buffer = (.needMore, d)) : d = ⟨buffer, 0⟩ := by
  revert h
  fun_cases nextFrame buffer <;> simp_all [eq_comm]

theorem next_needMore (h : d.next = (.needMore, d')) : d' = d.drain := by
  rw [next] at h
  split at h
  · exact (Prod.mk.inj h).2.symm
  · rename_i hd
    rw [nextFrame_needMore h, ← Nat.eq_zero_of_not_pos hd]

theorem nextFrame_append (h : nextFrame buffer = (o, d)) (ho : o ≠ .needMore) (bytes : Bytes) :
    nextFrame (buffer ++ bytes) = (o, d.extend bytes) := by
  unfold nextFrame at h ⊢
  split at h
  · exact absurd (Prod.mk.inj h).1.symm ho
  · rename_i header rest hs
    rw [splitHeader_append hs bytes]
    dsimp only
    split at h
    · obtain ⟨rfl, rfl⟩ := Prod.mk.inj h
      rfl
    · rename_i size hsize
      split_ifs at h with hmax hlt
      · obtain ⟨rfl, rfl⟩ := Prod.mk.inj h
        rw [if_pos hmax]
        rfl
      · exact absurd (Prod.mk.inj h).1.symm ho
      · have hle := Nat.le_of_not_lt hlt
        obtain ⟨rfl, rfl⟩ := Prod.mk.inj h
        rw [if_neg hmax, if_neg (by rw [List.length_append]; omega),
          List.take_append_of_le_length hle, List.drop_append_of_le_length hle]
        rfl

theorem nextFrame_length (h : nextFrame buffer = (o, d)) (ho : o ≠ .needMore) :
    d.buffer.length + 4 ≤ buffer.length := by
  unfold nextFrame at h
  split at h
  · exact absurd (Prod.mk.inj h).1.symm ho
  · rename_i header rest hs
    have hlength := (splitHeader_length hs).2
    rw [List.length_nil] at hlength
    split at h
    · obtain ⟨rfl, rfl⟩ := Prod.mk.inj h
      dsimp only
      omega
    · split_ifs at h with hmax hlt
      · obtain ⟨rfl, rfl⟩ := Prod.mk.inj h
        dsimp only
        omega
      · exact absurd (Prod.mk.inj h).1.symm ho
      · obtain ⟨rfl, rfl⟩ := Prod.mk.inj h
        rw [List.length_drop]
        omega

@[simp] theorem next_clean (buffer : Bytes) : next ⟨buffer, 0⟩ = nextFrame buffer := by
  simp [next, drain]

theorem next_outcome (h : d.next = (o, d')) (ho : o ≠ .needMore) :
    ∃ buffer, d.drain = ⟨buffer, 0⟩ ∧ nextFrame buffer = (o, d') := by
  rw [next] at h
  split at h
  · exact absurd (Prod.mk.inj h).1.symm ho
  · rename_i hd
    exact ⟨d.drain.buffer, by rw [← Nat.eq_zero_of_not_pos hd], h⟩

theorem next_extend (h : d.next = (o, d')) (ho : o ≠ .needMore) (bytes : Bytes) :
    (d.extend bytes).next = (o, d'.extend bytes) := by
  obtain ⟨buffer, hd, hn⟩ := next_outcome h ho
  rw [← next_drain, drain_extend, next_drain, hd]
  exact (next_clean _).trans (nextFrame_append hn ho bytes)

theorem next_length (h : d.next = (o, d')) (ho : o ≠ .needMore) :
    d'.buffer.length + 4 ≤ d.buffer.length := by
  obtain ⟨buffer, hd, hn⟩ := next_outcome h ho
  have hlength := nextFrame_length hn ho
  have hdrain : buffer.length ≤ d.buffer.length := by
    have hb : d.buffer.drop d.discard = buffer := (mk.inj hd).1
    rw [← hb, List.length_drop]
    omega
  omega

inductive Drains : Decoder → List Outcome → Decoder → Prop
  | stop {d d' : Decoder} (h : d.next = (.needMore, d')) : Drains d [] d'
  | go {d d' d'' : Decoder} {o : Outcome} {os : List Outcome} (h : d.next = (o, d'))
    (ho : o ≠ .needMore) (rest : Drains d' os d'') : Drains d (o :: os) d''

/-- Chunks come one after another, and the decoder is drained after each. -/
inductive Reads : Decoder → List Bytes → List Outcome → Decoder → Prop
  | nil {d : Decoder} : Reads d [] [] d
  | cons {d d' d'' : Decoder} {chunk : Bytes} {chunks : List Bytes} {os os' : List Outcome}
    (h : Drains (d.extend chunk) os d') (rest : Reads d' chunks os' d'') :
    Reads d (chunk :: chunks) (os ++ os') d''

theorem Drains.unique {e : Decoder} (h : Drains d os d') (h' : Drains d os' e) : os = os' ∧ d' = e := by
  induction h generalizing os' with
  | stop h =>
    cases h' with
    | stop h₁ => exact ⟨rfl, (Prod.mk.inj (h.symm.trans h₁)).2⟩
    | go h₁ ho => exact absurd (Prod.mk.inj (h.symm.trans h₁)).1.symm ho
  | go h ho _ ih =>
    cases h' with
    | stop h₁ => exact absurd (Prod.mk.inj (h.symm.trans h₁)).1 ho
    | go h₁ _ rest =>
      obtain ⟨rfl, rfl⟩ := Prod.mk.inj (h.symm.trans h₁)
      obtain ⟨rfl, rfl⟩ := ih rest
      exact ⟨rfl, rfl⟩

theorem Drains.stops (h : Drains d os d') : d'.next = (.needMore, d') := by
  induction h with
  | stop h =>
    obtain rfl := next_needMore h
    rw [next_drain, h]
  | go _ _ _ ih => exact ih

theorem Drains.append {bytes : Bytes} (h : Drains d os d') (h' : Drains (d'.extend bytes) os' d'') :
    Drains (d.extend bytes) (os ++ os') d'' := by
  induction h with
  | @stop d d' h =>
    obtain rfl := next_needMore h
    have hnext : (d.drain.extend bytes).next = (d.extend bytes).next := by
      rw [← next_drain (d.extend bytes), drain_extend, next_drain]
    cases h' with
    | stop h' => exact .stop (hnext ▸ h')
    | go h' ho rest => exact .go (hnext ▸ h') ho rest
  | go h ho _ ih => exact .go (next_extend h ho bytes) ho (ih h')

theorem drains_drainAll (fuel : Nat) (h : d.buffer.length < 4 * fuel) :
    Drains d (d.drainAll fuel).1 (d.drainAll fuel).2 := by
  induction fuel generalizing d with
  | zero => omega
  | succ fuel ih =>
    rw [drainAll]
    split
    · rename_i d' hn
      exact .stop hn
    · rename_i o d' ho hn
      have hlength := next_length hn ho
      exact .go hn ho (ih (by omega))

theorem drains_feed (d : Decoder) (bytes : Bytes) :
    Drains (d.extend bytes) (d.feed bytes).1 (d.feed bytes).2 :=
  drains_drainAll _ (by omega)

theorem Reads.whole (h : Reads d chunks os d') (hd : d.next = (.needMore, d)) :
    Drains (d.extend chunks.flatten) os d' := by
  induction h with
  | nil => simpa using Drains.stop hd
  | cons h _ ih =>
    have hrest := h.append (ih h.stops)
    rwa [extend_append] at hrest

def feedAll (d : Decoder) : List Bytes → List Outcome × Decoder
  | [] => ([], d)
  | chunk :: chunks =>
    let (os, d) := d.feed chunk
    let (os', d) := d.feedAll chunks
    (os ++ os', d)

theorem reads_feedAll (d : Decoder) (chunks : List Bytes) :
    Reads d chunks (d.feedAll chunks).1 (d.feedAll chunks).2 := by
  induction chunks generalizing d with
  | nil => exact .nil
  | cons chunk chunks ih => exact .cons (drains_feed d chunk) (ih _)

theorem reads_iff (d : Decoder) (hd : d.next = (.needMore, d)) (chunks : List Bytes) :
    Reads d chunks os d' ↔ Drains (d.extend chunks.flatten) os d' := by
  constructor
  · intro h
    exact h.whole hd
  · intro h
    have hreads := reads_feedAll d chunks
    obtain ⟨rfl, rfl⟩ := h.unique (hreads.whole hd)
    exact hreads

end Decoder

end Frame

open Frame (Decoder)

def Incoming.feedAll (d : Decoder) : List Bytes → List Incoming × Decoder
  | [] => ([], d)
  | chunk :: chunks =>
    let (ms, d) := Incoming.feed d chunk
    let (ms', d) := feedAll d chunks
    (ms ++ ms', d)

theorem Incoming.feedAll_eq (d : Decoder) (chunks : List Bytes) :
    Incoming.feedAll d chunks = ((d.feedAll chunks).1.filterMap ofOutcome?, (d.feedAll chunks).2) := by
  induction chunks generalizing d with
  | nil => rfl
  | cons chunk chunks ih => simp only [feedAll, feed, Decoder.feedAll, ih, List.filterMap_append]

namespace Frame

/-- However a stream is cut into chunks, it is read with the same outcomes and to the same state, and the
messages in it are the same. -/
theorem reads_chunking {chunks chunks' : List Bytes} (same : chunks.flatten = chunks'.flatten) :
    ∃ os d, (∀ os' d', Decoder.Reads .empty chunks os' d' ↔ os' = os ∧ d' = d) ∧
      (∀ os' d', Decoder.Reads .empty chunks' os' d' ↔ os' = os ∧ d' = d) ∧
      Incoming.feedAll .empty chunks = (os.filterMap Incoming.ofOutcome?, d) ∧
      Incoming.feedAll .empty chunks' = (os.filterMap Incoming.ofOutcome?, d) := by
  have whole (cs : List Bytes) (os : List Outcome) (d : Decoder) :
      Decoder.Reads .empty cs os d ↔ Decoder.Drains (Decoder.empty.extend cs.flatten) os d :=
    Decoder.reads_iff .empty rfl cs
  have drained := (whole chunks _ _).1 (Decoder.reads_feedAll .empty chunks)
  have drained' := (whole chunks' _ _).1 (Decoder.reads_feedAll .empty chunks')
  rw [← same] at drained'
  obtain ⟨hos, hd⟩ := drained'.unique drained
  have only (os' : List Outcome) (d' : Decoder) :
      Decoder.Drains (Decoder.empty.extend chunks.flatten) os' d' ↔
        os' = (Decoder.feedAll .empty chunks).1 ∧ d' = (Decoder.feedAll .empty chunks).2 := by
    constructor
    · intro h
      exact h.unique drained
    · rintro ⟨rfl, rfl⟩
      exact drained
  refine ⟨_, _, fun os' d' => ?_, fun os' d' => ?_, Incoming.feedAll_eq .empty chunks, ?_⟩
  · rw [whole, only]
  · rw [whole, ← same, only]
  · rw [Incoming.feedAll_eq, hos, hd]

theorem reads_byte_by_byte :
    Decoder.Reads .empty ((wrap [0x7B, 0x7D]).map fun b => [b]) [.body [0x7B, 0x7D]] .empty := by
  have same : ((wrap [0x7B, 0x7D]).map fun b => [b]).flatten = [wrap [0x7B, 0x7D]].flatten := by
    decide +kernel
  obtain ⟨os, d, bytewise, at_once, -⟩ := reads_chunking same
  have fed : Decoder.feedAll .empty [wrap [0x7B, 0x7D]] = ([.body [0x7B, 0x7D]], .empty) := by
    decide +kernel
  have whole := Decoder.reads_feedAll .empty [wrap [0x7B, 0x7D]]
  rw [fed] at whole
  exact (bytewise _ _).2 ((at_once _ _).1 whole)

end Frame

end BuildServer
