import BuildServer.Proofs.Frame.Accounting

namespace BuildServer

namespace Frame

variable {buffer : Bytes}

def headerBlock (buffer : Bytes) : Bytes :=
  match splitHeader [] buffer with
  | some (header, _) => header ++ emptyLine
  | none => buffer

theorem headerBlock_of_opens {header rest : Bytes} (h : Opens header rest buffer) :
    headerBlock buffer = header ++ emptyLine := by
  rw [headerBlock, splitHeader_eq_some_iff.2 h]

theorem splitHeader_unended (h : ∀ header rest, ¬Opens header rest buffer) : splitHeader [] buffer = none := by
  cases hsplit : splitHeader [] buffer with
  | none => rfl
  | some parts => exact absurd (splitHeader_eq_some_iff.1 hsplit) (h _ _)

theorem headerBlock_unended (h : ∀ header rest, ¬Opens header rest buffer) : headerBlock buffer = buffer := by
  rw [headerBlock, splitHeader_unended h]

theorem not_opens_of_not_mem (h : 0x0D ∉ buffer) (header rest : Bytes) : ¬Opens header rest buffer := by
  rintro ⟨rfl, -⟩
  simp [emptyLine] at h

namespace Decoder

variable {d d' : Decoder} {o : Outcome} {os : List Outcome}

/-- What a decoder holds that needs more bytes: nothing, while a body is dropped; a header block without an end;
or a header block and a part of the body that it declares. -/
inductive Waits : Decoder → Prop
  | dropping {n : Nat} (left : 0 < n) : Waits ⟨[], n⟩
  | unended {buffer : Bytes} (endless : ∀ header rest, ¬Opens header rest buffer) : Waits ⟨buffer, 0⟩
  | incomplete {header part buffer : Bytes} {n : Nat} (opens : Opens header part buffer)
    (declared : Declares header n) (fits : n ≤ maxFrameSize) (short : part.length < n) : Waits ⟨buffer, 0⟩

theorem waits_of_nextFrame (h : nextFrame buffer = (.needMore, d)) : Waits ⟨buffer, 0⟩ := by
  unfold nextFrame at h
  split at h
  · next hsplit =>
    refine .unended fun header rest opens => ?_
    rw [splitHeader_eq_some_iff.2 opens] at hsplit
    cases hsplit
  · next header rest hsplit =>
    split at h
    · cases (Prod.mk.inj h).1
    · next size hsize =>
      split_ifs at h with hmax hmore
      · cases (Prod.mk.inj h).1
      · exact .incomplete (splitHeader_eq_some_iff.1 hsplit) (bodySize_eq_ok_iff.1 hsize).1 (by omega) hmore
      · cases (Prod.mk.inj h).1

theorem waits_of_needMore (h : d.next = (.needMore, d)) : d.Waits := by
  have hdrain := next_needMore h
  obtain ⟨buffer, discard⟩ := d
  rcases Nat.eq_zero_or_pos discard with rfl | hpos
  · rw [next_clean] at h
    exact waits_of_nextFrame h
  · -- Draining has left as many bytes to drop as before, so there was none to drop.
    have hleft : discard = discard - buffer.length := congrArg Decoder.discard hdrain
    obtain rfl : buffer = [] := List.eq_nil_of_length_eq_zero (by omega)
    exact .dropping hpos

theorem Waits.length_lt (h : d.Waits) : d.buffer.length < (headerBlock d.buffer).length + maxFrameSize := by
  have hmax : 0 < maxFrameSize := by decide
  cases h with
  | dropping left => exact Nat.lt_add_left _ hmax
  | unended endless =>
    rw [headerBlock_unended endless]
    exact Nat.lt_add_of_pos_right hmax
  | incomplete opens declared fits short =>
    have hlength := congrArg List.length opens.1
    rw [List.length_append] at hlength
    rw [headerBlock_of_opens opens]
    dsimp only
    omega

theorem next_suffix (h : d.next = (o, d')) : d'.buffer <:+ d.buffer := by
  have hdrain : d.drain.buffer <:+ d.buffer := List.drop_suffix _ _
  by_cases ho : o = .needMore
  · subst ho
    rw [next_needMore h]
    exact hdrain
  · obtain ⟨buffer, hd, hframe⟩ := next_outcome h ho
    obtain ⟨segment, hbuffer, -⟩ := takes_of_yields (yields_of_nextFrame hframe ho)
    rw [hd] at hdrain
    exact .trans ⟨segment, hbuffer.symm⟩ hdrain

theorem Drains.suffix (h : Drains d os d') : d'.buffer <:+ d.buffer := by
  induction h with
  | stop h => exact next_suffix h
  | go h _ _ ih => exact ih.trans (next_suffix h)

theorem drains_chunks (chunks : List Bytes) :
    Drains (empty.extend chunks.flatten) (feedAll .empty chunks).1 (feedAll .empty chunks).2 :=
  (reads_feedAll .empty chunks).whole rfl

/-- In whatever chunks a stream comes, a drained decoder holds the end of the stream and no more of it than the
beginning of one frame. So but for the header block, which is not bounded, it holds less than the largest body. -/
theorem drained_holds_one_frame (chunks : List Bytes) :
    (feedAll .empty chunks).2.buffer <:+ chunks.flatten ∧ (feedAll .empty chunks).2.Waits ∧
      (feedAll .empty chunks).2.buffer.length <
        (headerBlock (feedAll .empty chunks).2.buffer).length + maxFrameSize := by
  have drains := drains_chunks chunks
  have waits := waits_of_needMore drains.stops
  exact ⟨drains.suffix, waits, waits.length_lt⟩

theorem endless_header_held :
    ¬∃ bound, ∀ chunks : List Bytes, (∀ chunk ∈ chunks, chunk.length ≤ 65536) →
      (feedAll .empty chunks).2.buffer.length ≤ bound := by
  rintro ⟨bound, h⟩
  have endless : ∀ header rest, ¬Opens header rest (List.replicate (bound + 1) 0x78) :=
    not_opens_of_not_mem (by simp)
  have stays : next ⟨List.replicate (bound + 1) 0x78, 0⟩ = (.needMore, ⟨List.replicate (bound + 1) 0x78, 0⟩) := by
    rw [next_clean, nextFrame, splitHeader_unended endless]
  have drains := drains_chunks (List.replicate (bound + 1) [0x78])
  have hflatten : (List.replicate (bound + 1) [(0x78 : UInt8)]).flatten = List.replicate (bound + 1) 0x78 := by
    simp
  rw [hflatten] at drains
  have hheld := (drains.unique (.stop stays)).2
  have hle := h (List.replicate (bound + 1) [0x78]) fun chunk hchunk => by
    rw [List.eq_of_mem_replicate hchunk]
    decide
  rw [hheld, List.length_replicate] at hle
  omega

end Decoder

end Frame

end BuildServer
