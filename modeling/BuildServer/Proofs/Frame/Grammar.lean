import BuildServer.Proofs.Frame.Header

namespace BuildServer

namespace Frame

open Utf8 (encodeChars)

variable {buffer header body rest : Bytes} {n : Nat}

/-- What a buffer yields: a body of the declared size, or a header block that is no text, gives no size
below `2 ^ 64`, or declares too large a body, which is then to be dropped. -/
inductive Yields (buffer : Bytes) : Outcome → Decoder → Prop
  | body {header body rest : Bytes} (opens : Opens header (body ++ rest) buffer)
    (declared : Declares header body.length) (fits : body.length ≤ maxFrameSize) :
    Yields buffer (.body body) ⟨rest, 0⟩
  | noText {header rest : Bytes} (opens : Opens header rest buffer) (bad : ∀ cs, header ≠ encodeChars cs) :
    Yields buffer (.invalid ⟨.header, header ++ emptyLine⟩) ⟨rest, 0⟩
  | noSize {header rest : Bytes} {cs : List Char} (opens : Opens header rest buffer)
    (text : header = encodeChars cs) (undeclared : ∀ n < Nat.pow 2 64, ¬Declares header n) :
    Yields buffer (.invalid ⟨.contentLength, header ++ emptyLine⟩) ⟨rest, 0⟩
  | tooLarge {header rest : Bytes} {n : Nat} (opens : Opens header rest buffer) (declared : Declares header n)
    (bounded : n < Nat.pow 2 64) (large : maxFrameSize < n) :
    Yields buffer (.invalid ⟨.tooLarge n, header ++ emptyLine⟩) ⟨rest, n⟩

namespace Decoder

variable {o : Outcome} {d : Decoder}

theorem nextFrame_body (opens : Opens header (body ++ rest) buffer) (hsize : bodySize header = .ok body.length)
    (fits : body.length ≤ maxFrameSize) : nextFrame buffer = (.body body, ⟨rest, 0⟩) := by
  rw [nextFrame, splitHeader_eq_some_iff.2 opens]
  dsimp only
  rw [hsize]
  dsimp only
  rw [if_neg (by omega), if_neg (by rw [List.length_append]; omega)]
  simp

theorem nextFrame_oversized (opens : Opens header rest buffer) (hsize : bodySize header = .ok n)
    (large : maxFrameSize < n) :
    nextFrame buffer = (.invalid ⟨.tooLarge n, header ++ emptyLine⟩, ⟨rest, n⟩) := by
  rw [nextFrame, splitHeader_eq_some_iff.2 opens]
  dsimp only
  rw [hsize]
  dsimp only
  rw [if_pos large]

theorem nextFrame_unusable {reason : InvalidReason} (opens : Opens header rest buffer)
    (hsize : bodySize header = .error reason) :
    nextFrame buffer = (.invalid ⟨reason, header ++ emptyLine⟩, ⟨rest, 0⟩) := by
  rw [nextFrame, splitHeader_eq_some_iff.2 opens]
  dsimp only
  rw [hsize]

theorem yields_of_nextFrame (h : nextFrame buffer = (o, d)) (ho : o ≠ .needMore) : Yields buffer o d := by
  unfold nextFrame at h
  split at h
  · exact absurd (Prod.mk.inj h).1.symm ho
  · next header rest hsplit =>
    have opens := splitHeader_eq_some_iff.1 hsplit
    split at h
    · next reason hsize =>
      obtain ⟨rfl, rfl⟩ := Prod.mk.inj h
      obtain ⟨rfl, bad⟩ | ⟨rfl, cs, htext⟩ := bodySize_error hsize
      · exact .noText opens bad
      · refine .noSize opens htext fun n hlt declared => ?_
        rw [bodySize_eq_ok_iff.2 ⟨declared, hlt⟩] at hsize
        cases hsize
    · next size hsize =>
      obtain ⟨declared, hlt⟩ := bodySize_eq_ok_iff.1 hsize
      split_ifs at h with hmax hmore
      · obtain ⟨rfl, rfl⟩ := Prod.mk.inj h
        exact .tooLarge opens declared hlt hmax
      · exact absurd (Prod.mk.inj h).1.symm ho
      · obtain ⟨rfl, rfl⟩ := Prod.mk.inj h
        have hlength : (rest.take size).length = size := by
          rw [List.length_take]
          omega
        exact .body (by rwa [List.take_append_drop]) (hlength.symm ▸ declared) (by omega)

theorem nextFrame_of_yields (h : Yields buffer o d) : nextFrame buffer = (o, d) := by
  cases h with
  | @body header body rest opens declared fits =>
    have hlt : body.length < Nat.pow 2 64 := Nat.lt_of_le_of_lt fits (by decide)
    exact nextFrame_body opens (bodySize_eq_ok_iff.2 ⟨declared, hlt⟩) fits
  | noText opens bad => exact nextFrame_unusable opens (bodySize_eq_header bad)
  | noSize opens htext undeclared => exact nextFrame_unusable opens (bodySize_eq_contentLength htext undeclared)
  | tooLarge opens declared hlt large =>
    exact nextFrame_oversized opens (bodySize_eq_ok_iff.2 ⟨declared, hlt⟩) large

theorem not_yields_needMore : ¬Yields buffer .needMore d := nofun

/-- With nothing left to drop, a decoder gives out what its buffer yields. If the buffer yields nothing, it
needs more bytes and stays as it is. -/
theorem next_iff_yields (buffer : Bytes) (o : Outcome) (d : Decoder) :
    next ⟨buffer, 0⟩ = (o, d) ↔
      Yields buffer o d ∨ (∀ o' d', ¬Yields buffer o' d') ∧ o = .needMore ∧ d = ⟨buffer, 0⟩ := by
  rw [next_clean]
  constructor
  · intro h
    by_cases ho : o = .needMore
    · subst ho
      refine .inr ⟨fun o' d' yields => ?_, rfl, nextFrame_needMore h⟩
      rw [nextFrame_of_yields yields] at h
      obtain ⟨rfl, -⟩ := Prod.mk.inj h
      exact not_yields_needMore yields
    · exact .inl (yields_of_nextFrame h ho)
  · rintro (yields | ⟨nothing, rfl, rfl⟩)
    · exact nextFrame_of_yields yields
    · cases hframe : nextFrame buffer with
      | mk o d =>
        by_cases ho : o = .needMore
        · subst ho
          rw [nextFrame_needMore hframe]
        · exact absurd (yields_of_nextFrame hframe ho) (nothing o d)

example : next ⟨Utf8.encode "Type: 1\r\n content-LENGTH :\t+02 \r\n\r\nab!", 0⟩ =
    (.body (Utf8.encode "ab"), ⟨Utf8.encode "!", 0⟩) := by decide +kernel

end Decoder

end Frame

end BuildServer
