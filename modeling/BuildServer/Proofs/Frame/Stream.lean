import BuildServer.Proofs.Frame.Grammar
import BuildServer.Proofs.Message.Envelope

/-!
A stream of frames, good and bad. Each item, whatever is wrong with it, takes up its own bytes only, so
the messages among the items are delivered and nothing of the stream is left over.
-/

namespace BuildServer

namespace Frame

open Utf8 (encodeChars utf8EncodeChar_ascii)
open Json (digits_toDigits toNat_digit toList_toString)

section Header

def sizeHeader (n : Nat) : List Char := "Content-Length: ".toList ++ Nat.toDigits 10 n

theorem wrap_eq (body : Bytes) :
    wrap body = encodeChars (sizeHeader body.length) ++ emptyLine ++ body := by
  have h : ("Content-Length: " ++ toString body.length).toList = sizeHeader body.length := by
    rw [String.toList_append, toList_toString]
    exact rfl
  rw [wrap, Utf8.encode, h]

theorem sizeHeader_ascii {n : Nat} {c : Char} (h : c ∈ sizeHeader n) : c.toNat < 0x80 ∧ c ≠ '\r' := by
  have hname : "Content-Length: ".toList.all (fun c => c.toNat < 0x80 && c != '\r') = true := by decide
  rcases List.mem_append.1 h with h | h
  · simpa using List.all_eq_true.1 hname c h
  · obtain ⟨hl, hu⟩ := toNat_digit ((digits_toDigits n).2 c h)
    refine ⟨by omega, ?_⟩
    rintro rfl
    exact absurd hl (by decide)

theorem ne_return_of_mem_sizeHeader {n : Nat} {b : UInt8} (h : b ∈ encodeChars (sizeHeader n)) :
    b ≠ 0x0D := by
  obtain ⟨c, hc, hb⟩ := List.mem_flatMap.1 h
  obtain ⟨hascii, hne⟩ := sizeHeader_ascii hc
  rw [utf8EncodeChar_ascii hascii, List.mem_singleton] at hb
  intro hcr
  have hnat : c.toNat = 0x0D := by
    have h := congrArg UInt8.toNat (hb.symm.trans hcr)
    rw [UInt8.toNat_ofNat', Nat.mod_eq_of_lt (by omega)] at h
    exact h
  exact hne (Char.toNat_inj.mp hnat)

theorem declares_sizeHeader (n : Nat) : Declares (encodeChars (sizeHeader n)) n := by
  have unbroken := not_break_of_not_mem fun h => (sizeHeader_ascii (n := n) h).2 rfl
  have named : SizeLine (sizeHeader n) (' ' :: Nat.toDigits 10 n) :=
    ⟨"Content-Length".toList, "Content-Length".toList, rfl, by decide, ⟨[], [], by simp⟩, by decide⟩
  have denotes : Denotes (' ' :: Nat.toDigits 10 n) n :=
    ⟨[], Nat.toDigits 10 n, ⟨[' '], [], by simp [isBlank]⟩, .inl rfl, digits_toDigits n,
      Nat.ofDigitChars_ten_toDigits⟩
  exact ⟨sizeHeader n, _, rfl, ⟨[], _, [], .last unbroken, by simp, named⟩, denotes⟩

theorem bodySize_sizeHeader {n : Nat} (h : n < Nat.pow 2 64) :
    bodySize (encodeChars (sizeHeader n)) = .ok n :=
  bodySize_eq_ok_iff.2 ⟨declares_sizeHeader n, h⟩

end Header

def Block (header : Bytes) : Prop := splitHeader [] (header ++ emptyLine) = some (header, [])

instance (header : Bytes) : Decidable (Block header) :=
  inferInstanceAs (Decidable (splitHeader [] (header ++ emptyLine) = some (header, [])))

theorem Block.opens {header : Bytes} (h : Block header) (rest : Bytes) :
    Opens header rest (header ++ emptyLine ++ rest) :=
  splitHeader_eq_some_iff.1 (splitHeader_append h rest)

theorem Block.opens_body {header : Bytes} (h : Block header) {body : Bytes} (rest : Bytes) :
    Opens header (body ++ rest) (header ++ emptyLine ++ body ++ rest) := by
  rw [List.append_assoc _ body]
  exact h.opens _

theorem block_sizeHeader (n : Nat) : Block (encodeChars (sizeHeader n)) := by
  have opens := opens_of_not_mem (fun h => ne_return_of_mem_sizeHeader (n := n) h rfl) []
  rw [List.append_nil] at opens
  exact splitHeader_eq_some_iff.2 opens

/-- A part of a stream: a message; a frame whose body is none; a frame that is too large; or a header
block that gives no size. -/
inductive Item where
  | message (j : Json)
  | rejected (header body : Bytes)
  | oversized (header body : Bytes)
  | unusable (header : Bytes)

namespace Item

def bytes : Item → Bytes
  | message j => encode j
  | rejected header body => header ++ emptyLine ++ body
  | oversized header body => header ++ emptyLine ++ body
  | unusable header => header ++ emptyLine

def Proper : Item → Prop
  | message j => (∃ m, Incoming.parse j.bytes = .ok m) ∧ j.bytes.length ≤ maxFrameSize
  | rejected header body => Block header ∧ bodySize header = .ok body.length ∧
      body.length ≤ maxFrameSize ∧ ∃ e, Incoming.parse body = .error e
  | oversized header body => Block header ∧ bodySize header = .ok body.length ∧
      maxFrameSize < body.length
  | unusable header => Block header ∧ ∃ reason, bodySize header = .error reason

def delivered? : Item → Option Incoming
  | message j => j.envelope?.map fun e => ⟨e.1, e.2, j.bytes⟩
  | _ => none

end Item

namespace Decoder

theorem drain_clean (rest : Bytes) : drain ⟨rest, 0⟩ = ⟨rest, 0⟩ := by
  simp [drain]

theorem next_item {item : Item} (h : item.Proper) (rest : Bytes) :
    ∃ o d, next ⟨item.bytes ++ rest, 0⟩ = (o, d) ∧ o ≠ .needMore ∧ d.drain = ⟨rest, 0⟩ ∧
      Incoming.ofOutcome? o = item.delivered? := by
  rw [next_clean]
  cases item with
  | message j =>
    obtain ⟨⟨m, hm⟩, hmax⟩ := h
    obtain ⟨henvelope, hbody⟩ := Incoming.envelope?_of_parse hm
    have hsize : bodySize (encodeChars (sizeHeader j.bytes.length)) = .ok j.bytes.length :=
      bodySize_sizeHeader (Nat.lt_of_le_of_lt hmax (by decide))
    have hnext := nextFrame_body ((block_sizeHeader _).opens_body rest) hsize hmax
    rw [← wrap_eq] at hnext
    refine ⟨_, _, hnext, by simp, drain_clean rest, ?_⟩
    rw [Incoming.ofOutcome?, hm, Item.delivered?, henvelope, ← hbody]
    rfl
  | rejected header body =>
    obtain ⟨hblock, hsize, hmax, e, he⟩ := h
    refine ⟨_, _, nextFrame_body (hblock.opens_body rest) hsize hmax, by simp, drain_clean rest, ?_⟩
    rw [Incoming.ofOutcome?, he]
    rfl
  | oversized header body =>
    obtain ⟨hblock, hsize, hmax⟩ := h
    refine ⟨_, _, nextFrame_oversized (hblock.opens_body rest) hsize hmax, by simp, ?_, rfl⟩
    simp [drain]
  | unusable header =>
    obtain ⟨hblock, reason, hsize⟩ := h
    exact ⟨_, _, nextFrame_unusable (hblock.opens rest) hsize, by simp, drain_clean rest, rfl⟩

theorem Drains.of_drain {d d' : Decoder} {os : List Outcome} (h : Drains d.drain os d') :
    Drains d os d' := by
  cases h with
  | stop h => exact .stop (by rwa [next_drain] at h)
  | go h ho rest => exact .go (by rwa [next_drain] at h) ho rest

theorem drains_items {items : List Item} (h : ∀ i ∈ items, i.Proper) :
    ∃ os, Drains ⟨items.flatMap Item.bytes, 0⟩ os .empty ∧
      os.filterMap Incoming.ofOutcome? = items.filterMap Item.delivered? := by
  induction items with
  | nil => exact ⟨[], .stop rfl, rfl⟩
  | cons item items ih =>
    obtain ⟨os, hdrains, hos⟩ := ih fun i hi => h i (List.mem_cons_of_mem _ hi)
    obtain ⟨o, d, hnext, ho, hd, hout⟩ := next_item (h item List.mem_cons_self)
      (items.flatMap Item.bytes)
    refine ⟨o :: os, .go hnext ho (.of_drain (hd ▸ hdrains)), ?_⟩
    rw [List.filterMap_cons, List.filterMap_cons, hout, hos]

end Decoder

/-- Whatever stands between them and however the stream is cut into chunks, the messages of a stream are
delivered in order, each with the method, the identifier and the text of its value, and all else is gone. -/
theorem feedAll_items {items : List Item} {chunks : List Bytes} (proper : ∀ i ∈ items, i.Proper)
    (stream : chunks.flatten = items.flatMap Item.bytes) :
    Incoming.feedAll .empty chunks = (items.filterMap Item.delivered?, .empty) := by
  obtain ⟨os, hdrains, hos⟩ := Decoder.drains_items proper
  have hreads := (Decoder.reads_feedAll .empty chunks).whole rfl
  rw [stream] at hreads
  obtain ⟨hfed, hd⟩ := hreads.unique hdrains
  rw [Incoming.feedAll_eq, hfed, hd, hos]

def mixedItems : List Item :=
  [.unusable [0x58], .rejected (encodeChars (sizeHeader 2)) [0x7B, 0x7D],
    .oversized (encodeChars (sizeHeader (maxFrameSize + 1))) (List.replicate (maxFrameSize + 1) 0x0D),
    .message (.obj [("method", .str "exit"), ("id", .int 7)])]

theorem feedAll_mixedItems :
    (∀ i ∈ mixedItems, i.Proper) ∧
    Incoming.feedAll .empty
        [(mixedItems.flatMap Item.bytes).take 3, (mixedItems.flatMap Item.bytes).drop 3] =
      (mixedItems.filterMap Item.delivered?, .empty) ∧
    mixedItems.filterMap Item.delivered? =
      [⟨"exit", some (.int 7), (Json.obj [("method", .str "exit"), ("id", .int 7)]).bytes⟩] := by
  have proper : ∀ i ∈ mixedItems, i.Proper := by
    have large := List.length_replicate (n := maxFrameSize + 1) (a := (0x0D : UInt8))
    simp only [mixedItems, List.forall_mem_cons, List.not_mem_nil, false_implies, implies_true,
      and_true]
    refine ⟨?_, ?_, ?_, ?_⟩
    · exact ⟨by decide, _, rfl⟩
    · exact ⟨block_sizeHeader _, bodySize_sizeHeader (by decide), by decide, _, rfl⟩
    · refine ⟨block_sizeHeader _, ?_, ?_⟩
      · rw [large]
        exact bodySize_sizeHeader (by decide)
      · rw [large]
        exact Nat.lt_succ_self _
    · exact ⟨⟨_, rfl⟩, by decide⟩
  refine ⟨proper, feedAll_items proper ?_, rfl⟩
  simp

end Frame

end BuildServer
