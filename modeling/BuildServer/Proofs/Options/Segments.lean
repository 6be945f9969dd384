import BuildServer.Proofs.Options.Sanitizing

namespace BuildServer.Arguments

variable {present : String → Bool} {a path value : String}

def flags : List String := sdk :: unusable

theorem ne_of_not_mem_flags (h : a ∉ flags) :
    a ≠ sdk ∧ a ≠ parseableOutput ∧ a ≠ localizedStrings ∧ a ≠ localizedStringsPath := by
  simpa [flags, unusable] using h

theorem sanitize_plain (h : a ∉ flags) (rest : List String) :
    sanitize present (a :: rest) = a :: sanitize present rest := by
  obtain ⟨hsdk, houtput, hstrings, hpath⟩ := ne_of_not_mem_flags h
  simp [sanitize, houtput, dropLocalized_kept hpath hstrings, dropMissingSdk_kept hsdk]

theorem sanitize_parseableOutput (rest : List String) :
    sanitize present (parseableOutput :: rest) = sanitize present rest := by
  simp [sanitize]

theorem sanitize_localizedStrings (rest : List String) :
    sanitize present (localizedStrings :: rest) = sanitize present rest := by
  have hne : localizedStrings ≠ parseableOutput := by decide
  simp [sanitize, hne, dropLocalized_strings]

theorem sanitize_localizedStringsPath (h : value ≠ parseableOutput) (rest : List String) :
    sanitize present (localizedStringsPath :: value :: rest) = sanitize present rest := by
  have hne : localizedStringsPath ≠ parseableOutput := by decide
  simp [sanitize, hne, h, dropLocalized_path]

theorem sanitize_sdk (h : path ∉ flags) (rest : List String) :
    sanitize present (sdk :: path :: rest) =
      if present path then sdk :: path :: sanitize present rest else sanitize present rest := by
  obtain ⟨hsdk, houtput, hstrings, hpath⟩ := ne_of_not_mem_flags h
  have hflag : sdk ≠ parseableOutput ∧ sdk ≠ localizedStrings ∧ sdk ≠ localizedStringsPath := by decide
  have hkept : sanitize present (sdk :: path :: rest) =
      dropMissingSdk present (sdk :: path :: dropLocalized (rest.filter (· != parseableOutput))) := by
    simp [sanitize, hflag, houtput, dropLocalized_kept, hstrings, hpath]
  rw [hkept]
  split
  · next hpresent => rw [dropMissingSdk_present hpresent, dropMissingSdk_kept hsdk, sanitize]
  · next hmissing => rw [dropMissingSdk_missing (by simpa using hmissing), sanitize]

/-- A flag that sanitizing knows, with its value, or another argument. -/
inductive Segment
  | plain (a : String) (h : a ∉ flags)
  | parseableOutput
  | localizedStrings
  | localizedStringsTo (value : String) (h : value ≠ Arguments.parseableOutput)
  | sdkAt (path : String) (h : path ∉ flags)

namespace Segment

def arguments : Segment → List String
  | plain a _ => [a]
  | parseableOutput => [Arguments.parseableOutput]
  | localizedStrings => [Arguments.localizedStrings]
  | localizedStringsTo value _ => [localizedStringsPath, value]
  | sdkAt path _ => [sdk, path]

def kept (present : String → Bool) : Segment → List String
  | plain a _ => [a]
  | sdkAt path _ => if present path then [sdk, path] else []
  | _ => []

theorem sanitize_append (s : Segment) (rest : List String) :
    sanitize present (s.arguments ++ rest) = s.kept present ++ sanitize present rest := by
  cases s with
  | plain a h => exact sanitize_plain h rest
  | parseableOutput => exact sanitize_parseableOutput rest
  | localizedStrings => exact sanitize_localizedStrings rest
  | localizedStringsTo value h => exact sanitize_localizedStringsPath h rest
  | sdkAt path h =>
    change sanitize present (sdk :: path :: rest) = _
    rw [sanitize_sdk h, kept]
    split
    · rfl
    · rfl

end Segment

inductive Ending
  | nothing
  | localizedStringsPath
  | sdk

namespace Ending

def arguments : Ending → List String
  | nothing => []
  | localizedStringsPath => [Arguments.localizedStringsPath]
  | sdk => [Arguments.sdk]

def kept : Ending → List String
  | sdk => [Arguments.sdk]
  | _ => []

theorem sanitize_eq (e : Ending) : sanitize present e.arguments = e.kept := by
  cases e <;> rfl

end Ending

theorem sanitize_segments (present : String → Bool) (segments : List Segment) (ending : Ending) :
    sanitize present (segments.flatMap Segment.arguments ++ ending.arguments) =
      segments.flatMap (Segment.kept present) ++ ending.kept := by
  induction segments with
  | nil => exact ending.sanitize_eq
  | cons s segments ih =>
    rw [List.flatMap_cons, List.flatMap_cons, List.append_assoc, s.sanitize_append, ih, List.append_assoc]

end BuildServer.Arguments
