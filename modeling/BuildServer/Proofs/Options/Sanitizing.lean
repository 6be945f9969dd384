import BuildServer.Options.Arguments

namespace BuildServer.Arguments

variable {present : String → Bool} {a b : String} {arguments : List String}

def unusable : List String := [parseableOutput, localizedStrings, localizedStringsPath]

theorem dropLocalized_path (value : String) (rest : List String) :
    dropLocalized (localizedStringsPath :: value :: rest) = dropLocalized rest := by
  simp [dropLocalized]

theorem dropLocalized_strings (rest : List String) :
    dropLocalized (localizedStrings :: rest) = dropLocalized rest := by
  have hne : localizedStrings ≠ localizedStringsPath := by decide
  cases rest with
  | nil => simp [dropLocalized]
  | cons b rest => simp [dropLocalized, hne]

theorem dropLocalized_kept (hpath : a ≠ localizedStringsPath) (hstrings : a ≠ localizedStrings)
    (rest : List String) : dropLocalized (a :: rest) = a :: dropLocalized rest := by
  cases rest with
  | nil => simp [dropLocalized, hpath, hstrings]
  | cons b rest => simp [dropLocalized, hpath, hstrings]

theorem dropMissingSdk_kept (h : a ≠ sdk) (rest : List String) :
    dropMissingSdk present (a :: rest) = a :: dropMissingSdk present rest := by
  cases rest with
  | nil => simp [dropMissingSdk]
  | cons b rest => simp [dropMissingSdk, h]

theorem dropMissingSdk_present (h : present b = true) (rest : List String) :
    dropMissingSdk present (sdk :: b :: rest) = sdk :: dropMissingSdk present (b :: rest) := by
  simp [dropMissingSdk, h]

theorem dropMissingSdk_missing (h : present b = false) (rest : List String) :
    dropMissingSdk present (sdk :: b :: rest) = dropMissingSdk present rest := by
  simp [dropMissingSdk, h]

theorem dropLocalized_sublist (arguments : List String) : (dropLocalized arguments).Sublist arguments := by
  induction arguments using dropLocalized.induct with
  | case1 => exact .slnil
  | case2 a h => simp [dropLocalized, h]
  | case3 a h => simp [dropLocalized, h]
  | case4 b rest ih =>
    rw [dropLocalized_path]
    exact .cons _ (.cons _ ih)
  | case5 b rest hpath ih =>
    rw [dropLocalized_strings]
    exact .cons _ ih
  | case6 a b rest hpath hstrings ih =>
    rw [dropLocalized_kept hpath hstrings]
    exact .cons_cons _ ih

theorem dropMissingSdk_sublist (arguments : List String) :
    (dropMissingSdk present arguments).Sublist arguments := by
  induction arguments using dropMissingSdk.induct present with
  | case1 => exact .slnil
  | case2 a => exact .refl _
  | case3 a b rest hdrop ih =>
    rw [dropMissingSdk, if_pos hdrop]
    exact .cons _ (.cons _ ih)
  | case4 a b rest hkeep ih =>
    rw [dropMissingSdk, if_neg hkeep]
    exact .cons_cons _ ih

theorem sanitize_sublist (arguments : List String) : (sanitize present arguments).Sublist arguments :=
  ((dropMissingSdk_sublist _).trans (dropLocalized_sublist _)).trans List.filter_sublist

theorem not_mem_dropLocalized (arguments : List String) :
    localizedStrings ∉ dropLocalized arguments ∧ localizedStringsPath ∉ dropLocalized arguments := by
  induction arguments using dropLocalized.induct with
  | case1 => simp [dropLocalized]
  | case2 a h => simp [dropLocalized, h]
  | case3 a h =>
    rw [not_or] at h
    simp [dropLocalized, h, Ne.symm h.1, Ne.symm h.2]
  | case4 b rest ih => rwa [dropLocalized_path]
  | case5 b rest hpath ih => rwa [dropLocalized_strings]
  | case6 a b rest hpath hstrings ih =>
    rw [dropLocalized_kept hpath hstrings]
    simp [ih, Ne.symm hpath, Ne.symm hstrings]

theorem not_mem_sanitize (h : a ∈ unusable) (arguments : List String) : a ∉ sanitize present arguments := by
  intro hmem
  have hlocalized := (dropMissingSdk_sublist _).subset hmem
  simp only [unusable, List.mem_cons, List.not_mem_nil, or_false] at h
  obtain rfl | rfl | rfl := h
  · simpa using (dropLocalized_sublist _).subset hlocalized
  · exact (not_mem_dropLocalized _).1 hlocalized
  · exact (not_mem_dropLocalized _).2 hlocalized

def Settled (present : String → Bool) (arguments : List String) : Prop :=
  ∀ before path after, arguments = before ++ sdk :: path :: after → present path = true

theorem settled_cons : Settled present (a :: arguments) ↔
    (a = sdk → ∀ path ∈ arguments.head?, present path = true) ∧ Settled present arguments := by
  constructor
  · intro h
    refine ⟨?_, fun before path after hsplit => h (a :: before) path after (by rw [hsplit]; rfl)⟩
    rintro rfl path hpath
    cases arguments with
    | nil => cases hpath
    | cons b rest => exact h [] path rest (by simpa using hpath)
  · rintro ⟨hhead, htail⟩ before path after hsplit
    cases before with
    | nil =>
      obtain ⟨ha, rfl⟩ := List.cons.inj hsplit
      exact hhead ha path rfl
    | cons x before => exact htail before path after (List.cons.inj hsplit).2

theorem settled_nil : Settled present [] := by
  simp [Settled]

theorem settled_singleton (a : String) : Settled present [a] := by
  simp [settled_cons, settled_nil]

theorem settled_pair : Settled present (a :: b :: arguments) ↔
    (a = sdk → present b = true) ∧ Settled present (b :: arguments) := by
  simp [settled_cons (a := a)]

theorem dropMissingSdk_eq_self_iff : dropMissingSdk present arguments = arguments ↔
    Settled present arguments := by
  induction arguments using dropMissingSdk.induct present with
  | case1 => simp [dropMissingSdk, settled_nil]
  | case2 a => simp [dropMissingSdk, settled_singleton]
  | case3 a b rest hdrop ih =>
    obtain ⟨rfl, hb⟩ := hdrop
    have hmissing : present b = false := by simpa using hb
    rw [settled_pair, dropMissingSdk_missing hmissing]
    constructor
    · intro h
      have hlength : (dropMissingSdk present rest).length ≤ rest.length :=
        (dropMissingSdk_sublist rest).length_le
      have hlonger := congrArg List.length h
      simp only [List.length_cons] at hlonger
      omega
    · rintro ⟨hpresent, -⟩
      simp [hmissing] at hpresent
  | case4 a b rest hkeep ih =>
    have hpath : a = sdk → present b = true := by
      intro ha
      simpa [ha] using hkeep
    rw [settled_pair, dropMissingSdk, if_neg hkeep, List.cons_inj_right, ih]
    exact (and_iff_right hpath).symm

theorem dropLocalized_eq_self (hpath : localizedStringsPath ∉ arguments)
    (hstrings : localizedStrings ∉ arguments) : dropLocalized arguments = arguments := by
  induction arguments with
  | nil => rfl
  | cons a rest ih =>
    simp only [List.mem_cons, not_or] at hpath hstrings
    rw [dropLocalized_kept (Ne.symm hpath.1) (Ne.symm hstrings.1), ih hpath.2 hstrings.2]

theorem sanitize_eq_self_iff (h : ∀ flag ∈ unusable, flag ∉ arguments) :
    sanitize present arguments = arguments ↔ Settled present arguments := by
  have hfilter : arguments.filter (· != parseableOutput) = arguments := by
    apply List.filter_eq_self.mpr
    rintro a ha
    have hne : a ≠ parseableOutput := fun he => h _ (by simp [unusable]) (he ▸ ha)
    simpa using hne
  rw [sanitize, hfilter, dropLocalized_eq_self (h _ (by simp [unusable])) (h _ (by simp [unusable]))]
  exact dropMissingSdk_eq_self_iff

inductive Uncovers (present : String → Bool) : List String → Prop
  | here {path : String} {rest : List String} (missing : present path = false) : Uncovers present (path :: rest)
  | pair {path : String} {rest : List String} (missing : present path = false) (h : Uncovers present rest) :
      Uncovers present (sdk :: path :: rest)

theorem uncovers_iff (hsdk : present sdk = true) : Uncovers present arguments ↔
    ∃ path ∈ (dropMissingSdk present arguments).head?, present path = false := by
  constructor
  · intro h
    induction h with
    | @here path rest missing =>
      have hne : path ≠ sdk := by
        rintro rfl
        simp [hsdk] at missing
      exact ⟨path, by rw [dropMissingSdk_kept hne]; rfl, missing⟩
    | pair missing h ih => rwa [dropMissingSdk_missing missing]
  · rintro ⟨path, hpath, missing⟩
    induction arguments using dropMissingSdk.induct present with
    | case1 => cases hpath
    | case2 a =>
      obtain rfl : a = path := by simpa [dropMissingSdk] using hpath
      exact .here missing
    | case3 a b rest hdrop ih =>
      obtain ⟨rfl, hb⟩ := hdrop
      have hmissing : present b = false := by simpa using hb
      rw [dropMissingSdk_missing hmissing] at hpath
      exact .pair hmissing (ih hpath)
    | case4 a b rest hkeep ih =>
      rw [dropMissingSdk, if_neg hkeep] at hpath
      obtain rfl : a = path := by simpa using hpath
      exact .here missing

/-- A flag is given as the path of another one, and exists. It is kept as a path and then read as a flag: the
pair that it begins is dropped, and in the end a missing path stands behind the other flag. -/
def Rereads (present : String → Bool) (arguments : List String) : Prop :=
  present sdk = true ∧ ∃ before after, arguments = before ++ sdk :: sdk :: after ∧
    Uncovers present (sdk :: after)

theorem rereads_pair : Rereads present (a :: b :: arguments) ↔
    (a = sdk ∧ b = sdk ∧ present sdk = true ∧ Uncovers present (b :: arguments)) ∨
      Rereads present (b :: arguments) := by
  constructor
  · rintro ⟨hsdk, before, after, hsplit, h⟩
    cases before with
    | nil =>
      obtain ⟨rfl, rfl, rfl⟩ : a = sdk ∧ b = sdk ∧ arguments = after := by simpa using hsplit
      exact .inl ⟨rfl, rfl, hsdk, h⟩
    | cons x before => exact .inr ⟨hsdk, before, after, (List.cons.inj hsplit).2, h⟩
  · rintro (⟨rfl, rfl, hsdk, h⟩ | ⟨hsdk, before, after, hsplit, h⟩)
    · exact ⟨hsdk, [], arguments, rfl, h⟩
    · exact ⟨hsdk, a :: before, after, by rw [hsplit]; rfl, h⟩

theorem not_rereads_of_length (h : arguments.length < 2) : ¬Rereads present arguments := by
  rintro ⟨-, before, after, rfl, -⟩
  simp at h
  omega

theorem rereads_missing (h : present b = false) : Rereads present (sdk :: b :: arguments) ↔
    Rereads present arguments := by
  have hnot : ¬(b = sdk ∧ present sdk = true) := by
    rintro ⟨rfl, hsdk⟩
    simp [hsdk] at h
  rw [rereads_pair, or_iff_right fun hflag => hnot ⟨hflag.2.1, hflag.2.2.1⟩]
  cases arguments with
  | nil => simp [not_rereads_of_length]
  | cons c rest => rw [rereads_pair, or_iff_right fun hflag => hnot ⟨hflag.1, hflag.2.2.1⟩]

theorem settled_dropMissingSdk_iff : Settled present (dropMissingSdk present arguments) ↔
    ¬Rereads present arguments := by
  induction arguments using dropMissingSdk.induct present with
  | case1 => simp [dropMissingSdk, settled_nil, not_rereads_of_length]
  | case2 a => simp [dropMissingSdk, settled_singleton, not_rereads_of_length]
  | case3 a b rest hdrop ih =>
    obtain ⟨rfl, hb⟩ := hdrop
    have hmissing : present b = false := by simpa using hb
    rw [dropMissingSdk_missing hmissing, ih, rereads_missing hmissing]
  | case4 a b rest hkeep ih =>
    have hhead : (a = sdk → ∀ path ∈ (dropMissingSdk present (b :: rest)).head?, present path = true) ↔
        ¬(a = sdk ∧ b = sdk ∧ present sdk = true ∧ Uncovers present (b :: rest)) := by
      by_cases ha : a = sdk
      · have hb : present b = true := by simpa [ha] using hkeep
        by_cases hflag : b = sdk
        · subst hflag
          simp [ha, hb, uncovers_iff hb]
        · simp [hflag, dropMissingSdk_kept hflag, hb]
      · simp [ha]
    rw [dropMissingSdk, if_neg hkeep, settled_cons, ih, rereads_pair, not_or, hhead]

/-- Sanitized arguments are some of the given ones, in their order and without unusable flags. They stay as they
are when they are sanitized again, and name no missing SDK, unless a path that is the flag is read as one. -/
theorem sanitized_arguments (present : String → Bool) (arguments : List String) :
    (sanitize present arguments).Sublist arguments ∧
      (∀ flag ∈ unusable, flag ∉ sanitize present arguments) ∧
      (Settled present (sanitize present arguments) ↔
        ¬Rereads present (dropLocalized (arguments.filter (· != parseableOutput)))) ∧
      (sanitize present (sanitize present arguments) = sanitize present arguments ↔
        ¬Rereads present (dropLocalized (arguments.filter (· != parseableOutput)))) := by
  have hflags : ∀ flag ∈ unusable, flag ∉ sanitize present arguments :=
    fun flag hflag => not_mem_sanitize hflag arguments
  have hsettled : Settled present (sanitize present arguments) ↔
      ¬Rereads present (dropLocalized (arguments.filter (· != parseableOutput))) :=
    settled_dropMissingSdk_iff
  exact ⟨sanitize_sublist arguments, hflags, hsettled, (sanitize_eq_self_iff hflags).trans hsettled⟩

section

def SanitizedOnce : Prop :=
  ∀ (present : String → Bool) (arguments : List String),
    (sanitize present arguments).Sublist arguments ∧
      (∀ flag ∈ unusable, flag ∉ sanitize present arguments) ∧
      Settled present (sanitize present arguments) ∧
      sanitize present (sanitize present arguments) = sanitize present arguments

theorem not_sanitized_once : ¬SanitizedOnce := by
  intro h
  obtain ⟨-, -, -, hfixed⟩ := h (· == sdk) [sdk, sdk, "/missing", "/gone"]
  exact absurd hfixed (by decide)

end

end BuildServer.Arguments
