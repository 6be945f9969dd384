import BuildServer.Proofs.Graph.Reports

namespace BuildServer

namespace Arguments

variable {present present' : String → Bool} {arguments : List String}

def SdkPath (arguments : List String) (path : String) : Prop :=
  [sdk, path] <:+: dropLocalized (arguments.filter (· != parseableOutput))

theorem dropMissingSdk_congr (h : ∀ path, [sdk, path] <:+: arguments → present' path = present path) :
    dropMissingSdk present' arguments = dropMissingSdk present arguments := by
  induction arguments using dropMissingSdk.induct present with
  | case1 => rfl
  | case2 a => rfl
  | case3 a b rest hdrop ih =>
    have hb : present' b = present b := h b ⟨[], rest, by rw [hdrop.1]; rfl⟩
    rw [dropMissingSdk, dropMissingSdk, if_pos hdrop, if_pos (by rw [hb]; exact hdrop)]
    exact ih fun path hpath => h path (hpath.trans ⟨[a, b], [], by simp⟩)
  | case4 a b rest hkeep ih =>
    have hkeep' : ¬(a = sdk ∧ (!present' b) = true) := by
      rintro ⟨rfl, hb⟩
      exact hkeep ⟨rfl, by rw [← h b ⟨[], rest, rfl⟩]; exact hb⟩
    rw [dropMissingSdk, dropMissingSdk, if_neg hkeep, if_neg hkeep',
      ih fun path hpath => h path (hpath.trans ⟨[a], [], by simp⟩)]

theorem sanitize_congr (h : ∀ path, SdkPath arguments path → present' path = present path) :
    sanitize present' arguments = sanitize present arguments :=
  dropMissingSdk_congr h

end Arguments

theorem Table.of_get?_foldl_union {α : Type} {ts : List (Table α)} {t : Table α} {k : String} {v : α}
    (h : (ts.foldl .union t).get? k = some v) : t.get? k = some v ∨ ∃ u ∈ ts, u.get? k = some v := by
  induction ts generalizing t with
  | nil => exact .inl h
  | cons u ts ih =>
    obtain h | ⟨u', hu', h⟩ := ih h
    · rw [get?_union, Option.or_eq_some_iff] at h
      rcases h with h | ⟨-, h⟩
      · exact .inr ⟨u, List.mem_cons_self, h⟩
      · exact .inl h
    · exact .inr ⟨u', List.mem_cons_of_mem _ hu', h⟩

namespace Member

variable {present present' : String → Bool} {settings : IndexSettings} {names : List String} {path : String}
  {s : FileSettings}

theorem exists_entry (h : (path, s) ∈ (filesUnder names settings).entries) :
    ∃ name files, settings.get? name = some files ∧ files.get? path = some s := by
  rw [Table.mem_entries, filesUnder] at h
  split at h
  · next files hfirst =>
    obtain ⟨name, -, hname⟩ := List.exists_of_findSome?_eq_some hfirst
    exact ⟨name, files, (Option.filter_eq_some_iff.mp hname).1, h⟩
  · obtain hempty | ⟨files, hfiles, hget⟩ := Table.of_get?_foldl_union h
    · cases hempty
    · obtain ⟨name, hname⟩ := Table.mem_values.mp hfiles
      exact ⟨name, files, hname, hget⟩

theorem optionsOf_congr {files : Table FileSettings}
    (h : ∀ path s, (path, s) ∈ files.entries → ∀ sdk, Arguments.SdkPath s.arguments sdk →
      present' sdk = present sdk) :
    optionsOf present' files = optionsOf present files := by
  rw [optionsOf, optionsOf]
  congr 1
  refine List.map_congr_left fun e he => ?_
  obtain ⟨path, s⟩ := e
  dsimp only
  rw [Arguments.sanitize_congr (h path s he)]

end Member

namespace SchemeReport

variable {x x' : SchemeReport}

def SdkPath (x : SchemeReport) (sdk : String) : Prop :=
  ∃ name files path s, x.settings.get? name = some files ∧ files.get? path = some s ∧
    Arguments.SdkPath s.arguments sdk

theorem members_congr (project : String) (hscheme : x'.scheme = x.scheme) (hsettings : x'.settings = x.settings)
    (h : ∀ sdk, x.SdkPath sdk → x'.files.present sdk = x.files.present sdk) :
    x'.members project = x.members project := by
  have hoptions (names : List String) :
      Member.optionsOf x'.files.present (Member.filesUnder names x.settings) =
        Member.optionsOf x.files.present (Member.filesUnder names x.settings) :=
    Member.optionsOf_congr fun path s hs sdk hsdk => by
      obtain ⟨name, files, hname, hfile⟩ := Member.exists_entry hs
      exact h sdk ⟨name, files, path, s, hname, hfile, hsdk⟩
  rw [members, members, hscheme, hsettings, Member.ofScheme, Member.ofScheme]
  simp only [hoptions]

end SchemeReport

end BuildServer
