import BuildServer.Proofs.Build.Corruption
import BuildServer.Proofs.Files.Confinement

namespace BuildServer

namespace Builder

variable {b : Builder} {k k' : CacheKey} {cached : Bool} {s s' s'' : Site} {outputs outputs' : List Bytes}
  {e : BuildError}

def printed (b : Builder) : List (List String) → List Bytes
  | [] => []
  | arguments :: earlier =>
    if (b.tool.run earlier arguments).ending = .exited 0 then
      (b.tool.run earlier arguments).output :: b.printed earlier
    else b.printed earlier

structure Spoilt (b : Builder) (k : CacheKey) (outputs : List Bytes) (s s' : Site) : Prop where
  memory : s'.memory = s.memory
  printed : b.printed s'.runs = outputs ++ b.printed s.runs
  undecodable : ∀ data ∈ outputs, ∃ e, decodeText k.reader data = .error e
  silent : outputs = [] → s'.files = s.files
  confined : Files.Confined (·.getLast? = some (b.fileName k)) s.files s'.files
  kept : (∃ m, s.files.locate b.directory = .ok m ∧ s.files.Enterable m) → b.Unlinked k s.files →
    Files.SameWays s.files s'.files ∧ ∀ l, (∀ slot, s.files.slot (b.file k) = .ok (some slot) → l ≠ slot.location) →
      s'.files.node? l = s.files.node? l

theorem Unlinked.sameWays {fs fs' : Files} (h : b.Unlinked k fs) (ways : Files.SameWays fs fs') :
    b.Unlinked k fs' := by
  intro slot hslot target htarget
  exact h slot (ways.symm.slot hslot) target ((ways.link_iff _ _).mp htarget)

namespace Spoilt

theorem refl (b : Builder) (k : CacheKey) (s : Site) : b.Spoilt k [] s s where
  memory := rfl
  printed := rfl
  undecodable := nofun
  silent _ := rfl
  confined := .refl _ _
  kept _ _ := ⟨.refl _, fun _ _ => rfl⟩

theorem trans (h : b.Spoilt k outputs s s') (h' : b.Spoilt k outputs' s' s'') :
    b.Spoilt k (outputs' ++ outputs) s s'' where
  memory := h'.memory.trans h.memory
  printed := by rw [h'.printed, h.printed, List.append_assoc]
  undecodable data hdata := (List.mem_append.mp hdata).elim (h'.undecodable data) (h.undecodable data)
  silent hnil := by
    obtain ⟨hnil', hnil⟩ := List.append_eq_nil_iff.mp hnil
    exact (h'.silent hnil').trans (h.silent hnil)
  confined := h.confined.trans h'.confined
  kept there unlinked := by
    obtain ⟨ways, nodes⟩ := h.kept there unlinked
    obtain ⟨ways', nodes'⟩ := h'.kept (ways.locate_enterable there) (unlinked.sameWays ways)
    refine ⟨ways.trans ways', fun l hl => ?_⟩
    rw [nodes' l fun slot hslot => hl slot (ways.symm.slot hslot), nodes l hl]

theorem ran (b : Builder) (k : CacheKey) (s : Site) {arguments : List String}
    (ending : (b.tool.run s.runs arguments).ending ≠ .exited 0) : b.Spoilt k [] s (s.ran arguments) where
  memory := rfl
  printed := if_neg ending
  undecodable := nofun
  silent _ := rfl
  confined := .refl _ _
  kept _ _ := ⟨.refl _, fun _ _ => rfl⟩

theorem garbled {error : JsonError} (ending : (b.tool.run s.runs k.arguments).ending = .exited 0)
    (decoded : decodeText k.reader (b.tool.run s.runs k.arguments).output = .error error) :
    b.Spoilt k [(b.tool.run s.runs k.arguments).output] s
      ((s.ran k.arguments).written (b.file k) (b.tool.run s.runs k.arguments).output) where
  memory := rfl
  printed := if_pos ending
  undecodable data hdata := ⟨error, List.mem_singleton.mp hdata ▸ decoded⟩
  silent hnil := nomatch hnil
  confined := by
    refine (FileM.atomicWrite_confined s.files (b.file k) _).mono fun l hl => ?_
    rw [hl, names_file, List.getLast?_concat]
  kept there unlinked := by
    obtain ⟨place, replaceable, ways, same⟩ | ⟨-, same⟩ :=
      written_cases (s := s.ran k.arguments) there unlinked (b.tool.run s.runs k.arguments).output
    · refine ⟨ways.trans same.sameWays, fun l hl => ?_⟩
      rw [same.nodes, Files.node?_put, if_neg fun h => hl _ replaceable.slot h.1]
      rfl
    · exact ⟨same.sameWays, fun l _ => same.nodes l⟩

theorem saved (h : b.Spoilt k outputs s s') (unlinked : b.Unlinked k s.files)
    (other : s.files.locate (b.file k') ≠ s.files.locate (b.file k)) {v : k'.Value}
    (hsaved : b.saved k' s = some v) : b.saved k' s' = some v := by
  obtain ⟨data, hread, -⟩ := Option.bind_eq_some_iff.mp hsaved
  obtain ⟨l, mode, hl, hnode, -⟩ := Files.read_eq_ok_iff.mp (readCache_eq_some_iff.mp hread).1
  obtain ⟨slot', hslot'⟩ := Files.exists_slot (names_file b k') (fileName_ne b k' (by decide))
    (fileName_ne b k' (by decide)) hl
  obtain ⟨ways, nodes⟩ := h.kept (locate_directory hslot') unlinked
  have hsame : s'.files.node? l = s.files.node? l := by
    refine nodes l fun slot hslot heq => other ?_
    have hplace : s.files.slot (b.file k) = .ok (some ⟨l, false⟩) := by rw [hslot, heq, ← slot_file hslot]
    rw [hl, Files.locate_of_slot hplace hnode (by simp)]
  have hl' := ways.locate hl (by rw [hsame, hnode]; rfl)
  have hfile : s'.files.read (b.file k') = s.files.read (b.file k') := Files.read_congr hl hl' hsame
  rw [← hsaved, Builder.saved, Builder.saved, readCache, readCache, hfile]

end Spoilt

theorem renewed_spoilt (h : b.renewed k s = (.error e, s')) : ∃ outputs, b.Spoilt k outputs s s' := by
  have course := b.renewal k s
  rw [h] at course
  cases course with
  | refused shown e => exact ⟨[], .refl b k s⟩
  | failed e refusal ending => exact ⟨[], .ran b k s ending⟩
  | garbled e refusal ending decoded => exact ⟨_, .garbled ending decoded⟩

theorem ask_spoilt (h : (b.ask k cached).run.run s = (.error e, s')) : ∃ outputs, b.Spoilt k outputs s s' := by
  obtain ⟨v, hask⟩ | ⟨v, -, hask⟩ | hask | ⟨first, middle, hfails, hask⟩ := ask_cases b k cached s
  · rw [hask] at h
    cases h
  · rw [hask] at h
    cases h
  · exact renewed_spoilt (hask.symm.trans h)
  · obtain ⟨outputs, spoilt⟩ := renewed_spoilt hfails
    obtain ⟨outputs', spoilt'⟩ := renewed_spoilt (hask.symm.trans h)
    exact ⟨_, spoilt.trans spoilt'⟩

theorem uncached_of_fails (h : (b.ask k true).run.run s = (.error e, s')) :
    k.inMemory s.memory = none ∧ b.saved k s = none := by
  have hmemory : k.inMemory s.memory = none := by
    by_contra hsome
    obtain ⟨v, hv⟩ := Option.ne_none_iff_exists'.mp hsome
    rw [ask_recalled hv] at h
    cases h
  refine ⟨hmemory, ?_⟩
  by_contra hsome
  obtain ⟨v, hv⟩ := Option.ne_none_iff_exists'.mp hsome
  rw [ask_saved hmemory hv] at h
  cases h

/-- A call that fails leaves memory as it was, and all files unless a run of it exited with zero. The output of such
a run does not decode and has come into the file of the entry, which with the cache had nothing to offer. All other
nodes of the tree are what they were, and what could be used of another file before can be used afterwards. -/
theorem failed_call_keeps_caches (failed : (b.ask k cached).run.run s = (.error e, s')) :
    s'.memory = s.memory ∧
    (cached = true → k.inMemory s.memory = none ∧ b.saved k s = none) ∧
    ∃ outputs, b.printed s'.runs = outputs ++ b.printed s.runs ∧
      (∀ data ∈ outputs, ∃ error, decodeText k.reader data = .error error) ∧
      (outputs = [] → s'.files = s.files) ∧
      Files.Confined (·.getLast? = some (b.fileName k)) s.files s'.files ∧
      ∀ (k' : CacheKey) (v : k'.Value), b.saved k' s = some v →
        outputs = [] ∨ b.Unlinked k s.files ∧ s.files.locate (b.file k') ≠ s.files.locate (b.file k) →
        b.saved k' s' = some v := by
  obtain ⟨outputs, spoilt⟩ := ask_spoilt failed
  refine ⟨spoilt.memory, ?_, outputs, spoilt.printed, spoilt.undecodable, spoilt.silent, spoilt.confined, ?_⟩
  · rintro rfl
    exact uncached_of_fails failed
  · rintro k' v hsaved (hnil | ⟨unlinked, other⟩)
    · rw [← hsaved, saved, saved, readCache, readCache, spoilt.silent hnil]
    · exact spoilt.saved unlinked other hsaved

def mute : Builder := ⟨⟨true, fun _ _ => ⟨[], [], .exited 0⟩⟩, "/p", "/c"⟩

def indexName : String := "p-00d74baf14ea-App-0d04bfeb-settingsForIndex.json"

def settingsName : String := "p-00d74baf14ea-App-0d04bfeb-settings.json"

def cachedSite : Site where
  files := ⟨[(["p"], .directory 0o755), (["c"], .directory 0o755),
    (["c", indexName], .file (Utf8.encode "\x7b\"App\":\x7b\x7d\x7d") 0o600),
    (["c", settingsName], .file (Utf8.encode "[]") 0o600)], []⟩
  memory := .empty
  runs := []

def mutedSite : Site where
  files := ⟨[(["c", indexName], .file [] 0o600), (["p"], .directory 0o755), (["c"], .directory 0o755),
    (["c", settingsName], .file (Utf8.encode "[]") 0o600)], []⟩
  memory := .empty
  runs := [(CacheKey.index "App").arguments]

theorem mute_indexFile : mute.file (.index "App") = "/c/" ++ indexName := by
  decide +kernel

theorem mute_settingsFile : mute.file (.settings "App") = "/c/" ++ settingsName := by
  decide +kernel

theorem mute_fails : (mute.ask (.index "App") false).run.run cachedSite =
    (.error (.decode "settingsForIndex" .endOfText), mutedSite) := by
  rw [ask_uncached, renewed, anew, output_run, mute_indexFile]
  change @Eq (Except BuildError IndexSettings × Site) _ _
  decide +kernel

theorem other_file_kept :
    mutedSite.memory = .empty ∧ mute.saved (.settings "App") mutedSite = some [] := by
  obtain ⟨memory, -, outputs, -, -, -, -, kept⟩ := failed_call_keeps_caches mute_fails
  refine ⟨memory, kept (.settings "App") [] ?_ (.inr ⟨?_, ?_⟩)⟩
  · rw [saved, mute_settingsFile]
    decide +kernel
  · have hslot : cachedSite.files.slot ("/c/" ++ indexName) = .ok (some ⟨["c", indexName], false⟩) := by
      decide +kernel
    intro slot h target htarget
    rw [mute_indexFile, hslot] at h
    obtain rfl := Option.some.inj (Except.ok.inj h)
    cases htarget
  · rw [mute_indexFile, mute_settingsFile]
    decide +kernel

theorem muted_file_lost :
    ∃ e s', (mute.ask (.index "App") false).run.run cachedSite = (.error e, s') ∧
      s'.files ≠ cachedSite.files ∧ (mute.saved (.index "App") cachedSite).isSome ∧
      mute.saved (.index "App") s' = none := by
  refine ⟨_, mutedSite, mute_fails, by decide +kernel, ?_, ?_⟩
  · rw [saved, mute_indexFile]
    decide +kernel
  · rw [saved, mute_indexFile]
    decide +kernel

end Builder

end BuildServer
