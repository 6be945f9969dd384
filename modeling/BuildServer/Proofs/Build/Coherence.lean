import BuildServer.Proofs.Build.FileNames
import BuildServer.Proofs.Files.Overwriting

/-!
Memory and files agree on what the tool printed last. Memory may have forgotten an entry and the way to
its file may be lost, but neither is behind the other.
-/

namespace BuildServer

namespace Builder

variable {b : Builder} {k k' : CacheKey} {s s' start : Site} {data : Bytes} {used : List CacheKey}
  {runs : List (List String)}

def lastOutput? (b : Builder) (k : CacheKey) : List (List String) → Option Bytes
  | [] => none
  | arguments :: earlier =>
    if arguments = k.arguments ∧ (b.tool.run earlier arguments).ending = .exited 0 then
      some (b.tool.run earlier arguments).output
    else b.lastOutput? k earlier

def Decodes (b : Builder) (runs : List (List String)) : Prop :=
  ∀ k : CacheKey, ∀ earlier, k.arguments :: earlier <:+ runs →
    (b.tool.run earlier k.arguments).ending = .exited 0 →
    ∃ v, decodeText k.reader (b.tool.run earlier k.arguments).output = .ok v

def WriteSucceeds (b : Builder) (k : CacheKey) (s s' : Site) : Prop :=
  ∀ earlier, s'.runs = k.arguments :: earlier → s'.runs ≠ s.runs →
    (b.tool.run earlier k.arguments).ending = .exited 0 →
    ∃ fs', (FileM.atomicWrite (b.file k) (b.tool.run earlier k.arguments).output).run.run s.files =
      (.ok (), fs')

/-- Calls of builders one after the other, which all have the same root and cache directory, with the
entries they are about. A new builder has nothing in memory. -/
inductive Uses (b : Builder) (start : Site) : List CacheKey → Site → Prop
  | start : Uses b start [] start
  | ask {used : List CacheKey} {s : Site} (uses : Uses b start used s) (k : CacheKey) (cached : Bool)
      (write : b.WriteSucceeds k s ((b.ask k cached).run.run s).2) :
      Uses b start (k :: used) ((b.ask k cached).run.run s).2
  | reopen {used : List CacheKey} {s : Site} (uses : Uses b start used s) :
      Uses b start used { s with memory := .empty }

theorem lastOutput?_ran (b : Builder) (k : CacheKey) (s : Site) (arguments : List String) :
    b.lastOutput? k (s.ran arguments).runs =
      if arguments = k.arguments ∧ (b.tool.run s.runs arguments).ending = .exited 0 then
        some (b.tool.run s.runs arguments).output
      else b.lastOutput? k s.runs := rfl

theorem exists_run (h : b.lastOutput? k runs = some data) :
    ∃ earlier, k.arguments :: earlier <:+ runs ∧ (b.tool.run earlier k.arguments).ending = .exited 0 ∧
      (b.tool.run earlier k.arguments).output = data := by
  induction runs with
  | nil => cases h
  | cons arguments earlier ih =>
    rw [lastOutput?] at h
    split at h
    · next hrun =>
      obtain ⟨rfl, hending⟩ := hrun
      exact ⟨earlier, List.suffix_refl _, hending, Option.some.inj h⟩
    · obtain ⟨earlier', hsuffix, hrun⟩ := ih h
      exact ⟨earlier', hsuffix.trans (List.suffix_cons _ _), hrun⟩

theorem Decodes.last (decodes : b.Decodes runs) (h : b.lastOutput? k runs = some data) :
    ∃ v, decodeText k.reader data = .ok v := by
  obtain ⟨earlier, hsuffix, hending, rfl⟩ := exists_run h
  exact decodes k earlier hsuffix hending

theorem decodeText_nil (k : CacheKey) : decodeText k.reader [] = .error .endOfText := by
  cases k with
  | list => rfl
  | settings scheme => rfl
  | index scheme => rfl

def Coherent (b : Builder) (used : List CacheKey) (s : Site) : Prop :=
  ∀ k : CacheKey, ∀ data, b.lastOutput? k s.runs = some data → k ∈ used ∧
    (∀ v, k.inMemory s.memory = some v → decodeText k.reader data = .ok v) ∧
    s.files.Holds (b.file k) data

/-- The files of different entries that are used have different names. -/
def Apart (used : List CacheKey) : Prop :=
  ∀ k ∈ used, ∀ k' ∈ used, ∀ x ∈ k.scheme?, ∀ y ∈ k'.scheme?,
    sanitized x = sanitized y → mark x = mark y → x = y

theorem file_name_ne (apart : Apart used) (hk : k ∈ used) (hk' : k' ∈ used) (hne : k ≠ k') :
    (Path.names (b.file k)).getLast? ≠ (Path.names (b.file k')).getLast? := by
  rw [names_file, names_file, List.getLast?_concat, List.getLast?_concat]
  intro h
  exact hne (ending_inj (fileName_inj (Option.some.inj h)) (apart k hk k' hk'))

theorem coherent_start (hruns : start.runs = []) : b.Coherent [] start := by
  intro k data h
  rw [hruns] at h
  cases h

namespace Coherent

theorem reopen (coherent : b.Coherent used s) : b.Coherent used { s with memory := .empty } := by
  intro k data h
  obtain ⟨hused, -, holds⟩ := coherent k data h
  refine ⟨hused, fun v hv => ?_, holds⟩
  simp at hv

theorem cons (coherent : b.Coherent used s) (k : CacheKey) : b.Coherent (k :: used) s :=
  fun k' data h => (coherent k' data h).imp_left (List.mem_cons_of_mem k)

theorem keeping_saved {v : k.Value} (coherent : b.Coherent used s) (hsaved : b.saved k s = some v) :
    b.Coherent used (s.keeping k v) := by
  intro k' data h
  obtain ⟨hused, hmemory, holds⟩ := coherent k' data h
  refine ⟨hused, fun v' hv' => ?_, holds⟩
  by_cases hk : k' = k
  · subst hk
    rw [Site.keeping, CacheKey.inMemory_keep] at hv'
    cases hv'
    obtain ⟨read, hread, hdecode⟩ := Option.bind_eq_some_iff.mp hsaved
    obtain rfl := holds.eq_of_read (names_file b k') (fileName_ne b k' (by decide))
      (fileName_ne b k' (by decide)) (readCache_eq_some_iff.mp hread).1
    exact toOption_eq_some_iff.mp hdecode
  · rw [Site.keeping, CacheKey.inMemory_keep_of_ne v s.memory hk] at hv'
    exact hmemory v' hv'

theorem ran_failed (coherent : b.Coherent used s) (k : CacheKey)
    (hending : (b.tool.run s.runs k.arguments).ending ≠ .exited 0) :
    b.Coherent used (s.ran k.arguments) := by
  intro k' data h
  rw [lastOutput?_ran, if_neg fun hrun => hending hrun.2] at h
  exact coherent k' data h

theorem renewed {v : k.Value} {fs' : Files} (coherent : b.Coherent used s) (apart : Apart (k :: used))
    (hending : (b.tool.run s.runs k.arguments).ending = .exited 0)
    (hv : decodeText k.reader (b.tool.run s.runs k.arguments).output = .ok v)
    (hwrite : (FileM.atomicWrite (b.file k) (b.tool.run s.runs k.arguments).output).run.run s.files =
      (.ok (), fs')) :
    b.Coherent (k :: used)
      (((s.ran k.arguments).written (b.file k) (b.tool.run s.runs k.arguments).output).keeping k v) := by
  have hfiles : ((s.ran k.arguments).written (b.file k) (b.tool.run s.runs k.arguments).output).files =
      fs' := congrArg Prod.snd hwrite
  intro k' data h
  change b.lastOutput? k' (s.ran k.arguments).runs = some data at h
  rw [lastOutput?_ran] at h
  change _ ∧ (∀ v', k'.inMemory (k.keep v s.memory) = some v' → _) ∧ Files.Holds
    ((s.ran k.arguments).written (b.file k) (b.tool.run s.runs k.arguments).output).files _ _
  rw [hfiles]
  by_cases hk : k' = k
  · subst hk
    rw [if_pos ⟨rfl, hending⟩] at h
    obtain rfl := Option.some.inj h
    refine ⟨List.mem_cons_self, fun v' hv' => ?_, Files.holds_of_write hwrite⟩
    rw [CacheKey.inMemory_keep] at hv'
    cases hv'
    exact hv
  · rw [if_neg fun hrun => hk (CacheKey.arguments_inj hrun.1.symm)] at h
    obtain ⟨hused, hmemory, holds⟩ := coherent k' data h
    refine ⟨List.mem_cons_of_mem k hused, fun v' hv' => ?_, holds.write_other hwrite ?_⟩
    · rw [CacheKey.inMemory_keep_of_ne v s.memory hk] at hv'
      exact hmemory v' hv'
    · exact file_name_ne apart List.mem_cons_self (List.mem_cons_of_mem k hused) (Ne.symm hk)

theorem of_renewed (coherent : b.Coherent used s) (apart : Apart (k :: used))
    (decodes : b.Decodes (b.renewed k s).2.runs)
    (write : (b.renewed k s).2.runs = k.arguments :: s.runs →
      (b.tool.run s.runs k.arguments).ending = .exited 0 →
      ∃ fs', (FileM.atomicWrite (b.file k) (b.tool.run s.runs k.arguments).output).run.run s.files =
        (.ok (), fs')) :
    b.Coherent (k :: used) (b.renewed k s).2 := by
  have course := b.renewal k s
  generalize b.renewed k s = result at course decodes write ⊢
  cases course with
  | refused shown e => exact coherent.cons k
  | failed e refusal ending => exact (coherent.ran_failed k ending).cons k
  | garbled e refusal ending decoded =>
    obtain ⟨v, hv⟩ := decodes k s.runs (List.suffix_refl _) ending
    rw [decoded] at hv
    cases hv
  | done v refusal ending decoded =>
    obtain ⟨fs', hwrite⟩ := write rfl ending
    exact coherent.renewed apart ending decoded hwrite

theorem ask (coherent : b.Coherent used s) (apart : Apart (k :: used)) (cached : Bool)
    (decodes : b.Decodes ((b.ask k cached).run.run s).2.runs)
    (write : b.WriteSucceeds k s ((b.ask k cached).run.run s).2) :
    b.Coherent (k :: used) ((b.ask k cached).run.run s).2 := by
  obtain ⟨v, h⟩ | ⟨v, hsaved, h⟩ | h | ⟨e, s', hfails, h⟩ := ask_cases b k cached s
  · rw [h]
    exact coherent.cons k
  · rw [h]
    exact (coherent.keeping_saved hsaved).cons k
  · rw [h] at decodes write ⊢
    exact coherent.of_renewed apart decodes fun hruns =>
      write s.runs hruns (hruns ▸ List.cons_ne_self _ _)
  · rw [h] at decodes write ⊢
    -- The first run failed, and a run whose output decodes does not fail.
    have hfirst : s' = s ∨ s' = s.ran k.arguments ∧
        (b.tool.run s.runs k.arguments).ending ≠ .exited 0 := by
      have hsuffix := renewed_runs b k s'
      have course := b.renewal k s
      rw [hfails] at course
      cases course with
      | refused shown e => exact .inl rfl
      | failed e refusal ending => exact .inr ⟨rfl, ending⟩
      | garbled e refusal ending decoded =>
        obtain ⟨v, hv⟩ := decodes k s.runs hsuffix ending
        rw [decoded] at hv
        cases hv
    rcases hfirst with rfl | ⟨rfl, hending⟩
    · exact coherent.of_renewed apart decodes fun hruns =>
        write s'.runs hruns (hruns ▸ List.cons_ne_self _ _)
    · refine (coherent.ran_failed k hending).of_renewed apart decodes fun hruns =>
        write (s.ran k.arguments).runs hruns fun hsame => ?_
      have hlength := congrArg List.length (hruns.symm.trans hsame)
      simp [Site.ran] at hlength
      omega

end Coherent

theorem Uses.coherent (uses : b.Uses start used s) (hruns : start.runs = []) (apart : Apart used)
    (decodes : b.Decodes s.runs) : b.Coherent used s := by
  induction uses with
  | start => exact coherent_start hruns
  | @ask used s uses k cached write ih =>
    refine Coherent.ask (ih (fun k hk k' hk' => apart k (List.mem_cons_of_mem _ hk) k'
      (List.mem_cons_of_mem _ hk')) fun k' earlier hsuffix => decodes k' earlier ?_) apart cached decodes write
    exact hsuffix.trans (ask_runs b k cached s)
  | reopen uses ih => exact (ih apart decodes).reopen

/-- A call that may use the cache gives what the tool printed last and does not run it, as long as the
path of the file still leads into a directory. -/
theorem ask_gives_last_output (uses : b.Uses start used s) (hruns : start.runs = []) (apart : Apart used)
    (decodes : b.Decodes s.runs) (hlast : b.lastOutput? k s.runs = some data)
    (hslot : ∃ slot, s.files.slot (b.file k) = .ok (some slot)) :
    ∃ v s', decodeText k.reader data = .ok v ∧ (b.ask k true).run.run s = (.ok v, s') ∧
      s'.runs = s.runs := by
  obtain ⟨-, hmemory, holds⟩ := uses.coherent hruns apart decodes k data hlast
  cases hrecall : k.inMemory s.memory with
  | some v => exact ⟨v, s, hmemory v hrecall, ask_recalled hrecall, rfl⟩
  | none =>
    obtain ⟨slot, hslot⟩ := hslot
    obtain ⟨v, hv⟩ := decodes.last hlast
    have hne : data ≠ [] := by
      rintro rfl
      rw [decodeText_nil] at hv
      cases hv
    have hsaved : b.saved k s = some v := by
      rw [saved, readCache_eq_some_iff.mpr ⟨holds.read_eq hslot, hne⟩]
      exact toOption_eq_some_iff.mpr hv
    exact ⟨v, s.keeping k v, hv, ask_saved hrecall hsaved, rfl⟩

section Once

def unchanging (cacheDir : String) : Builder where
  tool := ⟨true, fun _ _ => ⟨Utf8.encode "\x7b\"App\":\x7b\x7d\x7d", [], .exited 0⟩⟩
  root := "/p"
  cacheDir := cacheDir

def once (b : Builder) (k : CacheKey) (start : Site) : Site :=
  { (b.renewed k start).2 with memory := .empty }

theorem uses_once (hruns : (b.once k start).runs = [k.arguments])
    (hwrite : ((FileM.atomicWrite (b.file k) (b.tool.run [] k.arguments).output).run.run
      start.files).1 = .ok ()) :
    b.Uses start [k] (b.once k start) := by
  have hask : ((b.ask k false).run.run start).2 = (b.renewed k start).2 := by rw [ask_uncached]
  rw [once, ← hask]
  refine .reopen (.ask .start k false fun earlier hearlier _ _ => ?_)
  rw [hask] at hearlier
  obtain rfl := (List.cons.inj (hruns.symm.trans hearlier)).2
  exact ⟨_, Prod.ext hwrite rfl⟩

theorem decodes_once {v : k.Value}
    (hv : decodeText k.reader (b.tool.run [] k.arguments).output = .ok v) : b.Decodes [k.arguments] := by
  intro k' earlier hsuffix _
  rcases List.suffix_cons_iff.mp hsuffix with h | h
  · obtain ⟨harguments, rfl⟩ := List.cons.inj h
    obtain rfl := CacheKey.arguments_inj harguments
    exact ⟨v, hv⟩
  · exact absurd (List.suffix_nil.mp h) (List.cons_ne_nil _ _)

theorem apart_singleton (scheme : String) : Apart [.index scheme] := by
  intro k hk k' hk' x hx y hy _ _
  rw [List.mem_singleton.mp hk] at hx
  rw [List.mem_singleton.mp hk'] at hy
  exact (Option.some.inj hx).symm.trans (Option.some.inj hy)

def plainSite : Site := ⟨⟨[(["p"], .directory 0o755), (["c"], .directory 0o755)], []⟩, .empty, []⟩

theorem last_output_after_reopening :
    ∃ v s', decodeText IndexSettings.reader (Utf8.encode "\x7b\"App\":\x7b\x7d\x7d") = .ok v ∧
      ((unchanging "/c").index "App" true).run.run ((unchanging "/c").once (.index "App") plainSite) =
        (.ok v, s') ∧
      s'.runs = [(CacheKey.index "App").arguments] := by
  have hruns : ((unchanging "/c").once (.index "App") plainSite).runs =
      [(CacheKey.index "App").arguments] := by decide +kernel
  have hdecode : decodeText IndexSettings.reader (Utf8.encode "\x7b\"App\":\x7b\x7d\x7d") =
      .ok (Table.empty.insert "App" .empty) := by decide +kernel
  have hslot : ((unchanging "/c").once (.index "App") plainSite).files.slot
      ((unchanging "/c").file (.index "App")) =
        .ok (some ⟨["c", "p-00d74baf14ea-App-0d04bfeb-settingsForIndex.json"], false⟩) := by
    decide +kernel
  have hwrite : ((FileM.atomicWrite ((unchanging "/c").file (.index "App"))
      (Utf8.encode "\x7b\"App\":\x7b\x7d\x7d")).run.run plainSite.files).1 = .ok () := by
    decide +kernel
  have hlast : (unchanging "/c").lastOutput? (.index "App")
      ((unchanging "/c").once (.index "App") plainSite).runs =
        some (Utf8.encode "\x7b\"App\":\x7b\x7d\x7d") := by
    rw [hruns]
    rfl
  rw [← hruns]
  exact ask_gives_last_output (uses_once hruns hwrite) rfl (apart_singleton "App")
    (hruns ▸ decodes_once hdecode) hlast ⟨_, hslot⟩

def linkedDir : String := "/c/p-00d74baf14ea-App-0d04bfeb-settingsForIndex.json"

def linkedSite : Site :=
  ⟨⟨[(["p"], .directory 0o755), (["c"], .directory 0o755),
    (["c", "p-00d74baf14ea-App-0d04bfeb-settingsForIndex.json"], .link "/c")], []⟩, .empty, []⟩

theorem last_output_lost :
    (unchanging linkedDir).Uses linkedSite [.index "App"]
      ((unchanging linkedDir).once (.index "App") linkedSite) ∧
    linkedSite.runs = [] ∧ Apart [.index "App"] ∧
    (unchanging linkedDir).Decodes ((unchanging linkedDir).once (.index "App") linkedSite).runs ∧
    (unchanging linkedDir).lastOutput? (.index "App")
      ((unchanging linkedDir).once (.index "App") linkedSite).runs =
        some (Utf8.encode "\x7b\"App\":\x7b\x7d\x7d") ∧
    ¬∃ v s', decodeText IndexSettings.reader (Utf8.encode "\x7b\"App\":\x7b\x7d\x7d") = .ok v ∧
      ((unchanging linkedDir).ask (.index "App") true).run.run
        ((unchanging linkedDir).once (.index "App") linkedSite) = (.ok v, s') ∧
      s'.runs = ((unchanging linkedDir).once (.index "App") linkedSite).runs := by
  have hruns : ((unchanging linkedDir).once (.index "App") linkedSite).runs =
      [(CacheKey.index "App").arguments] := by decide +kernel
  have hdecode : decodeText IndexSettings.reader (Utf8.encode "\x7b\"App\":\x7b\x7d\x7d") =
      .ok (Table.empty.insert "App" .empty) := by decide +kernel
  have hwrite : ((FileM.atomicWrite ((unchanging linkedDir).file (.index "App"))
      (Utf8.encode "\x7b\"App\":\x7b\x7d\x7d")).run.run linkedSite.files).1 = .ok () := by
    decide +kernel
  have hask : (((unchanging linkedDir).ask (.index "App") true).run.run
      ((unchanging linkedDir).once (.index "App") linkedSite)).1 = .ok .empty := by decide +kernel
  refine ⟨uses_once hruns hwrite, rfl, apart_singleton "App", hruns ▸ decodes_once hdecode,
    by rw [hruns]; rfl, ?_⟩
  rintro ⟨v, s', hv, hrun, -⟩
  rw [hrun] at hask
  cases hask
  rw [hdecode] at hv
  exact absurd hv (by decide)

end Once

end Builder

end BuildServer
