import BuildServer.Build.Cache
import BuildServer.Proofs.Files.Runs

namespace BuildServer

inductive CacheKey where
  | list
  | settings (scheme : String)
  | index (scheme : String)
  deriving DecidableEq

namespace CacheKey

variable {k k' : CacheKey} {m : Memory}

abbrev Value : CacheKey → Type
  | list => Listing
  | settings _ => List SchemeSettings
  | index _ => IndexSettings

def reader : (k : CacheKey) → Json.Reader k.Value
  | list => Listing.shape.read
  | settings _ => SchemeSettings.reader
  | index _ => IndexSettings.reader

def shown : CacheKey → List String
  | list => ["-list"]
  | settings scheme => ["-showBuildSettings", "-scheme", scheme]
  | index scheme => ["-showBuildSettingsForIndex", "-scheme", scheme]

def arguments (k : CacheKey) : List String := "-json" :: k.shown

def what : CacheKey → String
  | list => "list"
  | settings _ => "showBuildSettings"
  | index _ => "settingsForIndex"

def inMemory : (k : CacheKey) → Memory → Option k.Value
  | list, m => m.list
  | settings scheme, m => m.settings.get? scheme
  | index scheme, m => m.index.get? scheme

def keep : (k : CacheKey) → k.Value → Memory → Memory
  | list, v, m => { m with list := some v }
  | settings scheme, v, m => { m with settings := m.settings.insert scheme v }
  | index scheme, v, m => { m with index := m.index.insert scheme v }

@[simp] theorem inMemory_empty (k : CacheKey) : k.inMemory .empty = none := by
  cases k <;> rfl

@[simp] theorem inMemory_keep (k : CacheKey) (v : k.Value) (m : Memory) :
    k.inMemory (k.keep v m) = some v := by
  cases k with
  | list => rfl
  | settings scheme => simp [inMemory, keep, Table.get?_insert]
  | index scheme => simp [inMemory, keep, Table.get?_insert]

theorem inMemory_keep_of_ne (v : k.Value) (m : Memory) (h : k' ≠ k) :
    k'.inMemory (k.keep v m) = k'.inMemory m := by
  cases k with
  | list =>
    cases k' with
    | list => exact absurd rfl h
    | settings scheme => rfl
    | index scheme => rfl
  | settings scheme =>
    cases k' with
    | list => rfl
    | settings scheme' =>
      have hne : scheme' ≠ scheme := fun he => h (congrArg settings he)
      simp [inMemory, keep, Table.get?_insert, hne]
    | index scheme' => rfl
  | index scheme =>
    cases k' with
    | list => rfl
    | settings scheme' => rfl
    | index scheme' =>
      have hne : scheme' ≠ scheme := fun he => h (congrArg index he)
      simp [inMemory, keep, Table.get?_insert, hne]

theorem arguments_inj (h : k.arguments = k'.arguments) : k = k' := by
  cases k <;> cases k' <;> simp_all [arguments, shown]

end CacheKey

namespace Site

def ran (s : Site) (arguments : List String) : Site := { s with runs := arguments :: s.runs }

def written (s : Site) (path : String) (data : Bytes) : Site :=
  { s with files := ((FileM.atomicWrite path data).run.run s.files).2 }

def keeping (s : Site) (k : CacheKey) (v : k.Value) : Site := { s with memory := k.keep v s.memory }

end Site

namespace Builder

variable {k : CacheKey} {b : Builder} {s : Site}

def file (b : Builder) : CacheKey → String
  | .list => b.listFile
  | .settings scheme => b.settingsFile scheme
  | .index scheme => b.indexFile scheme

def ask (b : Builder) : (k : CacheKey) → Bool → M k.Value
  | .list, cached => b.list cached
  | .settings scheme, cached => b.settings scheme cached
  | .index scheme, cached => b.index scheme cached

def saved (b : Builder) (k : CacheKey) (s : Site) : Option k.Value :=
  (readCache (b.file k) s).bind fun data => (decodeText k.reader data).toOption

def refusal (b : Builder) (arguments : List String) (fs : Files) : Option LaunchError :=
  if arguments.any (·.toList.contains '\x00') then some .nulInArgument
  else
    match fs.locate b.root with
    | .error e => some (.file e)
    | .ok l =>
      match fs.node? l with
      | some (.directory mode) =>
        if !Mode.enterable mode then some (.file .accessDenied)
        else if !b.tool.installed then some (.file .notFound)
        else none
      | _ => some (.file .notADirectory)

theorem launch_run (b : Builder) (shown arguments : List String) (s : Site) :
    (b.launch shown arguments).run.run s =
      match b.refusal arguments s.files with
      | some e => (.error (.launch (String.intercalate " " shown) e), s)
      | none => (.ok (b.tool.run s.runs arguments), s.ran arguments) := by
  rw [launch, run_bind, run_get, refusal]
  dsimp only
  split
  · rfl
  · cases s.files.locate b.root with
    | error e => rfl
    | ok l =>
      cases hnode : s.files.node? l with
      | none => simp only [hnode]; rfl
      | some n =>
        cases n with
        | file content mode => simp only [hnode]; rfl
        | link target => simp only [hnode]; rfl
        | directory mode =>
          simp only [hnode]
          cases Mode.enterable mode <;> cases b.tool.installed <;> rfl

theorem toOption_eq_some_iff {ε α : Type} {x : Except ε α} {a : α} : x.toOption = some a ↔ x = .ok a := by
  cases x <;> simp [Except.toOption]

theorem readCache_eq_some_iff {path : String} {data : Bytes} :
    readCache path s = some data ↔ s.files.read path = .ok data ∧ data ≠ [] := by
  rw [readCache, Option.filter_eq_some_iff, toOption_eq_some_iff]
  simp

theorem output_run (b : Builder) (shown arguments : List String) (s : Site) :
    (b.output shown arguments).run.run s =
      match b.refusal arguments s.files with
      | some e => (.error (.launch (String.intercalate " " shown) e), s)
      | none =>
        let r := b.tool.run s.runs arguments
        if r.ending = .exited 0 then (.ok r.output, s.ran arguments)
        else (.error (.failed (String.intercalate " " shown) r.ending.text
          (trim (Utf8.decodeLossy r.complaints))), s.ran arguments) := by
  rw [output, run_bind, launch_run]
  cases b.refusal arguments s.files with
  | some e => rfl
  | none =>
    dsimp only
    split <;> rfl

section Query

variable {α : Type} (what : String) (r : Json.Reader α) (shown : List String) (path : String)

def anew (b : Builder) (s : Site) : Except BuildError α × Site :=
  match (b.output shown ("-json" :: shown)).run.run s with
  | (.ok data, s') => ((decodeText r data).mapError (.decode what), s'.written path data)
  | (.error e, s') => (.error e, s')

theorem query_uncached (b : Builder) (s : Site) :
    (b.query what r shown path false).run.run s = b.anew what r shown path s := by
  have hfetch : (b.fetch shown path false).run.run s =
      match (b.output shown ("-json" :: shown)).run.run s with
      | (.ok data, s') => (.ok data, s'.written path data)
      | (.error e, s') => (.error e, s') := by
    rw [fetch, run_bind, run_get]
    dsimp only
    rw [if_neg (by simp), run_bind]
    cases (b.output shown ("-json" :: shown)).run.run s with
    | mk r s' => cases r <;> rfl
  rw [query, if_neg (by simp), run_bind, hfetch, anew]
  cases (b.output shown ("-json" :: shown)).run.run s with
  | mk res s' =>
    cases res with
    | error e => rfl
    | ok data =>
      dsimp only
      rw [decode]
      cases decodeText r data <;> rfl

theorem fetch_read {data : Bytes} (b : Builder) {s : Site} (h : readCache path s = some data) :
    (b.fetch shown path true).run.run s = (.ok data, s) := by
  rw [fetch, run_bind, run_get]
  dsimp only
  rw [if_pos rfl, h]
  rfl

theorem fetch_unread (b : Builder) {s : Site} (h : readCache path s = none) :
    (b.fetch shown path true).run.run s = (b.fetch shown path false).run.run s := by
  rw [fetch, fetch, run_bind, run_bind, run_get]
  dsimp only
  rw [if_pos rfl, if_neg (by simp), h]

theorem run_tryCatch {β : Type} (x : M β) (y : BuildError → M β) (s : Site) :
    (tryCatch x y).run.run s =
      match x.run.run s with
      | (.ok a, s') => (.ok a, s')
      | (.error e, s') => (y e).run.run s' := by
  change (ExceptT.tryCatch x y).run.run s = _
  rw [ExceptT.tryCatch, ExceptT.run_mk, StateT.run_bind]
  cases h : x.run.run s with
  | mk r s' =>
    change StateT.run x s = _ at h
    rw [h]
    cases r <;> rfl

theorem query_saved {v : α} (b : Builder) {s : Site}
    (h : (readCache path s).bind (fun data => (decodeText r data).toOption) = some v) :
    (b.query what r shown path true).run.run s = (.ok v, s) := by
  obtain ⟨data, hread, hdecode⟩ := Option.bind_eq_some_iff.mp h
  rw [query, if_pos rfl, run_tryCatch, run_bind, fetch_read shown path b hread]
  dsimp only
  rw [decode]
  rw [toOption_eq_some_iff.mp hdecode]
  rfl

theorem attempt_anew (b : Builder) (s : Site) :
    (do decode what r (← b.fetch shown path false) : M α).run.run s = b.anew what r shown path s := by
  rw [← query_uncached, query, if_neg (by simp)]

theorem query_garbled {data : Bytes} {e : JsonError} (b : Builder) {s : Site} (h : readCache path s = some data)
    (hdecode : decodeText r data = .error e) :
    (b.query what r shown path true).run.run s = b.anew what r shown path s := by
  rw [query, if_pos rfl, run_tryCatch, run_bind, fetch_read shown path b h]
  dsimp only
  rw [decode, hdecode]
  exact attempt_anew what r shown path b s

theorem query_unread (b : Builder) {s : Site} (h : readCache path s = none) :
    (b.query what r shown path true).run.run s =
      match b.anew what r shown path s with
      | (.ok v, s') => (.ok v, s')
      | (.error _, s') => b.anew what r shown path s' := by
  rw [query, if_pos rfl, run_tryCatch, run_bind, fetch_unread shown path b h, ← run_bind, attempt_anew]
  cases b.anew what r shown path s with
  | mk res s' =>
    cases res with
    | ok v => rfl
    | error e => exact attempt_anew what r shown path b s'

end Query

def kept (k : CacheKey) : Except BuildError k.Value × Site → Except BuildError k.Value × Site
  | (.ok v, s) => (.ok v, s.keeping k v)
  | (.error e, s) => (.error e, s)

def renewed (b : Builder) (k : CacheKey) (s : Site) : Except BuildError k.Value × Site :=
  kept k (b.anew k.what k.reader k.shown (b.file k) s)

inductive Renewal (b : Builder) (k : CacheKey) (s : Site) : Except BuildError k.Value × Site → Prop
  | refused (shown : String) (e : LaunchError) (refusal : b.refusal k.arguments s.files = some e) :
    Renewal b k s (.error (.launch shown e), s)
  | failed (e : BuildError) (refusal : b.refusal k.arguments s.files = none)
    (ending : (b.tool.run s.runs k.arguments).ending ≠ .exited 0) :
    Renewal b k s (.error e, s.ran k.arguments)
  | garbled (e : JsonError) (refusal : b.refusal k.arguments s.files = none)
    (ending : (b.tool.run s.runs k.arguments).ending = .exited 0)
    (decoded : decodeText k.reader (b.tool.run s.runs k.arguments).output = .error e) :
    Renewal b k s (.error (.decode k.what e),
      (s.ran k.arguments).written (b.file k) (b.tool.run s.runs k.arguments).output)
  | done (v : k.Value) (refusal : b.refusal k.arguments s.files = none)
    (ending : (b.tool.run s.runs k.arguments).ending = .exited 0)
    (decoded : decodeText k.reader (b.tool.run s.runs k.arguments).output = .ok v) :
    Renewal b k s (.ok v,
      ((s.ran k.arguments).written (b.file k) (b.tool.run s.runs k.arguments).output).keeping k v)

theorem renewal (b : Builder) (k : CacheKey) (s : Site) : b.Renewal k s (b.renewed k s) := by
  have hrun := output_run b k.shown k.arguments s
  rw [renewed, anew, ← CacheKey.arguments, hrun]
  cases hrefusal : b.refusal k.arguments s.files with
  | some e => exact .refused _ e hrefusal
  | none =>
    dsimp only
    by_cases hending : (b.tool.run s.runs k.arguments).ending = .exited 0
    · rw [if_pos hending]
      dsimp only
      cases hv : decodeText k.reader (b.tool.run s.runs k.arguments).output with
      | ok v => exact .done v hrefusal hending hv
      | error e => exact .garbled e hrefusal hending hv
    · rw [if_neg hending]
      exact .failed _ hrefusal hending

theorem ask_run (hk : ∀ scheme, k ≠ .index scheme) (cached : Bool) (s : Site) :
    (b.ask k cached).run.run s =
      match if cached then k.inMemory s.memory else none with
      | some v => (.ok v, s)
      | none => kept k ((b.query k.what k.reader k.shown (b.file k) cached).run.run s) := by
  cases k with
  | list =>
    rw [ask, list, run_bind, run_get]
    dsimp only [CacheKey.inMemory, CacheKey.shown, CacheKey.what, CacheKey.reader, file]
    cases if cached = true then s.memory.list else none with
    | some v => rfl
    | none =>
      dsimp only
      rw [run_bind]
      cases (b.query "list" Listing.shape.read ["-list"] b.listFile cached).run.run s with
      | mk r s' => cases r <;> rfl
  | settings scheme =>
    rw [ask, settings, run_bind, run_get]
    dsimp only [CacheKey.inMemory, CacheKey.shown, CacheKey.what, CacheKey.reader, file]
    cases if cached = true then s.memory.settings.get? scheme else none with
    | some v => rfl
    | none =>
      dsimp only
      rw [run_bind]
      cases (b.query "showBuildSettings" SchemeSettings.reader ["-showBuildSettings", "-scheme", scheme]
        (b.settingsFile scheme) cached).run.run s with
      | mk r s' => cases r <;> rfl
  | index scheme => exact absurd rfl (hk scheme)

theorem index_uncached (b : Builder) (scheme : String) (s : Site) :
    (b.index scheme false).run.run s = b.renewed (.index scheme) s := by
  rw [index, if_neg (by simp), renewed, ← query_uncached, query, if_neg (by simp), run_bind, run_bind]
  dsimp only [CacheKey.shown, CacheKey.what, CacheKey.reader, file]
  cases (b.fetch ["-showBuildSettingsForIndex", "-scheme", scheme] (b.indexFile scheme) false).run.run s with
  | mk r s' =>
    cases r with
    | error e => rfl
    | ok data =>
      dsimp only
      rw [run_bind]
      cases (decode "settingsForIndex" IndexSettings.reader data : M _).run.run s' with
      | mk r s' => cases r <;> rfl

theorem index_cached (b : Builder) (scheme : String) (s : Site) :
    (b.index scheme true).run.run s =
      match s.memory.index.get? scheme with
      | some t => (.ok t, s)
      | none =>
        match b.saved (.index scheme) s with
        | some t => (.ok t, s.keeping (.index scheme) t)
        | none => (.ok .empty, s) := by
  have hsaved : ((readCache (b.indexFile scheme) s).bind fun data =>
      (decodeText IndexSettings.reader data).toOption) = b.saved (.index scheme) s := rfl
  rw [index, if_pos rfl, run_bind, run_get]
  dsimp only
  rw [hsaved]
  cases s.memory.index.get? scheme with
  | some t => rfl
  | none => cases b.saved (.index scheme) s <;> rfl

theorem ask_uncached (b : Builder) (k : CacheKey) (s : Site) :
    (b.ask k false).run.run s = b.renewed k s := by
  by_cases hk : ∃ scheme, k = .index scheme
  · obtain ⟨scheme, rfl⟩ := hk
    exact index_uncached b scheme s
  · rw [ask_run fun scheme h => hk ⟨scheme, h⟩, query_uncached]
    rfl

theorem ask_recalled {v : k.Value} (h : k.inMemory s.memory = some v) :
    (b.ask k true).run.run s = (.ok v, s) := by
  by_cases hk : ∃ scheme, k = .index scheme
  · obtain ⟨scheme, rfl⟩ := hk
    rw [ask, index_cached]
    dsimp only [CacheKey.inMemory] at h
    rw [h]
  · rw [ask_run fun scheme h => hk ⟨scheme, h⟩, if_pos rfl, h]

theorem ask_saved {v : k.Value} (h : k.inMemory s.memory = none) (hsaved : b.saved k s = some v) :
    (b.ask k true).run.run s = (.ok v, s.keeping k v) := by
  by_cases hk : ∃ scheme, k = .index scheme
  · obtain ⟨scheme, rfl⟩ := hk
    rw [ask, index_cached]
    dsimp only [CacheKey.inMemory] at h
    rw [h, hsaved]
  · rw [ask_run fun scheme h => hk ⟨scheme, h⟩, if_pos rfl, h, query_saved _ _ _ _ b hsaved]
    rfl

theorem index_unsaved {scheme : String} (h : s.memory.index.get? scheme = none)
    (hsaved : b.saved (.index scheme) s = none) :
    (b.ask (.index scheme) true).run.run s = (.ok (.empty : IndexSettings), s) := by
  rw [ask, index_cached, h, hsaved]

theorem ask_garbled {data : Bytes} (hk : ∀ scheme, k ≠ .index scheme) (h : k.inMemory s.memory = none)
    (hread : readCache (b.file k) s = some data) (hsaved : b.saved k s = none) :
    (b.ask k true).run.run s = b.renewed k s := by
  rw [saved, hread] at hsaved
  cases hdecode : decodeText k.reader data with
  | ok v => simp [hdecode, Except.toOption] at hsaved
  | error e => rw [ask_run hk, if_pos rfl, h, query_garbled k.what k.reader k.shown (b.file k) b hread hdecode, renewed]

theorem ask_unread (hk : ∀ scheme, k ≠ .index scheme) (h : k.inMemory s.memory = none)
    (hread : readCache (b.file k) s = none) :
    (b.ask k true).run.run s =
      match b.renewed k s with
      | (.ok v, s') => (.ok v, s')
      | (.error _, s') => b.renewed k s' := by
  rw [ask_run hk, if_pos rfl, h, query_unread k.what k.reader k.shown (b.file k) b hread, renewed]
  cases b.anew k.what k.reader k.shown (b.file k) s with
  | mk res s' => cases res <;> rfl

theorem ask_unsaved (hk : ∀ scheme, k ≠ .index scheme) (h : k.inMemory s.memory = none)
    (hsaved : b.saved k s = none) :
    (b.ask k true).run.run s = b.renewed k s ∨
      ∃ e s', b.renewed k s = (.error e, s') ∧ (b.ask k true).run.run s = b.renewed k s' := by
  cases hread : readCache (b.file k) s with
  | some data => exact .inl (ask_garbled hk h hread hsaved)
  | none =>
    rw [ask_unread hk h hread]
    cases b.renewed k s with
    | mk res s' =>
      cases res with
      | ok v => exact .inl rfl
      | error e => exact .inr ⟨e, s', rfl, rfl⟩

theorem ask_cases (b : Builder) (k : CacheKey) (cached : Bool) (s : Site) :
    (∃ v, (b.ask k cached).run.run s = (.ok v, s)) ∨
    (∃ v, b.saved k s = some v ∧ (b.ask k cached).run.run s = (.ok v, s.keeping k v)) ∨
    (b.ask k cached).run.run s = b.renewed k s ∨
    ∃ e s', b.renewed k s = (.error e, s') ∧ (b.ask k cached).run.run s = b.renewed k s' := by
  cases cached with
  | false => exact .inr (.inr (.inl (ask_uncached b k s)))
  | true =>
    cases h : k.inMemory s.memory with
    | some v => exact .inl ⟨v, ask_recalled h⟩
    | none =>
      cases hsaved : b.saved k s with
      | some v => exact .inr (.inl ⟨v, rfl, ask_saved h hsaved⟩)
      | none =>
        by_cases hk : ∃ scheme, k = .index scheme
        · obtain ⟨scheme, rfl⟩ := hk
          exact .inl ⟨.empty, index_unsaved h hsaved⟩
        · exact .inr (.inr (ask_unsaved (fun scheme h => hk ⟨scheme, h⟩) h hsaved))

theorem renewed_runs (b : Builder) (k : CacheKey) (s : Site) : s.runs <:+ (b.renewed k s).2.runs := by
  have course := b.renewal k s
  generalize b.renewed k s = result at course ⊢
  cases course with
  | refused shown e => exact List.suffix_refl _
  | failed e => exact List.suffix_cons _ _
  | garbled e => exact List.suffix_cons _ _
  | done v => exact List.suffix_cons _ _

theorem ask_runs (b : Builder) (k : CacheKey) (cached : Bool) (s : Site) :
    s.runs <:+ ((b.ask k cached).run.run s).2.runs := by
  obtain ⟨v, h⟩ | ⟨v, -, h⟩ | h | ⟨e, s', hfails, h⟩ := ask_cases b k cached s
  · exact h ▸ List.suffix_refl s.runs
  · exact h ▸ List.suffix_refl s.runs
  · rw [h]
    exact renewed_runs b k s
  · rw [h]
    have hfirst := renewed_runs b k s
    rw [hfails] at hfirst
    exact hfirst.trans (renewed_runs b k s')

theorem output_runs (b : Builder) (shown arguments : List String) (s : Site) :
    s.runs <:+ ((b.output shown arguments).run.run s).2.runs := by
  rw [output_run]
  cases b.refusal arguments s.files with
  | some e => exact List.suffix_refl _
  | none =>
    dsimp only
    split <;> exact List.suffix_cons _ _

theorem run_discard {α : Type} (x : M α) (s : Site) :
    (discard x : M Unit).run.run s = ((x.run.run s).1.map fun _ => (), (x.run.run s).2) := by
  change (((fun _ => ()) <$> x : M Unit).run.run s) = _
  rw [map_eq_pure_bind, run_bind]
  cases x.run.run s with
  | mk r s' => cases r <;> rfl

theorem warmup_runs (b : Builder) (scheme : String) (s : Site) :
    s.runs <:+ ((b.warmup scheme).run.run s).2.runs := by
  have hdiscard (arguments : List String) (s : Site) :
      s.runs <:+ ((discard (b.output arguments arguments) : M Unit).run.run s).2.runs := by
    rw [run_discard]
    exact output_runs b arguments arguments s
  rw [warmup, run_bind, run_tryCatch]
  have resolved := hdiscard ["-scheme", scheme, "-resolvePackageDependencies"] s
  generalize (discard (b.output _ _) : M Unit).run.run s = result at resolved ⊢
  obtain ⟨r, s'⟩ := result
  have built := hdiscard ["-scheme", scheme, "build", "CODE_SIGNING_ALLOWED=NO", "CODE_SIGNING_REQUIRED=NO"] s'
  -- The packages need not be resolved for the scheme to be built.
  cases r with
  | error e => exact resolved.trans built
  | ok _ => exact resolved.trans built

theorem probe_runs (b : Builder) (p : Probe) (s : Site) : s.runs <:+ (b.client.probe p s).2.runs := by
  cases p with
  | files => exact List.suffix_refl _
  | call c =>
    cases c with
    | list cached => exact ask_runs b .list cached s
    | index scheme cached => exact ask_runs b (.index scheme) cached s
    | settings scheme cached => exact ask_runs b (.settings scheme) cached s
    | warmup scheme => exact warmup_runs b scheme s

end Builder

end BuildServer
