import BuildServer.Proofs.Build.Keys

namespace BuildServer

theorem hexDigit_ne_slash : ∀ n < 16, hexDigit n ≠ '/' := by
  decide

theorem not_mem_hexOf (bytes : Bytes) : '/' ∉ (hexOf bytes).toList := by
  rw [hexOf, String.toList_ofList, List.mem_flatMap]
  rintro ⟨b, -, h⟩
  simp only [List.mem_cons, List.not_mem_nil, or_false] at h
  rcases h with h | h
  · exact hexDigit_ne_slash _ (by have := b.toNat_lt; omega) h.symm
  · exact hexDigit_ne_slash _ (Nat.mod_lt _ (by decide)) h.symm

theorem length_sha256Hex (bytes : Bytes) : (sha256Hex bytes).toList.length = 64 := by
  rw [sha256Hex, hexOf, String.toList_ofList, Sha256.digest]
  simp [Sha256.State.words]

namespace CacheKey

def scheme? : CacheKey → Option String
  | list => none
  | settings scheme => some scheme
  | index scheme => some scheme

def tail : CacheKey → String
  | list => "list.json"
  | settings _ => "-settings.json"
  | index _ => "-settingsForIndex.json"

def ending (k : CacheKey) : String := k.scheme?.elim "" Builder.token ++ k.tail

def kind : CacheKey → Nat
  | list => 0
  | settings _ => 1
  | index _ => 2

theorem kind_eq_of_ending {k k' : CacheKey} (h : k.ending = k'.ending) : k.kind = k'.kind := by
  have hlast (k : CacheKey) : k.ending.toList.reverse.take 6 = k.tail.toList.reverse.take 6 := by
    have hlength : 6 ≤ k.tail.toList.reverse.length := by cases k <;> simp [tail]
    rw [ending, String.toList_append, List.reverse_append, List.take_append_of_le_length hlength]
  have htail : k.tail.toList.reverse.take 6 = k'.tail.toList.reverse.take 6 := by
    rw [← hlast, ← hlast, h]
  cases k with
  | list => cases k' <;> simp_all [tail, kind]
  | settings scheme => cases k' <;> simp_all [tail, kind]
  | index scheme => cases k' <;> simp_all [tail, kind]

end CacheKey

namespace Builder

variable {b : Builder} {k k' : CacheKey} {scheme scheme' : String}

def sanitized (scheme : String) : String :=
  String.ofList (scheme.toList.map fun c => if c = ' ' ∨ c = '/' then '_' else c)

def mark (scheme : String) : String :=
  String.ofList ((sha256Hex (Utf8.encode scheme)).toList.take 8)

theorem token_eq (scheme : String) : token scheme = sanitized scheme ++ "-" ++ mark scheme := rfl

theorem length_mark (scheme : String) : (mark scheme).toList.length = 8 := by
  rw [mark, String.toList_ofList, List.length_take, length_sha256Hex]
  decide

theorem not_mem_token (scheme : String) : '/' ∉ (token scheme).toList := by
  rw [token_eq, String.toList_append, String.toList_append, List.mem_append, List.mem_append]
  rintro ((h | h) | h)
  · rw [sanitized, String.toList_ofList, List.mem_map] at h
    obtain ⟨c, -, hc⟩ := h
    split at hc
    · exact absurd hc (by decide)
    · next hne => exact hne (.inr hc)
  · exact absurd h (by decide)
  · rw [mark, String.toList_ofList] at h
    exact not_mem_hexOf _ (List.mem_of_mem_take h)

theorem token_inj (h : token scheme = token scheme') :
    sanitized scheme = sanitized scheme' ∧ mark scheme = mark scheme' := by
  have hlist := congrArg String.toList h
  simp only [token_eq, String.toList_append] at hlist
  obtain ⟨hfirst, hmark⟩ := List.append_inj' hlist ((length_mark _).trans (length_mark _).symm)
  exact ⟨String.toList_inj.mp (List.append_cancel_right hfirst), String.toList_inj.mp hmark⟩

theorem file_eq (b : Builder) (k : CacheKey) : b.file k = b.cacheFile k.ending := by
  cases k with
  | list => rfl
  | settings scheme => rfl
  | index scheme => rfl

theorem not_mem_ending (k : CacheKey) : '/' ∉ k.ending.toList := by
  have htail : '/' ∉ k.tail.toList := by cases k <;> simp [CacheKey.tail]
  rw [CacheKey.ending, String.toList_append, List.mem_append, not_or]
  refine ⟨?_, htail⟩
  cases k.scheme? with
  | none => simp
  | some scheme => exact not_mem_token scheme

theorem not_mem_cacheName (b : Builder) : '/' ∉ b.cacheName.toList := by
  rw [cacheName, String.toList_append, String.toList_append, List.mem_append, List.mem_append]
  rintro ((h | h) | h)
  · cases hname : Path.fileName? b.root with
    | none => simp [hname] at h
    | some name => exact Path.not_mem_fileName hname (by simpa [hname] using h)
  · exact absurd h (by decide)
  · rw [String.toList_ofList] at h
    exact not_mem_hexOf _ (List.mem_of_mem_take h)

def fileName (b : Builder) (k : CacheKey) : String := b.cacheName ++ "-" ++ k.ending

theorem not_mem_fileName (b : Builder) (k : CacheKey) : '/' ∉ (b.fileName k).toList := by
  rw [fileName, String.toList_append, String.toList_append, List.mem_append, List.mem_append, not_or, not_or]
  exact ⟨⟨not_mem_cacheName b, by decide⟩, not_mem_ending k⟩

theorem fileName_ne {name : String} (b : Builder) (k : CacheKey) (h : '-' ∉ name.toList) :
    b.fileName k ≠ name := by
  rintro rfl
  simp [fileName] at h

theorem fileName_inj (h : b.fileName k = b.fileName k') : k.ending = k'.ending := by
  have hlist := congrArg String.toList h
  simp only [fileName, String.toList_append] at hlist
  exact String.toList_inj.mp (List.append_cancel_left hlist)

theorem file_eq_join (b : Builder) (k : CacheKey) : b.file k = Path.join b.cacheDir (b.fileName k) := by
  rw [file_eq, cacheFile, fileName]

theorem names_file (b : Builder) (k : CacheKey) :
    Path.names (b.file k) = Path.names b.cacheDir ++ [b.fileName k] := by
  rw [file_eq_join]
  exact Path.names_join_name (not_mem_fileName b k) (fileName_ne b k (by decide))

def directory (b : Builder) : String :=
  if (Path.ofParts (Path.parts b.cacheDir)).isEmpty then "." else Path.ofParts (Path.parts b.cacheDir)

theorem parent?_file (b : Builder) (k : CacheKey) :
    Path.parent? (b.file k) = some (Path.ofParts (Path.parts b.cacheDir)) := by
  rw [file_eq_join]
  exact Path.parent?_join_name (not_mem_fileName b k) (fileName_ne b k (by decide)) (fileName_ne b k (by decide))
    (fileName_ne b k (by decide))

theorem directoryOf_file (b : Builder) (k : CacheKey) : FileM.directoryOf (b.file k) = b.directory := by
  rw [FileM.directoryOf, parent?_file, directory]

theorem ending_inj (h : k.ending = k'.ending)
    (apart : ∀ x ∈ k.scheme?, ∀ y ∈ k'.scheme?, sanitized x = sanitized y → mark x = mark y → x = y) :
    k = k' := by
  have hkind := CacheKey.kind_eq_of_ending h
  have hscheme {x y : String} (hx : k.scheme? = some x) (hy : k'.scheme? = some y)
      (htail : k.tail = k'.tail) : x = y := by
    rw [CacheKey.ending, CacheKey.ending, hx, hy, htail] at h
    have htoken : token x = token y := by
      have hlist := congrArg String.toList h
      simp only [Option.elim, String.toList_append] at hlist
      exact String.toList_inj.mp (List.append_cancel_right hlist)
    exact apart x hx y hy (token_inj htoken).1 (token_inj htoken).2
  cases k with
  | list =>
    cases k' with
    | list => rfl
    | settings scheme' => cases hkind
    | index scheme' => cases hkind
  | settings scheme =>
    cases k' with
    | list => cases hkind
    | settings scheme' => rw [hscheme rfl rfl rfl]
    | index scheme' => cases hkind
  | index scheme =>
    cases k' with
    | list => cases hkind
    | settings scheme' => cases hkind
    | index scheme' => rw [hscheme rfl rfl rfl]

end Builder

end BuildServer
