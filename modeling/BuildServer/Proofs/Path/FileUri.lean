import BuildServer.Proofs.Path.Normal
import BuildServer.Proofs.Text.Percent

namespace BuildServer

namespace Path

theorem stacked_root {seen ps : List Part} (h : Stacked seen) (hroot : seen.reverse = .root :: ps) :
    ∃ names : List String, ps = names.map .name ∧ ∀ n ∈ names, (Part.name n).IsPiece := by
  obtain ⟨names, hnames, hseen | ⟨ups, hseen⟩⟩ := stacked_names h
  · rw [hroot] at hseen
    exact ⟨names, (List.cons.inj hseen).2, hnames⟩
  · have hmem : Part.root ∈ List.replicate ups .up ++ names.map .name := by simp [← hseen, hroot]
    simp at hmem

theorem isAbsolute_of_parts {path : String} {ps : List Part} (h : parts path = .root :: ps) :
    isAbsolute path = true := by
  cases habsolute : isAbsolute path with
  | true => rfl
  | false =>
    rw [parts, habsolute, if_neg Bool.false_ne_true] at h
    have hinner : Part.root ∈ (pieces '/' path.toList).filterMap partOf? := by
      split at h
      · cases h
      · rw [h]
        exact List.mem_cons_self
    obtain ⟨piece, hpiece, hpart⟩ := List.mem_filterMap.mp hinner
    rcases isPiece_of_piece hpiece hpart with hup | ⟨s, hname, -⟩
    · cases hup
    · cases hname

def segments (names : List String) : List (List Char) := names.map String.toList

theorem toList_ofNames {names : List String} (hne : names ≠ []) :
    (ofParts (.root :: names.map .name)).toList = (segments names).flatMap ('/' :: ·) := by
  have hjoin : ∀ n ns, '/' :: ['/'].intercalate (segments (n :: ns)) =
      (segments (n :: ns)).flatMap ('/' :: ·) := by
    intro n ns
    induction ns generalizing n with
    | nil => simp [segments]
    | cons m ms ih =>
      have hm := ih m
      simp only [segments, List.map_cons, List.intercalate_cons_cons, List.flatMap_cons] at hm ⊢
      rw [List.append_assoc, List.singleton_append, hm]
      rfl
  rw [ofParts, String.toList_append, toList_join, List.map_map]
  cases names with
  | nil => exact absurd rfl hne
  | cons n ns => exact hjoin n ns

theorem exists_names {path : String} (hnormal : normalize path = path)
    (habsolute : isAbsolute path = true) : ∃ names : List String,
      path = ofParts (.root :: names.map .name) ∧ parts path = .root :: names.map .name ∧
        ∀ n ∈ names, (Part.name n).IsPiece := by
  have stacked := stacked_parts path
  have hne : normalParts path ≠ [] := by
    intro hempty
    have hdot : path = "." := by rw [← hnormal, normalize, hempty]
    rw [hdot] at habsolute
    exact absurd habsolute (by decide)
  have hseen : (parts path).foldl push [] ≠ [] := by simpa [normalParts] using hne
  have hpath : ofParts (normalParts path) = path := by rw [← normalize_of_ne_nil hne, hnormal]
  have hparts : parts path = normalParts path := by
    have hback := parts_ofParts stacked hseen
    change parts (ofParts (normalParts path)) = normalParts path at hback
    rwa [hpath] at hback
  obtain ⟨ps, hroot⟩ : ∃ ps, normalParts path = .root :: ps := by
    rw [← hparts, parts, if_pos habsolute]
    exact ⟨_, rfl⟩
  obtain ⟨names, rfl, hnames⟩ := stacked_root stacked hroot
  exact ⟨names, by rw [← hroot, hpath], by rw [hparts, hroot], hnames⟩

theorem parts_segments {path : String} {segs : List (List Char)} (hne : segs ≠ [])
    (hslash : ∀ s ∈ segs, '/' ∉ s) (hpath : path.toList = segs.flatMap ('/' :: ·)) :
    parts path = .root :: segs.filterMap partOf? := by
  have habsolute : isAbsolute path = true := by
    rw [isAbsolute, hpath]
    cases segs with
    | nil => exact absurd rfl hne
    | cons s segs => rfl
  have hpieces : pieces '/' path.toList = [] :: segs := by
    rw [hpath]
    exact pieces_flatMap (p := []) List.not_mem_nil hslash
  rw [parts, if_pos habsolute, hpieces]
  rfl

theorem normalize_append_slash {path : String} (hnormal : normalize path = path)
    (habsolute : isAbsolute path = true) : normalize (path ++ "/") = path := by
  obtain ⟨names, hpath, hparts, hnames⟩ := exists_names hnormal habsolute
  suffices parts (path ++ "/") = parts path by
    rw [normalize, normalParts, this]
    exact hnormal
  by_cases hne : names = []
  · rw [hpath, hne]
    decide
  · have hslash : ∀ s ∈ segments names ++ [[]], '/' ∉ s := by
      intro s hs
      rcases List.mem_append.mp hs with hs | hs
      · obtain ⟨n, hn, rfl⟩ := List.mem_map.mp hs
        exact (hnames n hn).2
      · rw [List.mem_singleton.mp hs]
        exact List.not_mem_nil
    have htext : (path ++ "/").toList = (segments names ++ [[]]).flatMap ('/' :: ·) := by
      rw [String.toList_append, hpath, toList_ofNames hne, List.flatMap_append]
      rfl
    have hkept : (segments names).filterMap partOf? = names.map .name := by
      have hall : ∀ p ∈ names.map Part.name, p.IsPiece := by
        intro p hp
        obtain ⟨n, hn, rfl⟩ := List.mem_map.mp hp
        exact hnames n hn
      have htexts : (names.map Part.name).map (fun p => p.text.toList) = segments names := by
        rw [List.map_map]
        rfl
      rw [← htexts, filterMap_partOf? hall]
    rw [parts_segments (by simp) hslash htext, List.filterMap_append, hkept, hparts]
    simp [partOf?]

end Path

namespace FileUri

def byteText (b : UInt8) : List Char :=
  if isPlain b then [Char.ofNat b.toNat] else percentEscape b

theorem encodeSegment_eq (s : String) : encodeSegment s = (Utf8.encode s).flatMap byteText := rfl

theorem plain_range : ∀ n < 256, isPlain (UInt8.ofNat n) = true →
    n < 0x80 ∧ UInt8.ofNat n ≠ 0x25 ∧ Char.ofNat n ≠ '%' ∧ (Char.ofNat n = '.' → n = 0x2E) := by
  decide +kernel

theorem escapes_byteText (b : UInt8) : Escapes (Utf8.encodeChars (byteText b)) b := by
  unfold byteText
  split
  · next hplain =>
    rw [← UInt8.ofNat_toNat (x := b)] at hplain
    obtain ⟨hascii, hpercent, -⟩ := plain_range b.toNat b.toNat_lt hplain
    rw [UInt8.ofNat_toNat] at hpercent
    exact escapes_ascii hascii hpercent
  · exact escapes_percentEscape b

theorem decode_encodeSegment (s : String) :
    percentDecode (Utf8.encodeChars (encodeSegment s)) = Utf8.encode s := by
  rw [encodeSegment_eq, percentDecode_flatMap escapes_byteText]

def Kept (c : Char) : Prop := ' ' < c ∧ c ≠ '\\' ∧ c ≠ '?' ∧ c ≠ '#'

instance (c : Char) : Decidable (Kept c) := inferInstanceAs (Decidable (_ ∧ _))

def Inner (c : Char) : Prop := Kept c ∧ c ≠ '/'

instance (c : Char) : Decidable (Inner c) := inferInstanceAs (Decidable (_ ∧ _))

theorem inner_byteText : ∀ n < 256, (byteText (UInt8.ofNat n)).all (Inner ·) := by
  decide +kernel

theorem inner_encodeSegment {s : String} {c : Char} (hc : c ∈ encodeSegment s) : Inner c := by
  obtain ⟨b, -, hb⟩ := List.mem_flatMap.mp hc
  rw [← UInt8.ofNat_toNat (x := b)] at hb
  exact of_decide_eq_true (List.all_eq_true.mp (inner_byteText b.toNat b.toNat_lt) c hb)

theorem escaped_digits : ∀ n < 256, isPlain (UInt8.ofNat n) = false →
    ¬(upperHexDigit (n / 16) = '2' ∧
      (upperHexDigit (n % 16) = 'e' ∨ upperHexDigit (n % 16) = 'E')) := by
  decide +kernel

theorem count_byteText {b : UInt8} (hb : b ≠ 0x2E) (rest : List Char) :
    dots.count (byteText b ++ rest) = none := by
  have hn : UInt8.ofNat b.toNat = b := UInt8.ofNat_toNat
  unfold byteText
  split
  · next hplain =>
    obtain ⟨-, -, hpercent, hdot⟩ := plain_range b.toNat b.toNat_lt (by rwa [hn])
    have hne : Char.ofNat b.toNat ≠ '.' := by
      intro hc
      apply hb
      rw [← hn, hdot hc]
      rfl
    rw [List.singleton_append]
    unfold dots.count
    split <;> simp_all
  · next hescaped =>
    have hdigits := escaped_digits b.toNat b.toNat_lt (by rwa [hn, ← Bool.not_eq_true])
    simp only [percentEscape, List.cons_append, List.nil_append]
    unfold dots.count
    split <;> simp_all

theorem dots_of_count {bytes : Bytes} {k : Nat} (h : dots.count (bytes.flatMap byteText) = some k) :
    bytes = List.replicate k 0x2E := by
  induction bytes generalizing k with
  | nil =>
    obtain rfl : 0 = k := Option.some.inj h
    rfl
  | cons b bytes ih =>
    rw [List.flatMap_cons] at h
    by_cases hb : b = 0x2E
    · have hdot : byteText 0x2E = ['.'] := by decide
      rw [hb, hdot, List.singleton_append, dots.count, Option.map_eq_some_iff] at h
      obtain ⟨j, hj, rfl⟩ := h
      rw [hb, ih hj, List.replicate_succ]
    · rw [count_byteText hb] at h
      cases h

theorem dots_encodeSegment {n : String} (h : (Path.Part.name n).IsPiece) :
    dots (encodeSegment n) = none := by
  have hname (k : Nat) (hk : dots.count (encodeSegment n) = some k) :
      n = Utf8.decodeLossy (List.replicate k 0x2E) := by
    rw [← dots_of_count hk, Utf8.decodeLossy_encode]
  unfold dots
  split
  · next hk =>
    obtain rfl := hname 1 hk
    exact absurd h.1 (by decide +kernel)
  · next hk =>
    obtain rfl := hname 2 hk
    exact absurd h.1 (by decide +kernel)
  · rfl

theorem encodeSegment_ne_nil {n : String} (h : (Path.Part.name n).IsPiece) : encodeSegment n ≠ [] := by
  intro hempty
  have hbytes := decode_encodeSegment n
  rw [hempty] at hbytes
  have hn : n = Utf8.decodeLossy (percentDecode (Utf8.encodeChars [])) := by
    rw [hbytes, Utf8.decodeLossy_encode]
  rw [hn] at h
  exact absurd h.1 (by decide +kernel)

theorem resolve_of_dots {segs : List (List Char)} (hne : segs ≠ []) (h : ∀ s ∈ segs, dots s = none)
    (seen : List (List Char)) : resolve seen segs = seen.reverse ++ segs := by
  induction segs generalizing seen with
  | nil => exact absurd rfl hne
  | cons s rest ih =>
    have hs := h s List.mem_cons_self
    cases rest with
    | nil => simp [resolve, hs]
    | cons t rest =>
      have hrest := ih (List.cons_ne_nil _ _) (fun r hr => h r (List.mem_cons_of_mem _ hr)) (s :: seen)
      simp [resolve, hs, hrest]

theorem clean_eq {uri : String} (h : ∀ c ∈ uri.toList, ' ' < c) : clean uri = uri.toList := by
  have hkeep : ∀ cs : List Char, (∀ c ∈ cs, ' ' < c) → cs.dropWhile (· ≤ ' ') = cs := by
    intro cs hcs
    cases cs with
    | nil => rfl
    | cons c cs =>
      have hc := hcs c List.mem_cons_self
      rw [List.dropWhile_cons_of_neg (by simpa using hc)]
  have hreverse : ∀ c ∈ uri.toList.reverse, ' ' < c := by simpa using h
  rw [clean, hkeep _ h, hkeep _ hreverse, List.reverse_reverse]
  apply List.filter_eq_self.mpr
  intro c hc
  have hlt := h c hc
  have ht : c ≠ '\t' := by
    rintro rfl
    exact absurd hlt (by decide)
  have hn : c ≠ '\n' := by
    rintro rfl
    exact absurd hlt (by decide)
  have hr : c ≠ '\r' := by
    rintro rfl
    exact absurd hlt (by decide)
  simp [ht, hn, hr]

theorem afterScheme?_file (text : List Char) :
    afterScheme? ("file:".toList ++ text) = some text := by
  have hcut : cutAt ':' ("file".toList ++ ':' :: text) = some ("file".toList, text) :=
    cutAt_append (by decide) text
  have htext : "file:".toList ++ text = "file".toList ++ ':' :: text := rfl
  rw [afterScheme?, htext, hcut]
  rfl

theorem kept_text {segs : List (List Char)} (h : ∀ s ∈ segs, ∀ c ∈ s, Inner c) {c : Char}
    (hc : c ∈ segs.flatMap ('/' :: ·)) : Kept c := by
  obtain ⟨s, hs, hc⟩ := List.mem_flatMap.mp hc
  rcases List.mem_cons.mp hc with rfl | hc
  · decide
  · exact (h s hs c hc).1

section

variable {text : List Char} (kept : ∀ c ∈ text, Kept c)
include kept

theorem clean_file : clean ("file:" ++ String.ofList text) = "file:".toList ++ text := by
  have hchars : ("file:" ++ String.ofList text).toList = "file:".toList ++ text := by
    rw [String.toList_append, String.toList_ofList (l := text)]
  have hscheme : "file:".toList.all (' ' < ·) := by decide
  rw [clean_eq, hchars]
  intro c hc
  rw [hchars] at hc
  rcases List.mem_append.mp hc with hc | hc
  · exact of_decide_eq_true (List.all_eq_true.mp hscheme c hc)
  · exact (kept c hc).1

theorem takeWhile_kept : text.takeWhile (fun c => c != '?' && c != '#') = text := by
  have hall : ∀ c ∈ text, (c != '?' && c != '#') = true := by
    intro c hc
    obtain ⟨-, -, hquery, hfragment⟩ := kept c hc
    simp [hquery, hfragment]
  rw [← List.append_nil text, List.takeWhile_append_of_pos hall]
  rfl

theorem map_kept : text.map (fun c => if c = '\\' then '/' else c) = text := by
  have hsame : ∀ c ∈ text, (if c = '\\' then '/' else c) = id c := by
    intro c hc
    exact if_neg (kept c hc).2.1
  rw [List.map_congr_left hsame, List.map_id]

end

theorem pathBytes?_segments {segs kept : List (List Char)} (hne : segs ≠ [])
    (hinner : ∀ s ∈ segs, ∀ c ∈ s, Inner c) (hresolve : resolve [] segs = kept) (hsome : kept ≠ [])
    (hfilled : ∀ s ∈ kept, s ≠ []) : ∃ tail, (tail = [] ∨ tail = [0x2F]) ∧
      pathBytes? ("file://" ++ String.ofList (segs.flatMap ('/' :: ·))) =
        some (kept.flatMap (fun s => 0x2F :: percentDecode (Utf8.encodeChars s)) ++ tail) := by
  have hslash : ∀ s ∈ segs, '/' ∉ s := fun s hs hc => (hinner s hs '/' hc).2 rfl
  cases segs with
  | nil => exact absurd rfl hne
  | cons s rest =>
    let body := s ++ rest.flatMap ('/' :: ·)
    let text := '/' :: '/' :: '/' :: body
    have hkept : ∀ c ∈ text, Kept c := by
      intro c hc
      rcases List.mem_cons.mp hc with rfl | hc
      · decide
      rcases List.mem_cons.mp hc with rfl | hc
      · decide
      · exact kept_text hinner hc
    have huri : "file://" ++ String.ofList ('/' :: body) = "file:" ++ String.ofList text := by
      apply String.toList_inj.mp
      rw [String.toList_append, String.toList_append, String.toList_ofList (l := '/' :: body),
        String.toList_ofList (l := text)]
      rfl
    have hhead : ('/' :: body).takeWhile (fun c => c != '/') = [] := rfl
    have hbody : ('/' :: body).dropWhile (fun c => c != '/') = '/' :: body := rfl
    have hpieces : pieces '/' body = s :: rest :=
      pieces_flatMap (hslash s List.mem_cons_self) fun r hr => hslash r (List.mem_cons_of_mem _ hr)
    have hhost : (Utf8.decodeLossy (percentDecode (Utf8.encodeChars []))).toList.map Char.toLower = [] := by
      decide +kernel
    have hnone : isDrive [] = false := rfl
    change ∃ tail, _ ∧ pathBytes? ("file://" ++ String.ofList ('/' :: body)) = _
    cases kept with
    | nil => exact absurd rfl hsome
    | cons k ks =>
      have hdrop : (k :: ks).dropWhile List.isEmpty = k :: ks :=
        List.dropWhile_cons_of_neg (by simpa using hfilled k List.mem_cons_self)
      unfold pathBytes?
      rw [huri, clean_file hkept, afterScheme?_file]
      simp only [Option.bind_eq_bind, Option.bind_some, takeWhile_kept hkept, map_kept hkept]
      simp only [text, hhead, hbody, hnone, hpieces, hresolve, hhost, hdrop, List.isEmpty_nil,
        Bool.true_or, if_true, Bool.false_eq_true, if_false]
      split
      · split
        · exact ⟨[0x2F], .inr rfl, rfl⟩
        · exact ⟨[], .inl rfl, by rw [List.append_nil]⟩
      · exact ⟨[], .inl rfl, by rw [List.append_nil]⟩

theorem encode_ofNames {names : List String} (hne : names ≠ []) :
    Utf8.encode (Path.ofParts (.root :: names.map .name)) =
      names.flatMap fun n => 0x2F :: Utf8.encode n := by
  rw [Utf8.encode, Path.toList_ofNames hne, Path.segments, List.flatMap_map, Utf8.encodeChars,
    List.flatMap_assoc]
  rfl

theorem ofPath?_ofNames {path : String} {names : List String} (hne : names ≠ [])
    (hparts : Path.parts path = .root :: names.map .name) : ofPath? path =
      some ("file://" ++ String.ofList ((names.map encodeSegment).flatMap ('/' :: ·))) := by
  rw [ofPath?, hparts]
  cases names with
  | nil => exact absurd rfl hne
  | cons n names =>
    simp only [List.map_cons, List.flatMap_cons, List.flatMap_map]
    rfl

theorem isAbsolute_of_ofPath? {path uri : String} (h : ofPath? path = some uri) :
    Path.isAbsolute path = true := by
  unfold ofPath? at h
  split at h
  · exact Path.isAbsolute_of_parts ‹_›
  · exact Path.isAbsolute_of_parts ‹_›
  · cases h

theorem path?_of_resolve {segs : List (List Char)} {names : List String}
    (hinner : ∀ s ∈ segs, ∀ c ∈ s, Inner c) (hne : names ≠ [])
    (hnames : ∀ n ∈ names, (Path.Part.name n).IsPiece)
    (hresolve : resolve [] segs = names.map encodeSegment) {path : String}
    (hpath : path = Path.ofParts (.root :: names.map .name)) :
    path? ("file://" ++ String.ofList (segs.flatMap ('/' :: ·))) = some path ∨
      path? ("file://" ++ String.ofList (segs.flatMap ('/' :: ·))) = some (path ++ "/") := by
  have hsegs : segs ≠ [] := by
    rintro rfl
    cases names with
    | nil => exact hne rfl
    | cons n names =>
      obtain ⟨hempty, -⟩ := List.cons.inj hresolve
      exact encodeSegment_ne_nil (hnames n List.mem_cons_self) hempty.symm
  have hfilled : ∀ s ∈ names.map encodeSegment, s ≠ [] := by
    intro s hs
    obtain ⟨n, hn, rfl⟩ := List.mem_map.mp hs
    exact encodeSegment_ne_nil (hnames n hn)
  obtain ⟨tail, htail, hbytes⟩ := pathBytes?_segments hsegs hinner hresolve (by simpa using hne) hfilled
  have hdecoded : ((names.map encodeSegment).flatMap fun s => 0x2F :: percentDecode (Utf8.encodeChars s)) =
      names.flatMap fun n => 0x2F :: Utf8.encode n := by
    rw [List.flatMap_map]
    simp only [decode_encodeSegment]
  rw [hdecoded, ← encode_ofNames hne, ← hpath] at hbytes
  rw [path?, hbytes, Option.map_some]
  rcases htail with rfl | rfl
  · left
    rw [List.append_nil, Utf8.decodeLossy_encode]
  · right
    have hslash : Utf8.encode path ++ [0x2F] = Utf8.encode (path ++ "/") := by
      rw [Utf8.encode, Utf8.encode, String.toList_append, Utf8.encodeChars, Utf8.encodeChars,
        List.flatMap_append]
      rfl
    rw [hslash, Utf8.decodeLossy_encode]

theorem path?_ofPath? {path uri : String} (hnormal : Path.normalize path = path)
    (huri : ofPath? path = some uri) : path? uri = some path ∨ path? uri = some (path ++ "/") := by
  obtain ⟨names, hpath, hparts, hnames⟩ := Path.exists_names hnormal (isAbsolute_of_ofPath? huri)
  by_cases hne : names = []
  · rw [hne] at hpath hparts
    rw [ofPath?, hparts] at huri
    obtain rfl := Option.some.inj huri
    rw [hpath]
    decide +kernel
  · rw [ofPath?_ofNames hne hparts] at huri
    obtain rfl := Option.some.inj huri
    refine path?_of_resolve ?_ hne hnames (resolve_of_dots (by simpa using hne) ?_ []) hpath
    · intro s hs c hc
      obtain ⟨n, -, rfl⟩ := List.mem_map.mp hs
      exact inner_encodeSegment hc
    · intro s hs
      obtain ⟨n, hn, rfl⟩ := List.mem_map.mp hs
      exact dots_encodeSegment (hnames n hn)

theorem normalize_path?_ofPath? {path uri : String} (hnormal : Path.normalize path = path)
    (huri : ofPath? path = some uri) : (path? uri).map Path.normalize = some path := by
  have habsolute := isAbsolute_of_ofPath? huri
  rcases path?_ofPath? hnormal huri with h | h
  · rw [h, Option.map_some, hnormal]
  · rw [h, Option.map_some, Path.normalize_append_slash hnormal habsolute]

end FileUri

end BuildServer
