import BuildServer.Text.Utf8

namespace BuildServer.Utf8

theorem first_lead_two : ∀ n < 32, 2 ≤ n →
    first (UInt8.ofNat (n + 0xC0)) = .begin_ ⟨n, 0x80, 0xBF, 1⟩ := by
  decide

theorem first_lead_three : ∀ n < 16, first (UInt8.ofNat (n + 0xE0)) =
    .begin_ ⟨n, if n = 0 then 0xA0 else 0x80, if n = 13 then 0x9F else 0xBF, 2⟩ := by
  decide

theorem first_lead_four : ∀ n < 5, first (UInt8.ofNat (n + 0xF0)) =
    .begin_ ⟨n, if n = 0 then 0x90 else 0x80, if n = 4 then 0x8F else 0xBF, 3⟩ := by
  decide

theorem scanFrom_last {low high b : UInt8} (hlow : low ≤ b) (hhigh : b ≤ high)
    (seen : List (Option Char)) (value : Nat) (rest : Bytes) :
    scanFrom seen (some ⟨value, low, high, 1⟩) (b :: rest) =
      scanFrom (some (Char.ofNat (value * 64 + (b.toNat - 0x80))) :: seen) none rest := by
  simp [scanFrom, Begun.next, hlow, hhigh]

theorem scanFrom_inner {low high b : UInt8} (hlow : low ≤ b) (hhigh : b ≤ high)
    (seen : List (Option Char)) (value owed : Nat) (rest : Bytes) :
    scanFrom seen (some ⟨value, low, high, owed + 2⟩) (b :: rest) =
      scanFrom seen (some ⟨value * 64 + (b.toNat - 0x80), 0x80, 0xBF, owed + 1⟩) rest := by
  simp [scanFrom, Begun.next, hlow, hhigh]

theorem toNat_tail {n : Nat} (hn : n < 64) : (UInt8.ofNat (n + 0x80)).toNat = n + 0x80 := by
  rw [UInt8.toNat_ofNat']
  omega

theorem tail_range : ∀ n < 64,
    0x80 ≤ UInt8.ofNat (n + 0x80) ∧ UInt8.ofNat (n + 0x80) ≤ 0xBF := by
  decide

theorem second_of_three : ∀ m < 16, ∀ n < 64, (m = 0 → 32 ≤ n) → (m = 13 → n < 32) →
    (if m = 0 then 0xA0 else 0x80) ≤ UInt8.ofNat (n + 0x80) ∧
      UInt8.ofNat (n + 0x80) ≤ if m = 13 then 0x9F else 0xBF := by
  decide +kernel

theorem second_of_four : ∀ m < 5, ∀ n < 64, (m = 0 → 16 ≤ n) → (m = 4 → n < 16) →
    (if m = 0 then 0x90 else 0x80) ≤ UInt8.ofNat (n + 0x80) ∧
      UInt8.ofNat (n + 0x80) ≤ if m = 4 then 0x8F else 0xBF := by
  decide +kernel

theorem scanFrom_two {v : Nat} (hlow : 0x80 ≤ v) (hhigh : v < 0x800) (seen : List (Option Char))
    (rest : Bytes) :
    scanFrom seen none (UInt8.ofNat (v / 64 % 32 + 0xC0) :: UInt8.ofNat (v % 64 + 0x80) :: rest) =
      scanFrom (some (Char.ofNat v) :: seen) none rest := by
  have hlast : v % 64 < 64 := by omega
  have hv : v / 64 % 32 * 64 + v % 64 = v := by omega
  rw [scanFrom, first_lead_two _ (by omega) (by omega)]
  dsimp only
  rw [scanFrom_last (tail_range _ hlast).1 (tail_range _ hlast).2, toNat_tail hlast,
    Nat.add_sub_cancel, hv]

theorem scanFrom_three {v : Nat} (hlow : 0x800 ≤ v) (hhigh : v < 0x10000)
    (hvalid : v < 0xD800 ∨ 0xDFFF < v) (seen : List (Option Char)) (rest : Bytes) :
    scanFrom seen none (UInt8.ofNat (v / 4096 % 16 + 0xE0) :: UInt8.ofNat (v / 64 % 64 + 0x80) ::
        UInt8.ofNat (v % 64 + 0x80) :: rest) =
      scanFrom (some (Char.ofNat v) :: seen) none rest := by
  have hlast : v % 64 < 64 := by omega
  have hmid : v / 64 % 64 < 64 := by omega
  have hv : (v / 4096 % 16 * 64 + v / 64 % 64) * 64 + v % 64 = v := by omega
  have hsecond := second_of_three (v / 4096 % 16) (by omega) _ hmid (by omega) (by omega)
  rw [scanFrom, first_lead_three _ (by omega)]
  dsimp only
  rw [scanFrom_inner hsecond.1 hsecond.2, toNat_tail hmid,
    scanFrom_last (tail_range _ hlast).1 (tail_range _ hlast).2, toNat_tail hlast,
    Nat.add_sub_cancel, Nat.add_sub_cancel, hv]

theorem scanFrom_four {v : Nat} (hlow : 0x10000 ≤ v) (hhigh : v < 0x110000)
    (seen : List (Option Char)) (rest : Bytes) :
    scanFrom seen none (UInt8.ofNat (v / 262144 % 8 + 0xF0) :: UInt8.ofNat (v / 4096 % 64 + 0x80) ::
        UInt8.ofNat (v / 64 % 64 + 0x80) :: UInt8.ofNat (v % 64 + 0x80) :: rest) =
      scanFrom (some (Char.ofNat v) :: seen) none rest := by
  have hlast : v % 64 < 64 := by omega
  have hmid : v / 64 % 64 < 64 := by omega
  have hsecond : v / 4096 % 64 < 64 := by omega
  have hv : ((v / 262144 % 8 * 64 + v / 4096 % 64) * 64 + v / 64 % 64) * 64 + v % 64 = v := by
    omega
  have hrange := second_of_four (v / 262144 % 8) (by omega) _ hsecond (by omega) (by omega)
  rw [scanFrom, first_lead_four _ (by omega)]
  dsimp only
  rw [scanFrom_inner hrange.1 hrange.2, toNat_tail hsecond,
    scanFrom_inner (tail_range _ hmid).1 (tail_range _ hmid).2, toNat_tail hmid,
    scanFrom_last (tail_range _ hlast).1 (tail_range _ hlast).2, toNat_tail hlast]
  simp only [Nat.add_sub_cancel]
  rw [hv]

theorem scanFrom_char (seen : List (Option Char)) (c : Char) (rest : Bytes) :
    scanFrom seen none (String.utf8EncodeChar c ++ rest) = scanFrom (some c :: seen) none rest := by
  have hvalid : c.val.toNat < 0xD800 ∨ 0xDFFF < c.val.toNat ∧ c.val.toNat < 0x110000 := c.valid
  have hc : Char.ofNat c.val.toNat = c := Char.ofNat_toNat c
  unfold String.utf8EncodeChar
  generalize c.val.toNat = v at hvalid hc
  subst hc
  change scanFrom seen none ((if v ≤ 0x7f then _ else _) ++ rest) = _
  split
  · have hb : (UInt8.ofNat v).toNat = v := by
      rw [UInt8.toNat_ofNat']
      omega
    have hv : v < 0x80 := by omega
    simp [scanFrom, first, hb, hv]
  split
  · exact scanFrom_two (by omega) (by omega) seen rest
  split
  · exact scanFrom_three (by omega) (by omega) (by omega) seen rest
  · exact scanFrom_four (by omega) (by omega) seen rest

theorem encodeChars_append (cs ds : List Char) :
    encodeChars (cs ++ ds) = encodeChars cs ++ encodeChars ds :=
  List.flatMap_append

theorem scanFrom_encodeChars (cs : List Char) (seen : List (Option Char)) :
    scanFrom seen none (encodeChars cs) = seen.reverse ++ cs.map some := by
  induction cs generalizing seen with
  | nil => simp [encodeChars, scanFrom]
  | cons c cs ih =>
    have hstep : encodeChars (c :: cs) = String.utf8EncodeChar c ++ encodeChars cs := rfl
    rw [hstep, scanFrom_char, ih]
    simp

theorem scan_encodeChars (cs : List Char) : scan (encodeChars cs) = cs.map some := by
  rw [scan, scanFrom_encodeChars, List.reverse_nil, List.nil_append]

theorem decodeChars?_encodeChars (cs : List Char) : decodeChars? (encodeChars cs) = some cs := by
  simp [decodeChars?, scan_encodeChars, List.filterMap_map]

theorem decode?_encode (s : String) : decode? (encode s) = some s := by
  rw [decode?, encode, decodeChars?_encodeChars, Option.map_some, String.ofList_toList]

theorem decodeLossy_encode (s : String) : decodeLossy (encode s) = s := by
  have hchars : (s.toList.map some).map (·.getD '\uFFFD') = s.toList := by
    rw [List.map_map]
    exact List.map_id s.toList
  rw [decodeLossy, encode, scan_encodeChars, hchars, String.ofList_toList]

theorem le_of_mem_utf8EncodeChar {c : Char} (hc : 0x80 ≤ c.toNat) {b : UInt8}
    (hb : b ∈ String.utf8EncodeChar c) : 0x80 ≤ b.toNat := by
  have hv : 0x80 ≤ c.val.toNat := hc
  unfold String.utf8EncodeChar at hb
  generalize c.val.toNat = v at hv hb
  change b ∈ (if v ≤ 0x7f then _ else _) at hb
  rw [if_neg (by omega)] at hb
  split at hb
  · rcases (by simpa using hb) with rfl | rfl <;> simp <;> omega
  split at hb
  · rcases (by simpa using hb) with rfl | rfl | rfl <;> simp <;> omega
  · rcases (by simpa using hb) with rfl | rfl | rfl | rfl <;> simp <;> omega

theorem utf8EncodeChar_ascii {c : Char} (hc : c.toNat < 0x80) :
    String.utf8EncodeChar c = [UInt8.ofNat c.toNat] := by
  simp [String.utf8EncodeChar, Nat.le_of_lt_succ hc]

section Sound

theorem mem_scanFrom {x : Option Char} {seen : List (Option Char)} {begun : Option Begun} {bytes : Bytes}
    (h : x ∈ seen) : x ∈ scanFrom seen begun bytes := by
  fun_induction scanFrom seen begun bytes <;> simp_all

theorem scanFrom_begun {seen : List (Option Char)} {value owed : Nat} {low high : UInt8} {bytes : Bytes}
    (hl : 0x80 ≤ low.toNat) (hh : high.toNat ≤ 0xBF)
    (h : none ∉ scanFrom seen (some ⟨value, low, high, owed⟩) bytes) :
    ∃ n < 64, ∃ rest, bytes = UInt8.ofNat (n + 0x80) :: rest ∧ low.toNat ≤ n + 0x80 ∧ n + 0x80 ≤ high.toNat ∧
      none ∉ if owed ≤ 1 then scanFrom (some (Char.ofNat (value * 64 + n)) :: seen) none rest
        else scanFrom seen (some ⟨value * 64 + n, 0x80, 0xBF, owed - 1⟩) rest := by
  cases bytes with
  | nil => simp [scanFrom] at h
  | cons b rest =>
    by_cases hrange : low ≤ b ∧ b ≤ high
    · have hlow : low.toNat ≤ b.toNat := hrange.1
      have hhigh : b.toNat ≤ high.toNat := hrange.2
      refine ⟨b.toNat - 0x80, by omega, rest, ?_, by omega, by omega, ?_⟩
      · rw [Nat.sub_add_cancel (by omega), UInt8.ofNat_toNat]
      · rw [scanFrom, Begun.next, if_pos hrange] at h
        split <;> simp_all
    · rw [scanFrom, Begun.next, if_neg hrange] at h
      refine absurd ?_ h
      dsimp only
      split <;> exact mem_scanFrom (by simp)

theorem scanFrom_begun_last {seen : List (Option Char)} {value : Nat} {low high : UInt8} {bytes : Bytes}
    (hl : 0x80 ≤ low.toNat) (hh : high.toNat ≤ 0xBF)
    (h : none ∉ scanFrom seen (some ⟨value, low, high, 1⟩) bytes) :
    ∃ n < 64, ∃ rest, bytes = UInt8.ofNat (n + 0x80) :: rest ∧
      none ∉ scanFrom (some (Char.ofNat (value * 64 + n)) :: seen) none rest := by
  obtain ⟨n, hn, rest, rfl, -, -, h⟩ := scanFrom_begun hl hh h
  exact ⟨n, hn, rest, rfl, h⟩

theorem toNat_ofNat {v : Nat} (h : v.isValidChar) : (Char.ofNat v).val.toNat = v := by
  rw [Char.ofNat, dif_pos h]
  rfl

theorem first_char {b : UInt8} {c : Char} (h : first b = .char c) : String.utf8EncodeChar c = [b] := by
  rw [first] at h
  split at h
  · next hascii =>
    obtain rfl := Step.char.inj h
    have hc : (Char.ofNat b.toNat).toNat = b.toNat := toNat_ofNat (.inl (by omega))
    rw [utf8EncodeChar_ascii (by omega), hc, UInt8.ofNat_toNat]
  · repeat (split at h; · cases h)
    cases h

theorem first_begun {b : UInt8} {g : Begun} (h : first b = .begin_ g) :
    (∃ m, 2 ≤ m ∧ m < 32 ∧ b = UInt8.ofNat (m + 0xC0) ∧ g = ⟨m, 0x80, 0xBF, 1⟩) ∨
    (∃ m < 16, b = UInt8.ofNat (m + 0xE0) ∧
      g = ⟨m, if m = 0 then 0xA0 else 0x80, if m = 13 then 0x9F else 0xBF, 2⟩) ∨
    ∃ m < 5, b = UInt8.ofNat (m + 0xF0) ∧
      g = ⟨m, if m = 0 then 0x90 else 0x80, if m = 4 then 0x8F else 0xBF, 3⟩ := by
  have hb {m k : Nat} (hm : b.toNat = m + k) : b = UInt8.ofNat (m + k) := by rw [← hm, UInt8.ofNat_toNat]
  rw [first] at h
  split at h
  · cases h
  split at h
  · cases h
  split at h
  · obtain rfl := Step.begin_.inj h
    exact .inl ⟨b.toNat - 0xC0, by omega, by omega, hb (by omega), rfl⟩
  split at h
  · obtain rfl := Step.begin_.inj h
    exact .inr (.inl ⟨0, by omega, hb (by omega), rfl⟩)
  split at h
  · obtain rfl := Step.begin_.inj h
    exact .inr (.inl ⟨13, by omega, hb (by omega), rfl⟩)
  split at h
  · obtain rfl := Step.begin_.inj h
    refine .inr (.inl ⟨b.toNat - 0xE0, by omega, hb (by omega), ?_⟩)
    rw [if_neg (by omega), if_neg (by omega)]
  split at h
  · obtain rfl := Step.begin_.inj h
    exact .inr (.inr ⟨0, by omega, hb (by omega), rfl⟩)
  split at h
  · obtain rfl := Step.begin_.inj h
    refine .inr (.inr ⟨b.toNat - 0xF0, by omega, hb (by omega), ?_⟩)
    rw [if_neg (by omega), if_neg (by omega)]
  split at h
  · obtain rfl := Step.begin_.inj h
    exact .inr (.inr ⟨4, by omega, hb (by omega), rfl⟩)
  · cases h

theorem utf8EncodeChar_two {m n : Nat} (hm : 2 ≤ m) (hm' : m < 32) (hn : n < 64) :
    String.utf8EncodeChar (Char.ofNat (m * 64 + n)) = [UInt8.ofNat (m + 0xC0), UInt8.ofNat (n + 0x80)] := by
  have hlead : (m * 64 + n) / 64 % 32 = m := by omega
  have hlast : (m * 64 + n) % 64 = n := by omega
  rw [String.utf8EncodeChar, toNat_ofNat (.inl (by omega))]
  change ite _ _ _ = _
  rw [if_neg (by omega), if_pos (by omega), hlead, hlast]

theorem utf8EncodeChar_three {m n p : Nat} (hm : m < 16) (hn : n < 64) (hp : p < 64) (hlow : m = 0 → 32 ≤ n)
    (hhigh : m = 13 → n < 32) :
    String.utf8EncodeChar (Char.ofNat ((m * 64 + n) * 64 + p)) =
      [UInt8.ofNat (m + 0xE0), UInt8.ofNat (n + 0x80), UInt8.ofNat (p + 0x80)] := by
  have hlead : ((m * 64 + n) * 64 + p) / 4096 % 16 = m := by omega
  have hmid : ((m * 64 + n) * 64 + p) / 64 % 64 = n := by omega
  have hlast : ((m * 64 + n) * 64 + p) % 64 = p := by omega
  have hvalid : ((m * 64 + n) * 64 + p).isValidChar := by
    rw [Nat.isValidChar]
    omega
  rw [String.utf8EncodeChar, toNat_ofNat hvalid]
  change ite _ _ _ = _
  rw [if_neg (by omega), if_neg (by omega), if_pos (by omega), hlead, hmid, hlast]

theorem utf8EncodeChar_four {m n p q : Nat} (hm : m < 5) (hn : n < 64) (hp : p < 64) (hq : q < 64)
    (hlow : m = 0 → 16 ≤ n) (hhigh : m = 4 → n < 16) :
    String.utf8EncodeChar (Char.ofNat (((m * 64 + n) * 64 + p) * 64 + q)) =
      [UInt8.ofNat (m + 0xF0), UInt8.ofNat (n + 0x80), UInt8.ofNat (p + 0x80), UInt8.ofNat (q + 0x80)] := by
  have hlead : (((m * 64 + n) * 64 + p) * 64 + q) / 262144 % 8 = m := by omega
  have hsecond : (((m * 64 + n) * 64 + p) * 64 + q) / 4096 % 64 = n := by omega
  have hthird : (((m * 64 + n) * 64 + p) * 64 + q) / 64 % 64 = p := by omega
  have hlast : (((m * 64 + n) * 64 + p) * 64 + q) % 64 = q := by omega
  have hvalid : (((m * 64 + n) * 64 + p) * 64 + q).isValidChar := by
    rw [Nat.isValidChar]
    omega
  rw [String.utf8EncodeChar, toNat_ofNat hvalid]
  change ite _ _ _ = _
  rw [if_neg (by omega), if_neg (by omega), if_neg (by omega), hlead, hsecond, hthird, hlast]

theorem exists_char {seen : List (Option Char)} {b : UInt8} {rest : Bytes}
    (h : none ∉ scanFrom seen none (b :: rest)) :
    ∃ c rest', b :: rest = String.utf8EncodeChar c ++ rest' ∧ none ∉ scanFrom (some c :: seen) none rest' := by
  rw [scanFrom] at h
  cases hfirst : first b with
  | char c =>
    rw [hfirst] at h
    exact ⟨c, rest, by rw [first_char hfirst]; rfl, h⟩
  | bad =>
    rw [hfirst] at h
    exact absurd (mem_scanFrom List.mem_cons_self) h
  | begin_ g =>
    rw [hfirst] at h
    dsimp only at h
    obtain ⟨m, hm, hm', rfl, rfl⟩ | ⟨m, hm, rfl, rfl⟩ | ⟨m, hm, rfl, rfl⟩ := first_begun hfirst
    · obtain ⟨n, hn, rest₁, rfl, clean⟩ := scanFrom_begun_last (by decide) (by decide) h
      exact ⟨_, rest₁, by rw [utf8EncodeChar_two hm hm' hn]; rfl, clean⟩
    · obtain ⟨n, hn, rest₁, rfl, hl, hh, h₁⟩ := scanFrom_begun (by split <;> decide) (by split <;> decide) h
      obtain ⟨p, hp, rest₂, rfl, clean⟩ := scanFrom_begun_last (by decide) (by decide) h₁
      refine ⟨_, rest₂, ?_, clean⟩
      rw [utf8EncodeChar_three hm hn hp]
      · rfl
      · rintro rfl
        simpa using hl
      · rintro rfl
        exact Nat.lt_succ_of_le (by simpa using hh)
    · obtain ⟨n, hn, rest₁, rfl, hl, hh, h₁⟩ := scanFrom_begun (by split <;> decide) (by split <;> decide) h
      obtain ⟨p, hp, rest₂, rfl, -, -, h₂⟩ := scanFrom_begun (by decide) (by decide) h₁
      obtain ⟨q, hq, rest₃, rfl, clean⟩ := scanFrom_begun_last (by decide) (by decide) h₂
      refine ⟨_, rest₃, ?_, clean⟩
      rw [utf8EncodeChar_four hm hn hp hq]
      · rfl
      · rintro rfl
        simpa using hl
      · rintro rfl
        exact Nat.lt_succ_of_le (by simpa using hh)

theorem exists_encodeChars {seen : List (Option Char)} {bytes : Bytes} (h : none ∉ scanFrom seen none bytes) :
    ∃ cs, bytes = encodeChars cs := by
  induction hn : bytes.length using Nat.strongRecOn generalizing seen bytes with
  | ind n ih =>
    cases bytes with
    | nil => exact ⟨[], rfl⟩
    | cons b rest =>
      obtain ⟨c, rest', hsplit, hclean⟩ := exists_char h
      have hlength := congrArg List.length hsplit
      have hpos := String.length_utf8EncodeChar c ▸ Char.utf8Size_pos c
      rw [List.length_append, hn] at hlength
      obtain ⟨cs, rfl⟩ := ih rest'.length (by omega) hclean rfl
      exact ⟨c :: cs, hsplit⟩

theorem decodeChars?_eq_some_iff {bytes : Bytes} {cs : List Char} :
    decodeChars? bytes = some cs ↔ bytes = encodeChars cs := by
  constructor
  · intro h
    have hclean : none ∉ scanFrom [] none bytes := by
      intro hmem
      rw [decodeChars?, if_neg] at h
      · cases h
      · intro hall
        have hnone := List.all_eq_true.1 hall none hmem
        cases hnone
    obtain ⟨ds, rfl⟩ := exists_encodeChars hclean
    rw [decodeChars?_encodeChars] at h
    rw [Option.some.inj h]
  · rintro rfl
    exact decodeChars?_encodeChars cs

end Sound

end BuildServer.Utf8
