import BuildServer.Proofs.Text.Pieces
import BuildServer.Proofs.Text.Percent
import BuildServer.Target.Uri

namespace BuildServer

namespace Query

def byteText (b : UInt8) : List Char :=
  if b = 0x20 then ['+'] else if isPlain b then [Char.ofNat b.toNat] else percentEscape b

theorem encodeText_eq (s : String) : encodeText s = (Utf8.encode s).flatMap byteText := rfl

def unplus (c : Char) : Char := if c = '+' then ' ' else c

theorem plain_range : ∀ n < 256, isPlain (UInt8.ofNat n) = true →
    n < 0x80 ∧ unplus (Char.ofNat n) = Char.ofNat n ∧ UInt8.ofNat n ≠ 0x25 := by
  decide +kernel

theorem unplus_hexDigit : ∀ n < 16, unplus (upperHexDigit n) = upperHexDigit n := by
  decide

theorem escapes_byteText (b : UInt8) : Escapes (Utf8.encodeChars ((byteText b).map unplus)) b := by
  have hb := b.toNat_lt
  unfold byteText
  split
  · next hblank =>
    rw [hblank]
    exact .plain (by decide)
  · split
    · next hplain =>
      rw [← UInt8.ofNat_toNat (x := b)] at hplain
      obtain ⟨hascii, hkept, hpercent⟩ := plain_range b.toNat hb hplain
      rw [UInt8.ofNat_toNat] at hpercent
      rw [List.map_singleton, hkept]
      exact escapes_ascii hascii hpercent
    · have hkept : (percentEscape b).map unplus = percentEscape b := by
        simp only [percentEscape, List.map_cons, List.map_nil,
          unplus_hexDigit (b.toNat / 16) (by omega), unplus_hexDigit (b.toNat % 16) (by omega)]
        rfl
      rw [hkept]
      exact escapes_percentEscape b

theorem decodeText_encodeText (s : String) : decodeText (encodeText s) = s := by
  have hmap : (encodeText s).map unplus = (Utf8.encode s).flatMap fun b => (byteText b).map unplus := by
    rw [encodeText_eq, List.map_flatMap]
  change Utf8.decodeLossy (percentDecode (Utf8.encodeChars ((encodeText s).map unplus))) = s
  rw [hmap, percentDecode_flatMap escapes_byteText, Utf8.decodeLossy_encode]

def separators : List Char := ['?', '&', '=']

theorem separators_byteText : ∀ n < 256, (byteText (UInt8.ofNat n)).all (· ∉ separators) := by
  decide +kernel

theorem not_mem_encodeText {c : Char} (hc : c ∈ separators) (s : String) : c ∉ encodeText s := by
  rw [encodeText_eq, List.mem_flatMap]
  rintro ⟨b, -, hb⟩
  have hall := separators_byteText b.toNat b.toNat_lt
  rw [UInt8.ofNat_toNat] at hall
  exact of_decide_eq_true (List.all_eq_true.1 hall c hb) hc

def itemText (i : String × String) : List Char := encodeText i.1 ++ '=' :: encodeText i.2

theorem item_itemText (i : String × String) : item (itemText i) = i := by
  rw [item, itemText, cutAt_append (not_mem_encodeText (by decide) i.1)]
  simp only [decodeText_encodeText]

theorem not_mem_itemText {c : Char} (hc : c ∈ separators) (hne : c ≠ '=') (i : String × String) :
    c ∉ itemText i := by
  simp [itemText, not_mem_encodeText hc, hne]

theorem toList_render (is : List (String × String)) :
    (render is).toList = ['&'].intercalate (is.map itemText) := by
  have htexts : is.map (String.toList ∘ fun i => String.ofList (itemText i)) = is.map itemText := by
    apply List.map_congr_left
    intro i hi
    exact String.toList_ofList
  rw [← htexts, ← List.map_map]
  exact String.toList_intercalate

theorem items_render (is : List (String × String)) : items (render is).toList = is := by
  by_cases hne : is = []
  · rw [hne]
    rfl
  · have hseparators : ∀ cs ∈ is.map itemText, '&' ∉ cs := by
      intro cs hcs
      obtain ⟨i, hi, rfl⟩ := List.mem_map.mp hcs
      exact not_mem_itemText (by decide) (by decide) i
    have hpieces : pieces '&' (render is).toList = is.map itemText := by
      rw [toList_render]
      exact pieces_intercalate (by simpa using hne) hseparators
    have hkept : (is.map itemText).filter (!·.isEmpty) = is.map itemText := by
      apply List.filter_eq_self.mpr
      intro cs hcs
      obtain ⟨i, hi, rfl⟩ := List.mem_map.mp hcs
      simp [itemText]
    have hitems : is.map (item ∘ itemText) = is.map id :=
      List.map_congr_left fun i _ => item_itemText i
    rw [items, hpieces, hkept, List.map_map, hitems, List.map_id]

end Query

namespace TargetUri

def items (t : TargetUri) : List (String × String) :=
  ("scheme", t.scheme) :: (t.target.map fun n => ("target", n)).toList

theorem items_injective {t u : TargetUri} (h : t.items = u.items) :
    t.scheme = u.scheme ∧ t.target = u.target := by
  obtain ⟨project, scheme, target⟩ := t
  obtain ⟨project', scheme', target'⟩ := u
  cases target <;> cases target' <;> simp_all [items]

theorem eq_of_render {t u : TargetUri} (hproject : t.project = u.project)
    (h : t.render = u.render) : t = u := by
  have hquery : (Query.render t.items).toList = (Query.render u.items).toList := by
    have hlists := congrArg String.toList h
    change (start ++ t.project ++ "?" ++ Query.render t.items).toList =
      (start ++ u.project ++ "?" ++ Query.render u.items).toList at hlists
    rw [hproject, String.toList_append, String.toList_append (s := start ++ u.project ++ "?")] at hlists
    exact List.append_cancel_left hlists
  have hitems : t.items = u.items := by
    rw [← Query.items_render t.items, hquery, Query.items_render]
  obtain ⟨hscheme, htarget⟩ := items_injective hitems
  cases t
  cases u
  simp_all

end TargetUri

end BuildServer
