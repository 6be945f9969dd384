import BuildServer.Proofs.Target.Parse

/-!
No two targets share a URI, and a URI that is read and rendered again is in canonical form. What a query gives
under other keys, or once more under the same key, does not count.
-/

namespace BuildServer

namespace Query

def key (cs : List Char) : String := (item cs).1

def itemsOf (ps : List (List Char)) : List (String × String) :=
  (ps.filter (!·.isEmpty)).map item

theorem items_intercalate {ps : List (List Char)} (hne : ps ≠ []) (h : ∀ p ∈ ps, '&' ∉ p) :
    items (['&'].intercalate ps) = itemsOf ps := by
  rw [items, pieces_intercalate hne h, itemsOf]

theorem itemsOf_append (ps qs : List (List Char)) : itemsOf (ps ++ qs) = itemsOf ps ++ itemsOf qs := by
  simp [itemsOf]

theorem key_nil : key [] = "" := by
  decide +kernel

theorem lookup_itemsOf_of_mem {p : List Char} {ps : List (List Char)} (hp : p ∈ ps) (hkey : key p ≠ "") :
    ∃ value, (itemsOf ps).lookup (key p) = some value := by
  have hne : p ≠ [] := by
    rintro rfl
    exact hkey key_nil
  have hmem : item p ∈ itemsOf ps := List.mem_map_of_mem (List.mem_filter.2 ⟨hp, by simpa using hne⟩)
  cases hlookup : (itemsOf ps).lookup (key p) with
  | some value => exact ⟨value, rfl⟩
  | none =>
    have hnot := List.lookup_eq_none_iff.1 hlookup (item p) hmem
    simp [key] at hnot

theorem lookup_itemsOf_singleton {k : String} {p : List Char} (h : key p ≠ k) :
    (itemsOf [p]).lookup k = none := by
  rw [List.lookup_eq_none_iff]
  intro i hi
  obtain rfl : item p = i := by
    rw [itemsOf, List.mem_map] at hi
    obtain ⟨q, hq, rfl⟩ := hi
    rw [List.mem_singleton.1 (List.mem_filter.1 hq).1]
  simpa [key] using Ne.symm h

theorem question_not_mem_render (is : List (String × String)) : '?' ∉ (render is).toList := by
  rw [toList_render]
  intro h
  rcases mem_of_mem_intercalate h with h | ⟨cs, hcs, h⟩
  · cases h
  · obtain ⟨i, -, rfl⟩ := List.mem_map.1 hcs
    exact not_mem_itemText (by decide) (by decide) i h

end Query

namespace TargetUri

variable {t u : TargetUri} {uri : String}

theorem render_injective (h : t.render = u.render) : t = u := by
  have htexts := congrArg String.toList h
  rw [toList_render, toList_render] at htexts
  have hproject := (eq_of_last (Query.question_not_mem_render _) (Query.question_not_mem_render _) htexts).1
  exact eq_of_render (String.toList_inj.1 (List.append_cancel_left hproject)) h

theorem parse_render_of_parse (h : parse uri = .ok t) : parse t.render = .ok t := by
  obtain ⟨query, -, hproject, -, htarget⟩ := parse_eq_ok_iff.1 h
  refine parse_render_iff.2 ⟨hproject, ?_⟩
  rw [← htarget, Option.bind_assoc]
  simp only [bind_nonempty?]

def queryParts (uri : String) : List Char × List (List Char) :=
  let (before, query) := (cutAt '?' uri.toList).getD (uri.toList, [])
  (before, pieces '&' query)

theorem queryParts_eq {query : List Char} (huri : uri.toList = start.toList ++ t.project.toList ++ '?' :: query)
    (hproject : '?' ∉ t.project.toList) :
    queryParts uri = (start.toList ++ t.project.toList, pieces '&' query) := by
  have hstart : '?' ∉ start.toList ++ t.project.toList := by
    rw [List.mem_append, not_or]
    exact ⟨by decide, hproject⟩
  rw [queryParts, huri, cutAt_append hstart, Option.getD_some]

def withQuery (uri : String) (ps : List (List Char)) : String :=
  String.ofList ((queryParts uri).1 ++ '?' :: ['&'].intercalate ps)

theorem withQuery_queryParts (h : parse uri = .ok t) : withQuery uri (queryParts uri).2 = uri := by
  obtain ⟨query, huri, hproject, -⟩ := parse_eq_ok_iff.1 h
  rw [← String.toList_inj, withQuery, String.toList_ofList, queryParts_eq huri hproject,
    intercalate_pieces, huri]

/-- Behind other pieces an item does not count if its key is no part of an identity, or one of them has the
same key. -/
def Idle (before : List (List Char)) (item : List Char) : Prop :=
  (Query.key item ≠ "scheme" ∧ Query.key item ≠ "target") ∨ ∃ p ∈ before, Query.key p = Query.key item

theorem value?_insert {key : String} {before : List (List Char)} {item : List Char} (idle : Idle before item)
    (hkey : key = "scheme" ∨ key = "target") (after : List (List Char)) :
    value? key (Query.itemsOf (before ++ item :: after)) = value? key (Query.itemsOf (before ++ after)) := by
  have hsplit : before ++ item :: after = before ++ ([item] ++ after) := rfl
  simp only [value?, hsplit, Query.itemsOf_append, List.lookup_append]
  by_cases hitem : Query.key item = key
  · obtain ⟨hscheme, htarget⟩ | ⟨p, hp, hsame⟩ := idle
    · rcases hkey with rfl | rfl
      · exact absurd hitem hscheme
      · exact absurd hitem htarget
    · have hne : Query.key p ≠ "" := by
        rw [hsame, hitem]
        rcases hkey with rfl | rfl <;> decide
      obtain ⟨value, hvalue⟩ := Query.lookup_itemsOf_of_mem hp hne
      rw [hsame, hitem] at hvalue
      simp [hvalue]
  · simp [Query.lookup_itemsOf_singleton hitem]

theorem parse_withQuery {before after : List (List Char)} {item : List Char} (h : parse uri = .ok t)
    (hparts : (queryParts uri).2 = before ++ after) (hitem : '&' ∉ item) (idle : Idle before item) :
    parse (withQuery uri (before ++ item :: after)) = .ok t := by
  obtain ⟨query, huri, hproject, hscheme, htarget⟩ := parse_eq_ok_iff.1 h
  have hquery := queryParts_eq huri hproject
  have hpieces : pieces '&' query = before ++ after := by rw [← hparts, hquery]
  have hitems : Query.items query = Query.itemsOf (before ++ after) := by
    rw [Query.items, hpieces, Query.itemsOf]
  have hinserted : Query.items (['&'].intercalate (before ++ item :: after)) =
      Query.itemsOf (before ++ item :: after) := by
    apply Query.items_intercalate (by simp)
    intro p hp
    rcases List.mem_cons.1 (List.perm_middle.mem_iff.1 hp) with rfl | hp
    · exact hitem
    · exact not_mem_piece (hpieces ▸ hp)
  refine parse_eq_ok_iff.2 ⟨['&'].intercalate (before ++ item :: after), ?_, hproject, ?_, ?_⟩
  · rw [withQuery, String.toList_ofList, hquery]
  · rw [hinserted, value?_insert idle (.inl rfl), ← hitems, hscheme]
  · rw [hinserted, value?_insert idle (.inr rfl), ← hitems, htarget]

end TargetUri

/-- Equal URIs are those of one target. What is read from a URI is read again from its rendering, and from the
URI with an item more in its query that does not count where it stands. -/
theorem target_uris_canonical :
    (∀ t u : TargetUri, t.render = u.render → t = u) ∧
      ∀ uri t, TargetUri.parse uri = .ok t →
        TargetUri.parse t.render = .ok t ∧
          TargetUri.withQuery uri (TargetUri.queryParts uri).2 = uri ∧
          ∀ before after item, (TargetUri.queryParts uri).2 = before ++ after → '&' ∉ item →
            TargetUri.Idle before item →
            TargetUri.parse (TargetUri.withQuery uri (before ++ item :: after)) = .ok t := by
  refine ⟨fun t u => TargetUri.render_injective, fun uri t h => ?_⟩
  exact ⟨TargetUri.parse_render_of_parse h, TargetUri.withQuery_queryParts h,
    fun before after item => TargetUri.parse_withQuery h⟩

section

theorem repeated_scheme_idle :
    TargetUri.parse "xcode://Demo?s%63heme=App&scheme=Kit&&target=App+Tests" =
      .ok ⟨"Demo", "App", some "App Tests"⟩ := by
  have hparse : TargetUri.parse "xcode://Demo?s%63heme=App&&target=App+Tests" =
      .ok ⟨"Demo", "App", some "App Tests"⟩ := by
    decide +kernel
  have hparts : (TargetUri.queryParts "xcode://Demo?s%63heme=App&&target=App+Tests").2 =
      ["s%63heme=App".toList] ++ [[], "target=App+Tests".toList] := by
    decide +kernel
  have hidle : TargetUri.Idle ["s%63heme=App".toList] "scheme=Kit".toList :=
    .inr ⟨_, List.mem_singleton_self _, by decide +kernel⟩
  have htext : TargetUri.withQuery "xcode://Demo?s%63heme=App&&target=App+Tests"
      (["s%63heme=App".toList] ++ "scheme=Kit".toList :: [[], "target=App+Tests".toList]) =
      "xcode://Demo?s%63heme=App&scheme=Kit&&target=App+Tests" := by
    decide +kernel
  rw [← htext]
  exact (target_uris_canonical.2 _ _ hparse).2.2 _ _ _ hparts (by decide) hidle

end

end BuildServer
