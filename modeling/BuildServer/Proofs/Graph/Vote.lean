import BuildServer.Graph.Vote
import BuildServer.Proofs.Table.Lookup

namespace BuildServer.Vote

variable {ns ns' : List String} {n v : String} {k : Nat} {e f g : String × Nat} {es es' : List (String × Nat)}

theorem get?_foldl_counts (ns : List String) (t : Table Nat) (n : String) :
    (ns.foldl (fun t n => t.update n 0 (· + 1)) t).get? n =
      if n ∈ ns then some ((t.get? n).getD 0 + ns.count n) else t.get? n := by
  induction ns generalizing t with
  | nil => simp
  | cons m ns ih =>
    rw [List.foldl_cons, ih, Table.get?_update]
    by_cases hm : n = m
    · subst hm
      by_cases hn : n ∈ ns
      · simp [hn]
        omega
      · simp [hn, List.count_eq_zero_of_not_mem hn]
    · simp [hm, Ne.symm hm]

theorem get?_counts (ns : List String) (n : String) :
    (counts ns).get? n = if n ∈ ns then some (ns.count n) else none := by
  rw [counts, get?_foldl_counts]
  simp

theorem mem_counts : (n, k) ∈ (counts ns).entries ↔ n ∈ ns ∧ k = ns.count n := by
  rw [Table.mem_entries, get?_counts]
  split
  · next hn => simp [hn, eq_comm]
  · next hn => simp [hn]

theorem beats_iff : beats e f = true ↔ f.2 < e.2 ∨ f.2 = e.2 ∧ e.1 < f.1 := by
  simp [beats]

theorem not_beats_iff : ¬beats e f = true ↔ e.2 ≤ f.2 ∧ (e.2 = f.2 → f.1 ≤ e.1) := by
  rw [beats_iff, not_or, not_and, Nat.not_lt, eq_comm (a := f.2)]
  simp only [String.not_lt]

theorem not_beats_self (e : String × Nat) : ¬beats e e = true := by
  rw [not_beats_iff]
  exact ⟨Nat.le_refl _, fun _ => String.le_refl _⟩

theorem not_beats_of_beats (h : beats e f = true) : ¬beats f e = true := by
  rw [not_beats_iff]
  rcases beats_iff.mp h with hmore | ⟨hsame, hsmaller⟩
  · exact ⟨Nat.le_of_lt hmore, fun hsame => absurd hsame (Nat.ne_of_lt hmore)⟩
  · exact ⟨Nat.le_of_eq hsame, fun _ => String.not_lt.mp (String.lt_asymm hsmaller)⟩

theorem not_beats_trans (h : ¬beats e f = true) (h' : ¬beats f g = true) : ¬beats e g = true := by
  rw [not_beats_iff] at h h' ⊢
  refine ⟨Nat.le_trans h.1 h'.1, fun hsame => ?_⟩
  have hef : e.2 = f.2 := by omega
  exact String.le_trans (h'.2 (hef ▸ hsame)) (h.2 hef)

theorem eq_of_not_beats (h : ¬beats e f = true) (h' : ¬beats f e = true) : e = f := by
  rw [not_beats_iff] at h h'
  have hsame : e.2 = f.2 := Nat.le_antisymm h.1 h'.1
  exact Prod.ext (String.le_antisymm (h'.2 hsame.symm) (h.2 hsame)) hsame

def Unbeaten (e : String × Nat) (es : List (String × Nat)) : Prop :=
  e ∈ es ∧ ∀ f ∈ es, ¬beats f e = true

theorem Unbeaten.unique (h : Unbeaten e es) (h' : Unbeaten f es) : e = f :=
  eq_of_not_beats (h'.2 e h.1) (h.2 f h'.1)

theorem Unbeaten.cons (h : Unbeaten f es) (e : String × Nat) :
    Unbeaten (if beats f e = true then f else e) (e :: es) := by
  split
  · next hbeats =>
    refine ⟨List.mem_cons_of_mem _ h.1, List.forall_mem_cons.mpr ⟨not_beats_of_beats hbeats, h.2⟩⟩
  · next hstays =>
    refine ⟨List.mem_cons_self, List.forall_mem_cons.mpr ⟨not_beats_self e, fun g hg => ?_⟩⟩
    exact not_beats_trans (h.2 g hg) hstays

theorem winner_cons (h : winner es = some f) (e : String × Nat) :
    winner (e :: es) = some (if beats f e = true then f else e) := by
  rw [winner, h]
  exact (apply_ite some _ f e).symm

theorem winner_eq_none_iff : winner es = none ↔ es = [] := by
  cases es with
  | nil => simp [winner]
  | cons e es =>
    cases hwinner : winner es with
    | none => simp [winner, hwinner]
    | some f => simp [winner_cons hwinner]

theorem unbeaten_winner (h : winner es = some e) : Unbeaten e es := by
  induction es generalizing e with
  | nil => cases h
  | cons f es ih =>
    cases hwinner : winner es with
    | none =>
      rw [winner, hwinner] at h
      obtain rfl := Option.some.inj h
      rw [winner_eq_none_iff.mp hwinner]
      exact ⟨List.mem_cons_self, by simpa using not_beats_self f⟩
    | some g =>
      rw [winner_cons hwinner] at h
      rw [← Option.some.inj h]
      exact (ih hwinner).cons f

theorem winner_eq_some_iff : winner es = some e ↔ Unbeaten e es := by
  refine ⟨unbeaten_winner, fun h => ?_⟩
  cases hwinner : winner es with
  | none =>
    rw [winner_eq_none_iff.mp hwinner] at h
    cases h.1
  | some f => rw [(unbeaten_winner hwinner).unique h]

theorem winner_perm (h : es.Perm es') : winner es = winner es' := by
  apply Option.ext
  intro e
  rw [winner_eq_some_iff, winner_eq_some_iff]
  simp only [Unbeaten, h.mem_iff]

/-- A name that occurs, none more often, and of those that occur as often the smallest. -/
structure Leads (ns : List String) (v : String) : Prop where
  occurs : v ∈ ns
  most : ∀ n ∈ ns, ns.count n ≤ ns.count v
  smallest : ∀ n ∈ ns, ns.count n = ns.count v → v ≤ n

theorem unbeaten_counts_iff : Unbeaten (v, k) (counts ns).entries ↔ k = ns.count v ∧ Leads ns v := by
  simp only [Unbeaten, Prod.forall, mem_counts, not_beats_iff]
  constructor
  · rintro ⟨⟨hv, rfl⟩, hall⟩
    exact ⟨rfl, hv, fun n hn => (hall n _ ⟨hn, rfl⟩).1, fun n hn => (hall n _ ⟨hn, rfl⟩).2⟩
  · rintro ⟨rfl, leads⟩
    refine ⟨⟨leads.occurs, rfl⟩, ?_⟩
    rintro n k ⟨hn, rfl⟩
    exact ⟨leads.most n hn, leads.smallest n hn⟩

theorem mostFrequent_eq_some_iff : mostFrequent ns = some v ↔ Leads ns v := by
  rw [mostFrequent, Option.map_eq_some_iff]
  constructor
  · rintro ⟨⟨v, k⟩, hwinner, rfl⟩
    exact (unbeaten_counts_iff.mp (winner_eq_some_iff.mp hwinner)).2
  · intro leads
    exact ⟨(v, ns.count v), winner_eq_some_iff.mpr (unbeaten_counts_iff.mpr ⟨rfl, leads⟩), rfl⟩

theorem isSome_mostFrequent (h : n ∈ ns) : (mostFrequent ns).isSome := by
  rw [mostFrequent, Option.isSome_map, Option.isSome_iff_ne_none, Ne, winner_eq_none_iff]
  exact List.ne_nil_of_mem (mem_counts.mpr ⟨h, rfl⟩)

theorem mostFrequent_eq_none_iff : mostFrequent ns = none ↔ ns = [] := by
  constructor
  · intro hnone
    refine List.eq_nil_iff_forall_not_mem.mpr fun n hn => ?_
    have hsome := isSome_mostFrequent hn
    rw [hnone] at hsome
    cases hsome
  · rintro rfl
    rfl

theorem Leads.perm (h : ns.Perm ns') (leads : Leads ns v) : Leads ns' v where
  occurs := h.mem_iff.mp leads.occurs
  most n hn := by simpa only [h.count_eq] using leads.most n (h.mem_iff.mpr hn)
  smallest n hn := by simpa only [h.count_eq] using leads.smallest n (h.mem_iff.mpr hn)

theorem mostFrequent_perm (h : ns.Perm ns') : mostFrequent ns = mostFrequent ns' := by
  apply Option.ext
  intro v
  rw [mostFrequent_eq_some_iff, mostFrequent_eq_some_iff]
  exact ⟨Leads.perm h, Leads.perm h.symm⟩

/-- A vote has an outcome unless nothing is voted for, and the outcome is the one name that leads. It depends
neither on the order of the names nor on the order in which the names with their counts are compared. -/
theorem vote_well_defined (ns : List String) :
    (mostFrequent ns = none ↔ ns = []) ∧ (∀ v, mostFrequent ns = some v ↔ Leads ns v) ∧
      (∀ ns', ns'.Perm ns → mostFrequent ns' = mostFrequent ns) ∧
      (∀ n k, (n, k) ∈ (counts ns).entries ↔ n ∈ ns ∧ k = ns.count n) ∧
      ∀ es, es.Perm (counts ns).entries → (winner es).map (·.1) = mostFrequent ns := by
  refine ⟨mostFrequent_eq_none_iff, fun _ => mostFrequent_eq_some_iff, fun _ => mostFrequent_perm,
    fun _ _ => mem_counts, fun es order => ?_⟩
  rw [winner_perm order, mostFrequent]

theorem tied_stores_vote :
    ["/b", "/a", "/b", "/c", "/a"].Perm ["/a", "/a", "/b", "/b", "/c"] ∧
      [("/c", 1), ("/b", 2), ("/a", 2)].Perm (counts ["/a", "/a", "/b", "/b", "/c"]).entries ∧
      mostFrequent ["/b", "/a", "/b", "/c", "/a"] = some "/a" ∧
      (winner [("/c", 1), ("/b", 2), ("/a", 2)]).map (·.1) = some "/a" := by
  have hvote : mostFrequent ["/a", "/a", "/b", "/b", "/c"] = some "/a" := by decide +kernel
  have hnames : ["/b", "/a", "/b", "/c", "/a"].Perm ["/a", "/a", "/b", "/b", "/c"] := by decide
  have hentries : [("/c", 1), ("/b", 2), ("/a", 2)].Perm (counts ["/a", "/a", "/b", "/b", "/c"]).entries := by
    decide +kernel
  obtain ⟨-, -, perm, -, order⟩ := vote_well_defined ["/a", "/a", "/b", "/b", "/c"]
  exact ⟨hnames, hentries, (perm _ hnames).trans hvote, (order _ hentries).trans hvote⟩

end BuildServer.Vote
