import BuildServer.Proofs.Files.Walk

namespace BuildServer

def Node.Kept : Node → Node → Prop
  | .file _ mode, n => ∃ content mode', n = .file content mode' ∧
      (Mode.readable mode = true → Mode.readable mode' = true) ∧
      (Mode.writable mode = true → Mode.writable mode' = true)
  | .directory mode, n => ∃ mode', n = .directory mode' ∧
      (Mode.enterable mode = true → Mode.enterable mode' = true) ∧
      (Mode.writable mode = true → Mode.writable mode' = true)
  | .link target, n => n = .link target

theorem Node.Kept.refl (n : Node) : n.Kept n := by
  cases n with
  | file content mode => exact ⟨content, mode, rfl, id, id⟩
  | directory mode => exact ⟨mode, rfl, id, id⟩
  | link target => rfl

theorem Node.Kept.trans {n n' n'' : Node} (h : n.Kept n') (h' : n'.Kept n'') : n.Kept n'' := by
  cases n with
  | file content mode =>
    obtain ⟨content', mode', rfl, hread, hwrite⟩ := h
    obtain ⟨content'', mode'', rfl, hread', hwrite'⟩ := h'
    exact ⟨content'', mode'', rfl, hread' ∘ hread, hwrite' ∘ hwrite⟩
  | directory mode =>
    obtain ⟨mode', rfl, henter, hwrite⟩ := h
    obtain ⟨mode'', rfl, henter', hwrite'⟩ := h'
    exact ⟨mode'', rfl, henter' ∘ henter, hwrite' ∘ hwrite⟩
  | link target =>
    obtain rfl : n' = _ := h
    exact h'

theorem lookup_filter_ne {α : Type} (es : List (Location × α)) {l m : Location} (h : m ≠ l) :
    (es.filter fun e => e.1 != l).lookup m = es.lookup m := by
  induction es with
  | nil => rfl
  | cons e es ih =>
    by_cases he : e.1 = l
    · rw [List.filter_cons_of_neg (by simpa using he), ih, List.lookup_cons,
        beq_eq_false_iff_ne.2 (he ▸ h)]
    · rw [List.filter_cons_of_pos (by simpa using he), List.lookup_cons, List.lookup_cons, ih]

namespace Files

variable {fs fs' : Files}

theorem node?_put (fs : Files) (l : Location) (n : Node) (m : Location) :
    (fs.put l n).node? m = if m = l ∧ m ≠ [] then some n else fs.node? m := by
  rw [node?, node?]
  by_cases hroot : m = []
  · simp [hroot]
  · rw [if_neg hroot, if_neg hroot, put, remove, List.lookup_cons]
    by_cases hm : m = l
    · simp [hm, hm ▸ hroot]
    · rw [beq_eq_false_iff_ne.2 hm, if_neg fun h => hm h.1]
      exact lookup_filter_ne fs.nodes hm

structure Kept (fs fs' : Files) : Prop where
  current : fs'.current = fs.current
  nodes : ∀ l n, fs.node? l = some n → ∃ n', fs'.node? l = some n' ∧ n.Kept n'

theorem Kept.refl (fs : Files) : fs.Kept fs :=
  ⟨rfl, fun _ n h => ⟨n, h, .refl n⟩⟩

theorem Kept.trans {fs'' : Files} (h : fs.Kept fs') (h' : fs'.Kept fs'') : fs.Kept fs'' := by
  refine ⟨h'.current.trans h.current, fun l n hn => ?_⟩
  obtain ⟨n', hn', hkept⟩ := h.nodes l n hn
  obtain ⟨n'', hn'', hkept'⟩ := h'.nodes l n' hn'
  exact ⟨n'', hn'', hkept.trans hkept'⟩

theorem kept_put {l : Location} {n : Node} (h : ∀ old, fs.node? l = some old → old.Kept n) :
    fs.Kept (fs.put l n) := by
  refine ⟨rfl, fun m old hold => ?_⟩
  rw [node?_put]
  split
  · next hm => exact ⟨n, rfl, h old (hm.1 ▸ hold)⟩
  · exact ⟨old, hold, .refl old⟩

theorem Kept.enterable (h : fs.Kept fs') {l : Location} (hl : fs.Enterable l) : fs'.Enterable l := by
  obtain ⟨mode, hnode, henter⟩ := hl
  obtain ⟨n', hnode', mode', rfl, henter', -⟩ := h.nodes l _ hnode
  exact ⟨mode', hnode', henter' henter⟩

theorem Leads.kept {links : Nat} {l r : Location} {names : List String}
    (h : fs.Leads links l names r) (hkept : fs.Kept fs') : fs'.Leads links l names r := by
  induction h with
  | done links l => exact .done links l
  | here hdir _ ih => exact .here (hkept.enterable hdir) ih
  | up hdir _ ih => exact .up (hkept.enterable hdir) ih
  | link hdir hname hnode _ ih =>
    obtain ⟨n', hnode', rfl⟩ := hkept.nodes _ _ hnode
    exact .link (hkept.enterable hdir) hname hnode' ih
  | @entry _ _ _ _ n _ hdir hname hnode hlink _ ih =>
    obtain ⟨n', hnode', hn⟩ := hkept.nodes _ _ hnode
    refine .entry (hkept.enterable hdir) hname hnode' (fun target htarget => ?_) ih
    cases n with
    | file content mode =>
      obtain ⟨content', mode', rfl, -⟩ := hn
      cases htarget
    | directory mode =>
      obtain ⟨mode', rfl, -⟩ := hn
      cases htarget
    | link target' => exact hlink target' rfl

theorem locate_eq_ok_iff {path : String} {l : Location} :
    fs.locate path = .ok l ↔
      check path = .ok () ∧ fs.Leads maxLinks (fs.base path) (steps path) l := by
  rw [locate, ← walk_eq_ok_iff]
  cases hcheck : check path with
  | error e => simp [bind, Except.bind]
  | ok u => simp [bind, Except.bind]

theorem Kept.locate (h : fs.Kept fs') {path : String} {l : Location} (hl : fs.locate path = .ok l) :
    fs'.locate path = .ok l := by
  rw [locate_eq_ok_iff] at hl ⊢
  have hbase : fs'.base path = fs.base path := by rw [base, base, h.current]
  rw [hbase]
  exact ⟨hl.1, hl.2.kept h⟩

theorem Kept.checkEntry (h : fs.Kept fs') {l : Location} (hl : fs.checkEntry l = .ok ()) :
    fs'.checkEntry l = .ok () := by
  rw [Files.checkEntry] at hl ⊢
  split at hl
  · next mode hnode =>
    obtain ⟨n', hnode', mode', rfl, -, hwrite⟩ := h.nodes _ _ hnode
    rw [hnode']
    cases hmode : Mode.writable mode with
    | true => simp [hwrite hmode]
    | false => simp [hmode] at hl
  · cases hl

theorem Leads.of_put_file {place : Location} {content : Bytes} {mode : Nat}
    (hnew : fs.node? place = none) {links : Nat} {l r : Location} {names : List String}
    (h : (fs.put place (.file content mode)).Leads links l names r) :
    fs.Leads links l names r ∨ r = place := by
  have hdir {m : Location} (hm : (fs.put place (.file content mode)).Enterable m) :
      fs.Enterable m := by
    obtain ⟨mode', hnode, henter⟩ := hm
    rw [node?_put] at hnode
    split at hnode
    · cases hnode
    · exact ⟨mode', hnode, henter⟩
  induction h with
  | done links l => exact .inl (.done links l)
  | here h _ ih => exact ih.imp_left (.here (hdir h))
  | up h _ ih => exact ih.imp_left (.up (hdir h))
  | link h hname hnode _ ih =>
    rw [node?_put] at hnode
    split at hnode
    · cases hnode
    · exact ih.imp_left (.link (hdir h) hname hnode)
  | @entry _ l _ s _ rest h hname hnode hlink hrest ih =>
    rw [node?_put] at hnode
    split at hnode
    · next hplace =>
      cases rest with
      | nil =>
        cases hrest
        exact .inr hplace.1
      | cons t rest =>
        obtain ⟨mode', hfile, -⟩ := hdir (hrest.enterable (List.cons_ne_nil _ _))
        rw [hplace.1, hnew] at hfile
        cases hfile
    · exact ih.imp_left (.entry (hdir h) hname hnode hlink)

end Files

end BuildServer
