import BuildServer.Files.Tree

namespace BuildServer.Files

def Enterable (fs : Files) (l : Location) : Prop :=
  ∃ mode, fs.node? l = some (.directory mode) ∧ Mode.enterable mode = true

def EntryName (s : String) : Prop :=
  s ≠ "." ∧ s ≠ ".." ∧ (Utf8.encode s).length ≤ maxName

def linkBase (l : Location) (target : String) : Location :=
  if Path.isAbsolute target then [] else l

inductive Leads (fs : Files) : Nat → Location → List String → Location → Prop
  | done (links : Nat) (l : Location) : Leads fs links l [] l
  | here {links : Nat} {l r : Location} {rest : List String} (hdir : fs.Enterable l)
      (h : Leads fs links l rest r) : Leads fs links l ("." :: rest) r
  | up {links : Nat} {l r : Location} {rest : List String} (hdir : fs.Enterable l)
      (h : Leads fs links l.dropLast rest r) : Leads fs links l (".." :: rest) r
  | link {links : Nat} {l r : Location} {s target : String} {rest : List String}
      (hdir : fs.Enterable l) (hname : EntryName s)
      (hnode : fs.node? (l ++ [s]) = some (.link target))
      (h : Leads fs links (linkBase l target) (steps target ++ rest) r) :
      Leads fs (links + 1) l (s :: rest) r
  | entry {links : Nat} {l r : Location} {s : String} {n : Node} {rest : List String}
      (hdir : fs.Enterable l) (hname : EntryName s) (hnode : fs.node? (l ++ [s]) = some n)
      (hlink : ∀ target, n ≠ .link target) (h : Leads fs links (l ++ [s]) rest r) :
      Leads fs links l (s :: rest) r

variable {fs : Files}

def beyond (fs : Files) : Nat → Location → List String → Except FileError Location
  | 0 => fun _ _ => .error .tooManyLinks
  | links + 1 => fs.walk links

theorem walk_eq_follow (fs : Files) (links : Nat) : fs.walk links = fs.follow (fs.beyond links) := by
  cases links <;> rfl

theorem follow_cons (fs : Files) (again : Location → List String → Except FileError Location)
    {l : Location} (hdir : fs.Enterable l) (s : String) (rest : List String) :
    fs.follow again l (s :: rest) =
      if s = "." then fs.follow again l rest
      else if s = ".." then fs.follow again l.dropLast rest
      else if maxName < (Utf8.encode s).length then .error .nameTooLong
      else
        match fs.node? (l ++ [s]) with
        | none => .error .notFound
        | some (.link target) => again (linkBase l target) (steps target ++ rest)
        | some _ => fs.follow again (l ++ [s]) rest := by
  obtain ⟨mode, hnode, henter⟩ := hdir
  rw [follow, hnode]
  simp only [henter, Bool.not_true, Bool.false_eq_true, if_false]
  rfl

theorem enterable_of_follow {again : Location → List String → Except FileError Location}
    {l r : Location} {s : String} {rest : List String}
    (h : fs.follow again l (s :: rest) = .ok r) : fs.Enterable l := by
  rw [follow] at h
  split at h
  · next mode hnode =>
    cases henter : Mode.enterable mode with
    | true => exact ⟨mode, hnode, henter⟩
    | false => simp [henter] at h
  · cases h
  · cases h

theorem Leads.walk {links : Nat} {l r : Location} {names : List String}
    (h : fs.Leads links l names r) : fs.walk links l names = .ok r := by
  induction h with
  | done links l =>
    rw [walk_eq_follow]
    rfl
  | here hdir _ ih => rw [walk_eq_follow, follow_cons _ _ hdir, if_pos rfl, ← walk_eq_follow, ih]
  | up hdir _ ih =>
    rw [walk_eq_follow, follow_cons _ _ hdir, if_neg (by decide), if_pos rfl, ← walk_eq_follow, ih]
  | link hdir hname hnode _ ih =>
    rw [walk_eq_follow, follow_cons _ _ hdir, if_neg hname.1, if_neg hname.2.1,
      if_neg (Nat.not_lt.2 hname.2.2), hnode]
    exact ih
  | @entry _ _ _ _ n _ hdir hname hnode hlink _ ih =>
    rw [walk_eq_follow, follow_cons _ _ hdir, if_neg hname.1, if_neg hname.2.1,
      if_neg (Nat.not_lt.2 hname.2.2), hnode]
    cases n with
    | link target => exact absurd rfl (hlink target)
    | file content mode => rw [← ih, walk_eq_follow]
    | directory mode => rw [← ih, walk_eq_follow]

theorem leads_of_follow {links : Nat} {l r : Location} {names : List String}
    (hagain : ∀ l names r, fs.beyond links l names = .ok r →
      ∃ left, links = left + 1 ∧ fs.Leads left l names r)
    (h : fs.follow (fs.beyond links) l names = .ok r) : fs.Leads links l names r := by
  induction names generalizing l with
  | nil =>
    obtain rfl := Except.ok.inj h
    exact .done links l
  | cons s rest ih =>
    have hdir := enterable_of_follow h
    rw [follow_cons _ _ hdir] at h
    by_cases hhere : s = "."
    · rw [if_pos hhere] at h
      exact hhere ▸ .here hdir (ih h)
    rw [if_neg hhere] at h
    by_cases hup : s = ".."
    · rw [if_pos hup] at h
      exact hup ▸ .up hdir (ih h)
    rw [if_neg hup] at h
    by_cases hlong : maxName < (Utf8.encode s).length
    · rw [if_pos hlong] at h
      cases h
    rw [if_neg hlong] at h
    have hname : EntryName s := ⟨hhere, hup, Nat.le_of_not_lt hlong⟩
    split at h
    · cases h
    · next target hnode =>
      obtain ⟨left, rfl, hleads⟩ := hagain _ _ _ h
      exact .link hdir hname hnode hleads
    · next n hlink hnode => exact .entry hdir hname hnode hlink (ih h)

theorem walk_eq_ok_iff {links : Nat} {l r : Location} {names : List String} :
    fs.walk links l names = .ok r ↔ fs.Leads links l names r := by
  refine ⟨fun h => ?_, Leads.walk⟩
  induction links generalizing l r names with
  | zero =>
    rw [walk_eq_follow] at h
    exact leads_of_follow (fun _ _ _ h => nomatch h) h
  | succ links ih =>
    rw [walk_eq_follow] at h
    exact leads_of_follow (fun _ _ _ h => ⟨links, rfl, ih h⟩) h

theorem Leads.cut {links : Nat} {l r : Location} {names : List String} (h : fs.Leads links l names r) :
    ∀ first rest, names = first ++ rest →
      ∃ m left, fs.Leads links l first m ∧ fs.Leads left m rest r := by
  intro first rest
  induction h generalizing first with
  | done links l =>
    intro hnames
    obtain ⟨rfl, rfl⟩ := List.append_eq_nil_iff.1 hnames.symm
    exact ⟨l, links, .done links l, .done links l⟩
  | @here links l r names hdir h ih =>
    intro hnames
    cases first with
    | nil =>
      obtain rfl := hnames
      exact ⟨l, links, .done _ l, .here hdir h⟩
    | cons s first =>
      obtain ⟨rfl, hrest⟩ := List.cons.inj hnames
      obtain ⟨m, left, hfirst, hlast⟩ := ih first hrest
      exact ⟨m, left, .here hdir hfirst, hlast⟩
  | @up links l r names hdir h ih =>
    intro hnames
    cases first with
    | nil =>
      obtain rfl := hnames
      exact ⟨l, links, .done _ l, .up hdir h⟩
    | cons s first =>
      obtain ⟨rfl, hrest⟩ := List.cons.inj hnames
      obtain ⟨m, left, hfirst, hlast⟩ := ih first hrest
      exact ⟨m, left, .up hdir hfirst, hlast⟩
  | @link links l r s target names hdir hname hnode h ih =>
    intro hnames
    cases first with
    | nil =>
      obtain rfl := hnames
      exact ⟨l, links + 1, .done _ l, .link hdir hname hnode h⟩
    | cons s' first =>
      obtain ⟨rfl, hrest⟩ := List.cons.inj hnames
      obtain ⟨m, left, hfirst, hlast⟩ := ih (steps target ++ first) (by simp [hrest])
      exact ⟨m, left, .link hdir hname hnode hfirst, hlast⟩
  | @entry links l r s n names hdir hname hnode hlink h ih =>
    intro hnames
    cases first with
    | nil =>
      obtain rfl := hnames
      exact ⟨l, links, .done _ l, .entry hdir hname hnode hlink h⟩
    | cons s' first =>
      obtain ⟨rfl, hrest⟩ := List.cons.inj hnames
      obtain ⟨m, left, hfirst, hlast⟩ := ih first hrest
      exact ⟨m, left, .entry hdir hname hnode hlink hfirst, hlast⟩

inductive Undotted : List String → List String → Prop
  | nil : Undotted [] []
  | keep (s : String) {names rest : List String} (h : Undotted names rest) :
      Undotted (s :: names) (s :: rest)
  | drop {names rest : List String} (h : Undotted names rest) : Undotted ("." :: names) rest

theorem undotted_filter (names : List String) : Undotted names (names.filter (· != ".")) := by
  induction names with
  | nil => exact .nil
  | cons s names ih =>
    by_cases hs : s = "."
    · rw [hs, List.filter_cons_of_neg (by decide)]
      exact .drop ih
    · rw [List.filter_cons_of_pos (by simpa using hs)]
      exact .keep s ih

theorem Undotted.inv {s : String} {names rest : List String} (h : Undotted (s :: names) rest) :
    (∃ rest', rest = s :: rest' ∧ Undotted names rest') ∨ (s = "." ∧ Undotted names rest) := by
  cases h with
  | keep _ h => exact .inl ⟨_, rfl, h⟩
  | drop h => exact .inr ⟨rfl, h⟩

theorem Undotted.append_left {names rest : List String} (h : Undotted names rest)
    (first : List String) : Undotted (first ++ names) (first ++ rest) := by
  induction first with
  | nil => exact h
  | cons s first ih => exact .keep s ih

theorem Leads.undot {links : Nat} {l r : Location} {names rest : List String}
    (h : fs.Leads links l names r) (hdots : Undotted names rest) : fs.Leads links l rest r := by
  induction h generalizing rest with
  | done links l =>
    cases hdots
    exact .done links l
  | here hdir _ ih =>
    obtain ⟨rest, rfl, hrest⟩ | ⟨-, hrest⟩ := hdots.inv
    · exact .here hdir (ih hrest)
    · exact ih hrest
  | up hdir _ ih =>
    obtain ⟨rest, rfl, hrest⟩ | ⟨hdot, -⟩ := hdots.inv
    · exact .up hdir (ih hrest)
    · exact absurd hdot (by decide)
  | link hdir hname hnode _ ih =>
    obtain ⟨rest, rfl, hrest⟩ | ⟨hdot, -⟩ := hdots.inv
    · exact .link hdir hname hnode (ih (hrest.append_left _))
    · exact absurd hdot hname.1
  | entry hdir hname hnode hlink _ ih =>
    obtain ⟨rest, rfl, hrest⟩ | ⟨hdot, -⟩ := hdots.inv
    · exact .entry hdir hname hnode hlink (ih hrest)
    · exact absurd hdot hname.1

theorem Leads.enterable {links : Nat} {l r : Location} {names : List String}
    (h : fs.Leads links l names r) (hne : names ≠ []) : fs.Enterable l := by
  cases h with
  | done => exact absurd rfl hne
  | here hdir => exact hdir
  | up hdir => exact hdir
  | link hdir => exact hdir
  | entry hdir => exact hdir

theorem Leads.last {links : Nat} {l r : Location} {names : List String} {s : String}
    (h : fs.Leads links l (names ++ [s]) r) :
    ∃ m, fs.Leads links l names m ∧ fs.Enterable m ∧
      (s = "." ∨ s = ".." ∨ (fs.node? (m ++ [s])).isSome) := by
  obtain ⟨m, left, hfirst, hlast⟩ := h.cut names [s] rfl
  refine ⟨m, hfirst, hlast.enterable (List.cons_ne_nil _ _), ?_⟩
  cases hlast with
  | here => exact .inl rfl
  | up => exact .inr (.inl rfl)
  | link _ _ hnode => exact .inr (.inr (by rw [hnode]; rfl))
  | entry _ _ hnode => exact .inr (.inr (by rw [hnode]; rfl))

end BuildServer.Files
