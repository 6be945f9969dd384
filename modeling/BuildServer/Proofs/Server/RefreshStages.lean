import BuildServer.Proofs.Server.Repertoire
import BuildServer.Proofs.Server.Stages

/-!
The stages of refreshes. A program goes into a refresh, calls the build tool, may replace the snapshot
and goes out again; a background refresh does so once, without cached answers, and then lands and leaves
its update.
-/

namespace BuildServer

def Call.cached? : Call → Option Bool
  | .list cached => some cached
  | .index _ cached => some cached
  | _ => none

inductive RefreshStage where
  | outside (renewed : Bool)
  | entered
  | asking (cached : Bool)
  | replaced (cached : Bool)
  | landed
  | ended
  deriving DecidableEq, Repr

namespace RefreshStage

def isInside : RefreshStage → Bool
  | .outside _ => false
  | .landed => false
  | .ended => false
  | _ => true

def isLanded : RefreshStage → Bool
  | .landed => true
  | .ended => true
  | _ => false

def concerns : Action → Bool
  | .beginRefresh => true
  | .finishRefresh => true
  | .replaceSnapshot _ => true
  | .landRefresh => true
  | .probe (.call _) => true
  | _ => false

def next (role : Role) : RefreshStage → Action → Option RefreshStage
  | .outside _, .beginRefresh => some .entered
  | .outside renewed, .landRefresh =>
    if role = .task .refresh ∧ renewed then some .landed else none
  | .outside renewed, .probe (.call _) =>
    if role = .task .refresh then none else some (.outside renewed)
  | .outside renewed, a => if concerns a then none else some (.outside renewed)
  | .entered, .probe (.call c) =>
    match c.cached? with
    | some cached => if role = .task .refresh ∧ cached then none else some (.asking cached)
    | none => none
  | .asking cached, .probe _ => some (.asking cached)
  | .asking cached, .replaceSnapshot _ => some (.replaced cached)
  | .asking cached, .finishRefresh => some (.outside !cached)
  | .replaced cached, .finishRefresh => some (.outside !cached)
  | .landed, .leaveUpdate => some .ended
  | _, _ => none

def discipline : Server.Discipline RefreshStage where
  start := .outside false
  next := next
  rest
    | .task .refresh, st => st = .ended
    | _, st => ∃ renewed, st = .outside renewed

inductive Passes (role : Role) : RefreshStage → Action → RefreshStage → Prop
  | begin (renewed : Bool) : Passes role (.outside renewed) .beginRefresh .entered
  | ask {c : Call} {cached : Bool} (asks : c.cached? = some cached)
      (fresh : ¬(role = .task .refresh ∧ cached = true)) :
      Passes role .entered (.probe (.call c)) (.asking cached)
  | probe (cached : Bool) (p : Probe) : Passes role (.asking cached) (.probe p) (.asking cached)
  | replace (cached : Bool) (new : Snapshot) :
      Passes role (.asking cached) (.replaceSnapshot new) (.replaced cached)
  | fail (cached : Bool) : Passes role (.asking cached) .finishRefresh (.outside !cached)
  | finish (cached : Bool) : Passes role (.replaced cached) .finishRefresh (.outside !cached)
  | land (refreshes : role = .task .refresh) : Passes role (.outside true) .landRefresh .landed
  | leave : Passes role .landed .leaveUpdate .ended
  | call (renewed : Bool) (c : Call) (requests : role ≠ .task .refresh) :
      Passes role (.outside renewed) (.probe (.call c)) (.outside renewed)
  | stay (renewed : Bool) (a : Action) (aside : concerns a = false) :
      Passes role (.outside renewed) a (.outside renewed)

/-- All that an action does to a stage. -/
theorem passes_of_next {role : Role} {st st' : RefreshStage} {a : Action}
    (h : next role st a = some st') : Passes role st a st' := by
  revert h
  fun_cases next role st a <;> intro h <;> try cases h
  case case2 lands =>
    obtain ⟨refreshes, rfl⟩ := lands
    exact .land refreshes
  case case7 aside => exact .stay _ _ (Bool.eq_false_iff.2 aside)
  all_goals constructor <;> assumption

def Aside {α : Type} (role : Role) (p : Program α) : Prop :=
  ∀ renewed, p.Keeps (next role) (fun st _ => st = .outside renewed) (.outside renewed)

def Returns {α : Type} (role : Role) (p : Program α) : Prop :=
  ∀ renewed, p.Keeps (next role) (fun st _ => ∃ renewed', st = .outside renewed') (.outside renewed)

variable {α β : Type} {role : Role}

theorem next_aside {a : Action} (h : concerns a = false) (renewed : Bool) :
    next role (.outside renewed) a = some (.outside renewed) := by
  cases a with
  | probe p => cases p <;> simp_all [next, concerns]
  | _ => simp_all [next, concerns]

theorem aside_done (a : α) : Aside role (.done a) := fun _ => rfl

theorem aside_act {a : Action} (h : concerns a = false) : Aside role (Program.act a) :=
  fun renewed => ⟨_, next_aside h renewed, fun _ => rfl⟩

theorem Aside.bind {p : Program α} {f : α → Program β} (hp : Aside role p)
    (hf : ∀ a, Aside role (f a)) : Aside role (p.bind f) := by
  intro renewed
  rw [Dialogue.keeps_bind]
  apply (hp renewed).mono
  rintro _ a rfl
  exact hf a renewed

theorem aside_of_asks {p : Program α} (h : p.Asks (concerns · = false)) : Aside role p :=
  fun renewed => h.keeps fun _ ha => next_aside ha renewed

theorem Aside.returns {p : Program α} (h : Aside role p) : Returns role p :=
  fun renewed => (h renewed).mono fun _ _ hs => ⟨renewed, hs⟩

theorem returns_done (a : α) : Returns role (.done a) := (aside_done a).returns

theorem Returns.bind {p : Program α} {f : α → Program β} (hp : Returns role p)
    (hf : ∀ a, Returns role (f a)) : Returns role (p.bind f) := by
  intro renewed
  rw [Dialogue.keeps_bind]
  apply (hp renewed).mono
  rintro _ a ⟨renewed', rfl⟩
  exact hf a renewed'

theorem keeps_inquire (cached : Bool) (q : Inquiry α) :
    (Program.inquire q).Keeps (next role) (fun st _ => st = .asking cached) (.asking cached) :=
  Dialogue.keeps_via (f := fun p => Program.act (.probe p)) (fun _ => ⟨_, rfl, fun _ => rfl⟩) q

theorem ask_snapshot (project : String) (active : List String) (cached : Bool) :
    ∃ c go, (Attempt.snapshot project active cached).run = .ask (.call c) go ∧
      c.cached? = some cached := by
  cases active with
  | nil => cases cached <;> exact ⟨_, _, rfl, rfl⟩
  | cons scheme rest => cases cached <;> exact ⟨_, _, rfl, rfl⟩

theorem keeps_snapshot (project : String) (active : List String) {cached : Bool}
    (h : role = .task .refresh → cached = false) :
    (Program.inquire (Attempt.snapshot project active cached).run).Keeps (next role)
      (fun st _ => st = .asking cached) .entered := by
  obtain ⟨c, go, he, hc⟩ := ask_snapshot project active cached
  rw [he]
  refine ⟨.asking cached, ?_, fun a => keeps_inquire cached (go a)⟩
  have hb : ¬(role = .task .refresh ∧ cached = true) := fun ⟨hr, ht⟩ => by simp [h hr] at ht
  simp [next, hc, hb]

theorem keeps_refresh (s : Service) {cached : Bool} (renewed : Bool)
    (h : role = .task .refresh → cached = false) :
    (s.refresh cached).Keeps (next role) (fun st _ => st = .outside !cached) (.outside renewed) := by
  refine ⟨.entered, rfl, fun _ => ?_⟩
  change ((Program.inquire (Attempt.snapshot s.project s.active cached).run).bind _).Keeps _ _ _
  rw [Dialogue.keeps_bind]
  apply (keeps_snapshot s.project s.active h).mono
  rintro _ r rfl
  cases r with
  | error e => exact ⟨_, rfl, fun _ => rfl⟩
  | ok new => exact ⟨_, rfl, fun _ => ⟨_, rfl, fun _ => rfl⟩⟩

theorem keeps_recordedRefresh (s : Service) {cached : Bool} (renewed : Bool)
    (h : role = .task .refresh → cached = false) :
    (s.recordedRefresh cached).Keeps (next role) (fun st _ => st = .outside !cached)
      (.outside renewed) := by
  refine (Dialogue.keeps_bind _ _).2 ((keeps_refresh s renewed h).mono ?_)
  rintro _ r rfl
  cases r with
  | error e => rfl
  | ok r => exact ⟨_, rfl, fun _ => rfl⟩

theorem aside_tell (s : Service) (changes : Changes) : Aside role (s.tell changes) := by
  apply aside_of_asks
  apply (Service.telling_tell s changes).mono
  rintro a (h | h)
  · cases a with
    | probe p => cases p <;> first | rfl | cases h
    | _ => first | rfl | cases h
  · cases a <;> first | rfl | cases h

theorem keeps_backgroundRefresh (s : Service) :
    discipline.Keeps (.task .refresh) s.backgroundRefresh discipline.start := by
  unfold Server.Discipline.Keeps
  rw [Service.backgroundRefresh_eq, Dialogue.keeps_bind]
  refine (keeps_recordedRefresh s false fun _ => rfl).mono ?_
  rintro _ _ rfl
  refine ⟨.outside true, rfl, fun changes => (Dialogue.keeps_bind _ _).2 ?_⟩
  apply (aside_tell s changes true).mono
  rintro _ _ rfl
  exact ⟨.landed, rfl, fun _ => ⟨.ended, rfl, fun _ => rfl⟩⟩

theorem returns_snapshot (s : Service) : Returns (.task .request) s.snapshot := by
  apply Returns.bind (aside_act rfl).returns
  intro found
  cases found with
  | some found => exact returns_done _
  | none =>
    refine .bind (fun renewed => ?_) fun _ => returns_done _
    exact (keeps_refresh s renewed (by simp)).mono fun _ _ h => ⟨_, h⟩

theorem returns_recordedRefresh (s : Service) (cached : Bool) :
    Returns (.task .request) (s.recordedRefresh cached) :=
  fun renewed => (keeps_recordedRefresh s renewed (by simp)).mono fun _ _ h => ⟨_, h⟩

theorem returns_call (c : Call) : Returns (.task .request) (Program.call c) :=
  fun renewed => ⟨.outside renewed, by simp [next], fun _ => ⟨_, rfl⟩⟩

theorem returns_buildSchemes (schemes : List String) :
    Returns (.task .request) (Service.buildSchemes schemes) := by
  induction schemes with
  | nil => exact returns_done _
  | cons scheme rest ih => exact .bind (.bind (returns_call _) fun _ => returns_done _) fun _ => ih

theorem returns_storeArguments (project : String) (s : Snapshot) (targets : List NamedTarget) :
    Returns (.task .request) (Service.storeArguments project s targets) := by
  induction targets with
  | nil => exact returns_done _
  | cons t rest ih =>
    unfold Service.storeArguments
    dsimp only
    split
    · exact .bind (.bind (aside_act rfl).returns fun _ => returns_done _) fun _ => ih
    · exact ih

theorem returns_prepareTargets (s : Service) (uris : List String) :
    Returns (.task .request) (s.prepareTargets uris) := by
  refine .bind ?_ fun built => ?_
  · apply Returns.bind (returns_recordedRefresh s true)
    intro first
    cases first with
    | error e => exact returns_done _
    | ok first =>
      apply Returns.bind (aside_act rfl).returns
      intro files
      dsimp only
      split
      · exact returns_done _
      · exact .bind (returns_buildSchemes _) fun _ => returns_recordedRefresh s false
  · cases built with
    | error e => exact returns_done _
    | ok last => exact .bind (returns_storeArguments _ _ _) fun _ => returns_done _

theorem returns_prepare (s : Service) (uris : List String) :
    Returns (.task .request) (s.prepare uris) := by
  rw [Service.prepare_eq]
  apply Returns.bind (aside_act rfl).returns
  intro _
  apply Returns.bind (returns_prepareTargets s uris)
  intro result
  refine .bind (aside_act rfl).returns fun _ => .bind (aside_act rfl).returns fun changes => ?_
  exact .bind (aside_tell s changes).returns fun _ => returns_done _

theorem returns_start (s : Service) : Returns (.task .request) s.start := by
  apply Returns.bind (returns_snapshot s)
  intro r
  cases r <;> exact returns_done _

theorem returns_replyFrom (s : Service) {f : Snapshot → Program Json}
    (hf : ∀ snapshot, Returns (.task .request) (f snapshot)) :
    Returns (.task .request) (s.replyFrom f) := by
  apply Returns.bind (returns_snapshot s)
  intro r
  cases r with
  | error e => exact returns_done _
  | ok snapshot => exact .bind (hf snapshot) fun _ => returns_done _

theorem returns_inverseSources (s : Service) (document : String) :
    Returns (.task .request) (s.inverseSources document) := by
  unfold Service.inverseSources
  split
  · exact returns_done _
  · exact returns_replyFrom s fun _ => .bind (aside_act rfl).returns fun _ => returns_done _

theorem returns_storedArguments (target path : String) :
    Returns (.task .request) (Service.storedArguments target path) := by
  unfold Service.storedArguments
  split
  · exact returns_done _
  · exact .bind (aside_act rfl).returns fun _ => returns_done _

theorem returns_withParams {m : Incoming} {r : Json.Reader α} {f : α → Program Service.Reply}
    (hf : ∀ a, Returns (.task .request) (f a)) :
    Returns (.task .request) (Service.withParams m r f) := by
  unfold Service.withParams
  split
  · exact returns_done _
  · exact hf _

theorem returns_finishing {p : Program Unit} (h : Returns (.task .request) p) :
    Returns (.task .request) (Service.done p) :=
  h.bind fun _ => returns_done _

section

variable {s : Service} (trigger : ∀ role reason, Aside role (s.trigger reason))

include trigger

theorem returns_options (q : Params.OptionsQuery) : Returns (.task .request) (s.options q) := by
  unfold Service.options
  split
  · exact returns_done _
  · apply Returns.bind (returns_snapshot s)
    intro _
    apply Returns.bind (aside_act rfl).returns
    intro files
    split
    · split
      · exact .bind (trigger _ _).returns fun _ => returns_done _
      · exact returns_done _
    · apply Returns.bind (returns_storedArguments _ _)
      intro _
      exact .bind (trigger _ _).returns fun _ => returns_done _

theorem returns_handle (m : Incoming) (r : Request) :
    Returns (.task .request) (s.handle m r) := by
  cases r with
  | start => exact returns_start s
  | shutdown => exact returns_finishing (aside_act rfl).returns
  | buildTargets => exact returns_replyFrom s fun _ => returns_done _
  | sources => exact returns_withParams fun _ => returns_replyFrom s fun _ => returns_done _
  | inverseSources => exact returns_withParams (returns_inverseSources s)
  | prepare =>
    refine returns_withParams fun targets => .bind (returns_prepare s targets) fun r => ?_
    cases r <;> exact returns_done _
  | registerForChanges => exact returns_withParams fun _ => returns_finishing (aside_act rfl).returns
  | options => exact returns_withParams fun q => .bind (returns_options trigger q) fun _ => returns_done _
  | wait => exact returns_finishing (aside_act rfl).returns

theorem returns_respond (r : Option Request) (m : Incoming) :
    Returns (.task .request) (s.respond r m) := by
  unfold Service.respond
  split
  · apply Returns.bind (returns_handle trigger m _)
    intro reply
    cases reply <;> exact .bind (aside_act rfl).returns fun _ => returns_done _
  · exact .bind (aside_act rfl).returns fun _ => returns_done _
  · exact returns_done _

theorem aside_notice (m : Incoming) (n : Notice) : Aside .reader (s.notice m n) := by
  cases n with
  | initialized => exact aside_done _
  | exit => exact aside_act rfl
  | filesChanged =>
    dsimp only [Service.notice]
    split
    · exact aside_done _
    · unfold Service.filesChanged
      split
      · exact .bind (aside_act rfl) fun _ => trigger _ _
      · exact aside_done _

theorem kept : discipline.Kept s where
  start := ⟨false, rfl⟩
  notice m n st := by
    rintro ⟨renewed, rfl⟩
    exact (aside_notice trigger m n).returns renewed
  request r m := returns_respond trigger r m false
  refresh := keeps_backgroundRefresh s

end

end RefreshStage

end BuildServer
