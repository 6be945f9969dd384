import BuildServer.Proofs.Dialogue.Course
import BuildServer.Server.Handlers

namespace BuildServer

def Outgoing.answers? : Outgoing → Option RequestId
  | .result id _ => some id
  | .error id _ => some id
  | .notification _ _ => none

namespace Action

def isPlain : Action → Bool
  | .enterUpdate => false
  | .leaveUpdate => false
  | .record _ => false
  | .drain => false
  | .landRefresh => false
  | .send _ => false
  | _ => true

def isOrdinary : Action → Bool
  | .markShutdown => false
  | .exit => false
  | a => a.isPlain

def isLook : Action → Bool
  | .hasDocuments => true
  | .documents => true
  | .probe .files => true
  | _ => false

def isNotification : Action → Bool
  | .send (.notification _ _) => true
  | _ => false

def isRecord : Action → Bool
  | .record _ => true
  | _ => false

def sends? : Action → Option Outgoing
  | .send m => some m
  | _ => none

def answers? (a : Action) : Option RequestId := a.sends?.bind Outgoing.answers?

end Action

namespace Service

open Dialogue (Asks asks_via)

def AsksForRefresh (s : Service) : Prop :=
  ∀ reason, s.trigger reason = Program.act (.requestRefresh reason)

def Plain {α : Type} (p : Program α) : Prop := p.Asks (·.isPlain = true)

def Building {α : Type} (p : Program α) : Prop := p.Asks fun a => a.isPlain = true ∨ a.isRecord = true

def Telling {α : Type} (p : Program α) : Prop :=
  p.Asks fun a => a.isLook = true ∨ a.isNotification = true

variable {α β : Type} {s : Service} {p : Program α}

theorem asks_act {P : Action → Prop} {a : Action} (h : P a) : (Program.act a).Asks P :=
  ⟨h, fun _ => trivial⟩

theorem plain_of_ordinary (a : Action) (h : a.isOrdinary = true) : a.isPlain = true := by
  cases a <;> first | rfl | cases h

theorem plain_of_look {a : Action} (h : a.isLook = true) : a.isPlain = true := by
  cases a <;> first | rfl | cases h

theorem telling_look {a : Action} (h : a.isLook = true) : Telling (Program.act a) :=
  ⟨.inl h, fun _ => trivial⟩

theorem Telling.bind {f : α → Program β} (hp : Telling p) (hf : ∀ a, Telling (f a)) :
    Telling (p.bind f) :=
  Asks.bind hp hf

section

variable {P : Action → Prop} (probes : ∀ p, P (.probe p))

include probes

theorem asks_inquire (q : Inquiry α) : (Program.inquire q).Asks P :=
  asks_via (f := fun p => Program.act (.probe p)) (fun p => asks_act (probes p)) q

theorem asks_refresh (begins : P .beginRefresh) (finishes : P .finishRefresh)
    (puts : ∀ new, P (.replaceSnapshot new)) (s : Service) (cached : Bool) : (s.refresh cached).Asks P := by
  apply Asks.bind (asks_act begins)
  intro _
  apply Asks.bind (asks_inquire probes _)
  intro built
  cases built with
  | error e => exact ⟨finishes, fun _ => trivial⟩
  | ok new => exact ⟨puts new, fun _ => ⟨finishes, fun _ => trivial⟩⟩

end

theorem asks_snapshot {P : Action → Prop} (looks : P .cachedSnapshot) (refreshes : (s.refresh true).Asks P) :
    s.snapshot.Asks P := by
  apply Asks.bind (asks_act looks)
  intro found
  cases found with
  | some found => trivial
  | none => exact Asks.bind refreshes fun _ => trivial

theorem telling_send (method : String) (params : Option Json) :
    Telling (Program.send (.notification method params)) :=
  ⟨.inr rfl, fun _ => trivial⟩

theorem telling_changedOptionsOf (changed : Table CompilerOptions) (path : String) :
    Telling (changedOptionsOf changed path) := by
  unfold changedOptionsOf
  split
  · trivial
  · exact .bind (telling_look rfl) fun _ => trivial

theorem telling_announceOptions (changed : Table CompilerOptions) (uris : List String) :
    Telling (announceOptions changed uris) := by
  induction uris with
  | nil => trivial
  | cons uri rest ih =>
    unfold announceOptions
    split
    · exact ih
    · apply Telling.bind (telling_changedOptionsOf _ _)
      intro o
      cases o with
      | none => exact ih
      | some o =>
        apply Telling.bind (telling_send _ _)
        intro sent
        cases sent with
        | error e => trivial
        | ok _ => exact ih

theorem telling_announceTargets (targets : List String) : Telling (announceTargets targets) := by
  unfold announceTargets
  split
  · trivial
  · exact telling_send _ _

def tell (s : Service) (changes : Changes) : Program (Except WriteError Unit) := do
  match ← announceTargets changes.targets with
  | .error e => pure (.error e)
  | .ok () =>
    if !s.optionsChanged then pure (.ok ())
    else if !(← Program.act .hasDocuments) then pure (.ok ())
    else announceOptions changes.options (← Program.act .documents)

theorem backgroundRefresh_eq (s : Service) :
    s.backgroundRefresh = (s.recordedRefresh false).bind fun _ => .ask .drain fun changes =>
      (s.tell changes).bind fun _ => .ask .landRefresh fun _ => .ask .leaveUpdate .done := by
  have h : s.backgroundRefresh = ((s.recordedRefresh false).bind fun _ => .done ()).bind fun _ =>
      .ask .drain fun changes => ((s.tell changes).bind fun _ => .done ()).bind fun _ =>
        .ask .landRefresh fun _ => .ask .leaveUpdate .done := rfl
  rw [h, Dialogue.bind_assoc]
  simp only [Dialogue.bind_assoc, Dialogue.done_bind]

theorem prepare_eq (s : Service) (uris : List String) :
    s.prepare uris = .ask .enterUpdate fun _ => (s.prepareTargets uris).bind fun result =>
      .ask .leaveUpdate fun _ => .ask .drain fun changes =>
        (s.tell changes).bind fun _ => .done result := by
  have h : s.prepare uris = .ask .enterUpdate fun _ => (s.prepareTargets uris).bind fun result =>
      .ask .leaveUpdate fun _ => .ask .drain fun changes =>
        ((s.tell changes).bind fun _ => .done ()).bind fun _ => .done result := rfl
  rw [h]
  simp only [Dialogue.bind_assoc, Dialogue.done_bind]

theorem telling_tell (s : Service) (changes : Changes) : Telling (s.tell changes) := by
  apply Telling.bind (telling_announceTargets _)
  intro sent
  cases sent with
  | error e => trivial
  | ok _ =>
    dsimp only
    split
    · trivial
    · apply Telling.bind (telling_look rfl)
      intro has
      split
      · trivial
      · exact .bind (telling_look rfl) fun _ => telling_announceOptions _ _

section

variable {P : Action → Prop} (ordinary : ∀ a, a.isOrdinary = true → a ≠ .awaitIdle → P a)

include ordinary

theorem asks_refresh_of_ordinary (s : Service) (cached : Bool) : (s.refresh cached).Asks P :=
  asks_refresh (fun _ => ordinary _ rfl nofun) (ordinary _ rfl nofun) (ordinary _ rfl nofun) (fun _ => ordinary _ rfl nofun) s cached

theorem asks_snapshot_of_ordinary (s : Service) : s.snapshot.Asks P :=
  asks_snapshot (ordinary _ rfl nofun) (asks_refresh_of_ordinary ordinary s true)

theorem asks_recordedRefresh (records : ∀ c, P (.record c)) (s : Service) (cached : Bool) :
    (s.recordedRefresh cached).Asks P := by
  apply Asks.bind (asks_refresh_of_ordinary ordinary s cached)
  intro refreshed
  cases refreshed with
  | error e => trivial
  | ok r => exact Asks.bind (asks_act (records _)) fun _ => trivial

theorem asks_buildSchemes (schemes : List String) : (buildSchemes schemes).Asks P := by
  induction schemes with
  | nil => trivial
  | cons scheme rest ih =>
    exact Asks.bind (Asks.bind (asks_act (ordinary _ rfl nofun)) fun _ => trivial) fun _ => ih

theorem asks_storeArguments (project : String) (s : Snapshot) (targets : List NamedTarget) :
    (storeArguments project s targets).Asks P := by
  induction targets with
  | nil => trivial
  | cons t rest ih =>
    unfold storeArguments
    dsimp only
    split
    · exact Asks.bind (Asks.bind (asks_act (ordinary _ rfl nofun)) fun _ => trivial) fun _ => ih
    · exact ih

theorem asks_prepareTargets (records : ∀ c, P (.record c)) (s : Service) (uris : List String) :
    (s.prepareTargets uris).Asks P := by
  refine Asks.bind ?_ fun built => ?_
  · apply Asks.bind (asks_recordedRefresh ordinary records s true)
    intro first
    cases first with
    | error e => trivial
    | ok first =>
      apply Asks.bind (asks_act (ordinary (.probe .files) rfl nofun))
      intro files
      dsimp only
      split
      · trivial
      · exact Asks.bind (asks_buildSchemes ordinary _) fun _ =>
          asks_recordedRefresh ordinary records s false
  · cases built with
    | error e => trivial
    | ok last => exact Asks.bind (asks_storeArguments ordinary _ _ _) fun _ => trivial

theorem asks_replyFrom (s : Service) {f : Snapshot → Program Json}
    (hf : ∀ snapshot, (f snapshot).Asks P) : (s.replyFrom f).Asks P := by
  apply Asks.bind (asks_snapshot_of_ordinary ordinary s)
  intro r
  cases r with
  | error e => trivial
  | ok snapshot => exact Asks.bind (hf snapshot) fun _ => trivial

theorem asks_start (s : Service) : s.start.Asks P := by
  apply Asks.bind (asks_snapshot_of_ordinary ordinary s)
  intro r
  cases r <;> trivial

theorem asks_inverseSources (s : Service) (document : String) : (s.inverseSources document).Asks P := by
  unfold inverseSources
  split
  · trivial
  · exact asks_replyFrom ordinary s fun _ => Asks.bind (asks_act (ordinary _ rfl nofun)) fun _ => trivial

theorem asks_storedArguments (target path : String) : (storedArguments target path).Asks P := by
  unfold storedArguments
  split
  · trivial
  · exact Asks.bind (asks_act (ordinary _ rfl nofun)) fun _ => trivial

theorem asks_trigger (asks : s.AsksForRefresh) (reason : String) : (s.trigger reason).Asks P := by
  rw [asks]
  exact asks_act (ordinary _ rfl nofun)

theorem asks_options (asks : s.AsksForRefresh) (q : Params.OptionsQuery) : (s.options q).Asks P := by
  unfold options
  split
  · trivial
  · apply Asks.bind (asks_snapshot_of_ordinary ordinary s)
    intro _
    apply Asks.bind (asks_act (ordinary (.probe .files) rfl nofun))
    intro files
    split
    · split
      · exact Asks.bind (asks_trigger ordinary asks _) fun _ => trivial
      · trivial
    · apply Asks.bind (asks_storedArguments ordinary _ _)
      intro _
      exact Asks.bind (asks_trigger ordinary asks _) fun _ => trivial

end

theorem asks_withParams {P : Action → Prop} {m : Incoming} {r : Json.Reader α} {f : α → Program Reply}
    (hf : ∀ a, (f a).Asks P) : (withParams m r f).Asks P := by
  unfold withParams
  split
  · trivial
  · exact hf _

theorem asks_finishing {P : Action → Prop} {p : Program Unit} (h : p.Asks P) : (done p).Asks P :=
  Asks.bind h fun _ => trivial

theorem asks_handle {P : Action → Prop} (ordinary : ∀ a, a.isOrdinary = true → a ≠ .awaitIdle → P a)
    (asks : s.AsksForRefresh) (m : Incoming) {r : Request} (prepares : r ≠ .prepare)
    (shutsDown : r ≠ .shutdown) (waits : r = .wait → P .awaitIdle) : (s.handle m r).Asks P := by
  cases r with
  | start => exact asks_start ordinary s
  | shutdown => exact absurd rfl shutsDown
  | buildTargets => exact asks_replyFrom ordinary s fun _ => trivial
  | sources => exact asks_withParams fun _ => asks_replyFrom ordinary s fun _ => trivial
  | inverseSources => exact asks_withParams (asks_inverseSources ordinary s)
  | prepare => exact absurd rfl prepares
  | registerForChanges =>
    exact asks_withParams fun _ => asks_finishing (asks_act (ordinary _ rfl nofun))
  | options =>
    exact asks_withParams fun q => Asks.bind (asks_options ordinary asks q) fun _ => trivial
  | wait => exact asks_finishing (asks_act (waits rfl))

theorem plain_refresh (s : Service) (cached : Bool) : Plain (s.refresh cached) :=
  asks_refresh_of_ordinary (fun a h _ => plain_of_ordinary a h) s cached

theorem building_recordedRefresh (s : Service) (cached : Bool) : Building (s.recordedRefresh cached) :=
  asks_recordedRefresh (fun a h _ => .inl (plain_of_ordinary a h)) (fun _ => .inr rfl) s cached

theorem building_prepareTargets (s : Service) (uris : List String) : Building (s.prepareTargets uris) :=
  asks_prepareTargets (fun a h _ => .inl (plain_of_ordinary a h)) (fun _ => .inr rfl) s uris

def answer (id : RequestId) : Reply → Outgoing
  | .ok value => .result id value
  | .error e => .error id e.response

section

variable {m : Incoming}

theorem respond_anonymous (hid : m.id = none) (r : Option Request) : s.respond r m = .done () := by
  unfold respond
  rw [hid]
  cases r <;> rfl

theorem respond_request {id : RequestId} (hid : m.id = some id) (r : Request) :
    s.respond (some r) m =
      (s.handle m r).bind fun reply => .ask (.send (answer id reply)) fun _ => .done () := by
  unfold respond
  rw [hid]
  change (s.handle m r).bind _ = (s.handle m r).bind _
  congr 1
  funext reply
  cases reply <;> rfl

theorem respond_unknown {id : RequestId} (hid : m.id = some id) :
    s.respond none m =
      .ask (.send (.error id ⟨-32601, "Method not found: " ++ m.method⟩)) fun _ => .done () := by
  unfold respond
  rw [hid]
  rfl

theorem respond_wait {id : RequestId} (hid : m.id = some id) :
    s.respond (some .wait) m =
      .ask .awaitIdle fun _ => .ask (.send (.result id .null)) fun _ => .done () := by
  rw [respond_request hid]
  rfl

end

section

variable (asks : s.AsksForRefresh)

include asks

theorem plain_handle (m : Incoming) {r : Request} (h : r ≠ .prepare) : Plain (s.handle m r) := by
  by_cases shutsDown : r = .shutdown
  · subst shutsDown
    exact asks_finishing (asks_act rfl)
  · exact asks_handle (fun a h _ => plain_of_ordinary a h) asks m h shutsDown fun _ => rfl

theorem updates_nothing {m : Incoming} {r : Option Request} (h : r ≠ some .prepare) :
    (s.respond r m).Asks fun a => a ≠ .enterUpdate ∧ a ≠ .leaveUpdate := by
  cases hid : m.id with
  | none =>
    rw [respond_anonymous hid]
    trivial
  | some id =>
    cases r with
    | none =>
      rw [respond_unknown hid]
      exact ⟨by simp, fun _ => trivial⟩
    | some r =>
      rw [respond_request hid]
      refine Asks.bind ?_ fun reply => ⟨by simp, fun _ => trivial⟩
      apply (plain_handle asks m fun hr => h (congrArg some hr)).mono
      intro a plain
      constructor <;> rintro rfl <;> cases plain

theorem asks_notice {P : Action → Prop} (ordinary : ∀ a, a.isOrdinary = true → P a) (m : Incoming)
    {n : Notice} (h : n ≠ .exit) : (s.notice m n).Asks P := by
  cases n with
  | initialized => trivial
  | exit => exact absurd rfl h
  | filesChanged =>
    dsimp only [notice]
    split
    · trivial
    · unfold filesChanged
      split
      · exact Asks.bind (asks_act (ordinary _ rfl)) fun _ => asks_trigger (fun a h _ => ordinary a h) asks _
      · trivial

theorem plain_notice (m : Incoming) (n : Notice) : Plain (s.notice m n) := by
  by_cases h : n = .exit
  · subst h
    exact asks_act rfl
  · exact asks_notice asks plain_of_ordinary m h

end

end Service

end BuildServer
