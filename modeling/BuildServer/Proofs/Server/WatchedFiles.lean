import BuildServer.Proofs.Server.BackgroundRefresh

namespace BuildServer

def Incoming.isRelevantChange (m : Incoming) : Bool :=
  Registry.standard.lookup m.method == some (.notice .filesChanged) &&
    match m.params (Json.optional Params.fileEvents) with
    | .error _ => false
    | .ok events => Watch.hasRelevant ((events.getD []).map Params.FileEvent.uri)

theorem Incoming.isRelevantChange.lookup {m : Incoming} (h : m.isRelevantChange = true) :
    Registry.standard.lookup m.method = some (.notice .filesChanged) := by
  simp only [Incoming.isRelevantChange, Bool.and_eq_true, beq_iff_eq] at h
  exact h.1

theorem Service.notice_relevant {s : Service} {m : Incoming} (asks : s.AsksForRefresh)
    (relevant : m.isRelevantChange = true) :
    s.notice m .filesChanged =
      .ask .invalidate fun _ => .ask (.requestRefresh "didChangeWatchedFiles") .done := by
  simp only [Incoming.isRelevantChange, Bool.and_eq_true] at relevant
  obtain ⟨-, relevant⟩ := relevant
  rw [notice]
  cases h : m.params (Json.optional Params.fileEvents) with
  | error e =>
    rw [h] at relevant
    cases relevant
  | ok events =>
    rw [h] at relevant
    dsimp only at relevant ⊢
    rw [filesChanged, if_pos relevant, asks]
    rfl

namespace Server

variable {κ : Type} {client : Client κ} {service : Service} {site : κ} {store : Store}
  {before rest : List Event} {s u : Server κ} {m : Incoming}

theorem change_handled (asks : service.AsksForRefresh) (relevant : m.isRelevantChange = true)
    (run : Run client service u (.taken m :: rest) s)
    (handled : s.handling.result?.isSome = true ∨ ∃ m', .taken m' ∈ rest) :
    ∃ during after, rest = during ++ .did .reader (.requestRefresh "didChangeWatchedFiles") :: after ∧
      .did .reader .invalidate ∈ during ∧ ∀ m', .taken m' ∉ during := by
  obtain ⟨v, w, -, step, -, hrest⟩ := run.first
  have known := Incoming.isRelevantChange.lookup relevant
  have here : w.thread? .reader = some (.reader, .ask .invalidate fun _ =>
      .ask (.requestRefresh "didChangeWatchedFiles") .done) := by
    cases step with
    | notice _ n known' _ _ threads =>
      rw [known] at known'
      obtain rfl : n = .filesChanged := by simpa using known'.symm
      rw [threads, Function.update_self, Service.notice_relevant asks relevant]
    | request _ r _ known' =>
      rw [known] at known'
      cases r <;> simp at known'
  -- Somebody who is behind the last of two actions has taken both.
  have past (a : Action) (go : a.Answer → Program Unit) (es : List Event)
      (hs : s.thread? .reader = some (.reader, .ask a go)) (ht : ∀ m', .taken m' ∉ es)
      (handled : s.handling.result?.isSome = true ∨ ∃ m', .taken m' ∈ es) : False := by
    rcases handled with hd | ⟨m', hm'⟩
    · simp only [thread?, Option.some.injEq, Prod.mk.injEq, true_and] at hs
      simp [hs, Dialogue.result?] at hd
    · exact ht m' hm'
  rcases hrest.next_action here with ⟨hs, ht⟩ | ⟨x, y, answer, w₁, rfl, hx, here₁, hy⟩
  · exact (past _ _ rest hs (ht rfl) handled).elim
  · have handled₁ : s.handling.result?.isSome = true ∨ ∃ m', .taken m' ∈ y := by
      apply handled.imp id
      rintro ⟨m', hm'⟩
      exact ⟨m', by simpa [hx rfl m'] using hm'⟩
    rcases hy.next_action here₁ with ⟨hs, ht⟩ | ⟨x', y', _, -, rfl, hx', -, -⟩
    · exact (past _ _ y hs (ht rfl) handled₁).elim
    · refine ⟨x ++ .did .reader .invalidate :: x', y', by simp, by simp, fun m' hm' => ?_⟩
      simp [hx rfl m', hx' rfl m'] at hm'

/-- Whatever the order of moves, a relevant change is read behind its notice before the server is
without a background refresh again, unless one was reading when it was asked to. -/
theorem watched_change_refreshed (asks : service.AsksForRefresh) (relevant : m.isRelevantChange = true)
    (run : Run client service (.initial site store) (before ++ .taken m :: rest) s)
    (handled : s.handling.result?.isSome = true ∨ ∃ m', .taken m' ∈ rest)
    (idle : s.shared.state.inFlight = false) :
    ∃ during after, rest = during ++ .did .reader (.requestRefresh "didChangeWatchedFiles") :: after ∧
      .did .reader .invalidate ∈ during ∧ (∀ m', .taken m' ∉ during) ∧
      (¬Reading (before ++ .taken m :: during) →
        Refreshed (before ++ .taken m :: during ++
          [.did .reader (.requestRefresh "didChangeWatchedFiles")]) after s) := by
  obtain ⟨u, hbefore, hrest⟩ := run.split
  obtain ⟨during, after, rfl, hi, ht⟩ := change_handled asks relevant hrest handled
  refine ⟨during, after, rfl, hi, ht, fun fresh => ?_⟩
  rw [← List.cons_append] at hrest
  obtain ⟨v, hduring, hafter⟩ := hrest.split
  exact refreshed_of_request asks (hbefore.trans hduring) hafter fresh idle

/-- Whenever no background refresh is in flight, every relevant change that was handled has been read
by a refresh that made its first call behind the notice, for an answer that is not cached. -/
def EveryChangeIsRead (client : Client κ) (service : Service) (site : κ) (store : Store) : Prop :=
  ∀ before m rest s, m.isRelevantChange = true →
    Run client service (.initial site store) (before ++ .taken m :: rest) s →
    (s.handling.result?.isSome = true ∨ ∃ m', .taken m' ∈ rest) →
    s.shared.state.inFlight = false →
    ∃ who x c y, rest = x ++ .did who (.probe (.call c)) :: y ∧
      BeforeCalls (before ++ .taken m :: x) who ∧ c.cached? = some false ∧
      .did who .finishRefresh ∈ y

section

def emptyProject : Client Unit where
  answer c k :=
    match c with
    | .list _ => (.ok ⟨none, none⟩, k)
    | .index _ _ => (.ok .empty, k)
    | .settings _ _ => (.ok [], k)
    | .warmup _ => (.ok (), k)
  view _ := ⟨fun _ => false, id⟩

def emptyService : Service :=
  { project := "App", active := [], cacheDir := "/cache", optionsChanged := false
    trigger := fun reason => Program.act (.requestRefresh reason) }

def someChange : Incoming :=
  { method := "workspace/didChangeWatchedFiles", id := none
    body := Utf8.encode ("\x7b\"method\":\"workspace/didChangeWatchedFiles\",\"params\":" ++
      "\x7b\"changes\":[\x7b\"uri\":\"untitled:1\",\"type\":2\x7d]\x7d\x7d") }

def told (s : Server κ) : Server κ :=
  { s with
    inbox := []
    handling := .ask .invalidate fun _ => .ask (.requestRefresh "didChangeWatchedFiles") .done }

theorem someChange_relevant : someChange.isRelevantChange = true := by decide +kernel

theorem feed_someChange :
    Incoming.feed .empty (Frame.wrap someChange.body) = ([someChange], .empty) := by decide +kernel

theorem run_taken (whole : Incoming.feed .empty (Frame.wrap m.body) = ([m], .empty))
    (reading : s.isReading = true) (opened : s.input = .opened) (clean : s.decoder = .empty) :
    Run client service s [.taken m] (dispatch service m { s with inbox := [] }) := by
  have received : s.move client service (.receive (Frame.wrap m.body)) = some { s with inbox := [m] } := by
    simp [move, reading, opened, clean, whole]
  have idle : s.handling = .done () := by
    simp only [isReading, Bool.and_eq_true] at reading
    cases h : s.handling with
    | done u => rfl
    | ask a go => simp [h, Dialogue.result?] at reading
  have handled : ({ s with inbox := [m] } : Server κ).move client service .handle =
      some (dispatch service m { s with inbox := [] }) := by
    simp [move, idle]
  exact (Run.start.move _ received).move _ handled

theorem run_told (asks : service.AsksForRefresh) (reading : s.isReading = true)
    (opened : s.input = .opened) (clean : s.decoder = .empty) :
    Run client service s [.taken someChange] (told s) := by
  have handled : dispatch service someChange { s with inbox := [] } = told s := by
    simp [dispatch, Incoming.isRelevantChange.lookup someChange_relevant, told,
      Service.notice_relevant asks someChange_relevant]
  rw [← handled]
  exact run_taken feed_someChange reading opened clean

def firstReading : List Event × Server Unit :=
  play emptyProject emptyService [.goOn, .goOn, .beginRefresh, .step 0, .step 0]
    (told (.initial () (.memory .empty)))

def restOfReading : List Event × Server Unit :=
  play emptyProject emptyService ([.goOn, .goOn] ++ List.replicate 5 (.step 0)) (told firstReading.2)

def isCall : Event → Bool
  | .did _ (.probe (.call _)) => true
  | _ => false

theorem change_can_be_lost : ¬EveryChangeIsRead emptyProject emptyService () (.memory .empty) := by
  intro h
  have asks : emptyService.AsksForRefresh := fun _ => rfl
  have first : Run emptyProject emptyService (.initial () (.memory .empty)) [.taken someChange] _ :=
    run_told asks rfl rfl rfl
  have second : Run emptyProject emptyService firstReading.2 [.taken someChange] _ :=
    run_told asks (by decide +kernel) (by decide +kernel) (by decide +kernel)
  have reading : Run emptyProject emptyService _ firstReading.1 firstReading.2 := run_play _ _
  have rest : Run emptyProject emptyService _ restOfReading.1 restOfReading.2 := run_play _ _
  have run := ((first.trans reading).trans second).trans rest
  obtain ⟨who, x, c, y, hrest, -⟩ := h ([.taken someChange] ++ firstReading.1) someChange
    restOfReading.1 restOfReading.2 someChange_relevant (by simpa using run) (.inl (by decide +kernel))
    (by decide +kernel)
  have hnone : restOfReading.1.any isCall = false := by decide +kernel
  rw [hrest] at hnone
  simp [isCall] at hnone

def onlyReading : List Event × Server Unit :=
  play emptyProject emptyService (.beginRefresh :: List.replicate 8 (.step 0))
    (play emptyProject emptyService [.goOn, .goOn] (told (.initial () (.memory .empty)))).2

def isRequest : Event → Bool
  | .did _ (.requestRefresh _) => true
  | _ => false

theorem some_change_refreshed :
    onlyReading.2.shared.state.inFlight = false ∧
      Refreshed [.taken someChange, .did .reader .invalidate,
        .did .reader (.requestRefresh "didChangeWatchedFiles")] onlyReading.1 onlyReading.2 := by
  have asks : emptyService.AsksForRefresh := fun _ => rfl
  have idle : onlyReading.2.shared.state.inFlight = false := by decide +kernel
  have first : Run emptyProject emptyService (.initial () (.memory .empty)) [.taken someChange] _ :=
    run_told asks rfl rfl rfl
  have handling : Run emptyProject emptyService (told (.initial () (.memory .empty)))
      [.did .reader .invalidate, .did .reader (.requestRefresh "didChangeWatchedFiles")] _ :=
    run_play [.goOn, .goOn] _
  have reading : Run emptyProject emptyService _ onlyReading.1 onlyReading.2 := run_play _ _
  have run : Run emptyProject emptyService (.initial () (.memory .empty))
      ([] ++ .taken someChange :: .did .reader .invalidate ::
        .did .reader (.requestRefresh "didChangeWatchedFiles") :: onlyReading.1) onlyReading.2 :=
    first.trans (handling.trans reading)
  obtain ⟨during, after, hrest, -, -, refreshed⟩ :=
    watched_change_refreshed asks someChange_relevant run (.inl (by decide +kernel)) idle
  have hnone : onlyReading.1.any isRequest = false := by decide +kernel
  obtain ⟨rfl, rfl⟩ : during = [.did .reader .invalidate] ∧ after = onlyReading.1 := by
    rcases during with _ | ⟨e, _ | ⟨e', during⟩⟩
    · simp at hrest
    · simpa [eq_comm] using hrest
    · have hbehind : onlyReading.1 = during ++ _ :: after := (List.cons.inj (List.cons.inj hrest).2).2
      rw [hbehind] at hnone
      simp [isRequest] at hnone
  exact ⟨idle, refreshed (by simp [Reading])⟩

end

end Server

end BuildServer
