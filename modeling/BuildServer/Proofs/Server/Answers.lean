import Mathlib.Data.List.Nodup
import BuildServer.Proofs.Dialogue.Ensures
import BuildServer.Proofs.Server.Repertoire
import BuildServer.Proofs.Server.Session
import BuildServer.Proofs.Server.WatchedFiles

namespace BuildServer

theorem Dialogue.Ensures.leads {Q α : Type} {A : Q → Type} {P : α → Prop} {d : Dialogue A α}
    {qs : List Q} {a : α} (h : d.Ensures P) (leads : d.Leads qs (.done a)) : P a := by
  generalize hd : Dialogue.done a = d' at leads
  induction leads with
  | stay =>
    subst hd
    exact h
  | ask b _ ih => exact ih (h b) hd

namespace Service

open Dialogue (Asks Leads)

def refusal? (m : Incoming) : Request → Option JsonError
  | .sources => error? (m.params Params.targets)
  | .prepare => error? (m.params Params.targets)
  | .inverseSources => error? (m.params Params.inverseSources)
  | .registerForChanges => error? (m.params (Json.optional Params.registration))
  | .options => error? (m.params Params.optionsQuery)
  | _ => none
where
  error? {ε α : Type} : Except ε α → Option ε
    | .error e => some e
    | .ok _ => none

variable {s : Service} {m : Incoming} {r : Request}

theorem withParams_error {α : Type} {reader : Json.Reader α} {f : α → Program Reply} {e : JsonError}
    (h : refusal?.error? (m.params reader) = some e) :
    withParams m reader f = .done (.error (.invalidParams e)) := by
  unfold withParams
  cases hp : m.params reader with
  | error e' =>
    rw [hp] at h
    obtain rfl := Option.some.inj h
    rfl
  | ok a =>
    rw [hp] at h
    cases h

theorem handle_refused {e : JsonError} (h : refusal? m r = some e) :
    s.handle m r = .done (.error (.invalidParams e)) := by
  cases r with
  | sources | prepare | inverseSources | registerForChanges | options => exact withParams_error h
  | _ => cases h

def Fitting (reply : Reply) : Prop := ∀ e, reply ≠ .error (.invalidParams e)

theorem fitting_internal (e : BuildError) : Fitting (.error (.ofBuild e)) := by
  intro e'
  simp [RequestError.ofBuild]

theorem fitting_ok (value : Json) : Fitting (.ok value) := by simp [Fitting]

theorem ensures_anything {α : Type} (p : Program α) : p.Ensures fun _ => True :=
  Dialogue.ensures_of_forall p fun _ => trivial

theorem ensures_bind {α β : Type} {P : β → Prop} (p : Program α) {f : α → Program β}
    (hf : ∀ a, (f a).Ensures P) : (p.bind f).Ensures P :=
  Dialogue.Ensures.bind (ensures_anything p) fun a _ => hf a

theorem fitting_finishing (p : Program Unit) : (done p).Ensures Fitting :=
  ensures_bind p fun _ => fitting_ok _

theorem fitting_replyFrom (s : Service) (f : Snapshot → Program Json) :
    (s.replyFrom f).Ensures Fitting := by
  apply ensures_bind s.snapshot
  intro built
  cases built with
  | error e => exact fitting_internal e
  | ok snapshot => exact ensures_bind (f snapshot) fun _ => fitting_ok _

theorem fitting_withParams {α : Type} {reader : Json.Reader α} {f : α → Program Reply}
    (h : refusal?.error? (m.params reader) = none) (hf : ∀ a, (f a).Ensures Fitting) :
    (withParams m reader f).Ensures Fitting := by
  unfold withParams
  cases hp : m.params reader with
  | error e =>
    rw [hp] at h
    cases h
  | ok a => exact hf a

theorem fitting_handle (h : refusal? m r = none) : (s.handle m r).Ensures Fitting := by
  cases r with
  | start =>
    apply ensures_bind s.snapshot
    intro built
    cases built with
    | error e => exact fitting_internal e
    | ok snapshot => exact fitting_ok _
  | shutdown => exact fitting_finishing _
  | buildTargets => exact fitting_replyFrom s _
  | sources => exact fitting_withParams h fun _ => fitting_replyFrom s _
  | inverseSources =>
    apply fitting_withParams h
    intro document
    unfold inverseSources
    split
    · exact fitting_ok _
    · exact fitting_replyFrom s _
  | prepare =>
    apply fitting_withParams h
    intro targets
    apply ensures_bind (s.prepare targets)
    intro result
    cases result with
    | error e => exact fitting_internal e
    | ok _ => exact fitting_ok _
  | registerForChanges => exact fitting_withParams h fun _ => fitting_finishing _
  | options => exact fitting_withParams h fun q => ensures_bind (s.options q) fun _ => fitting_ok _
  | wait => exact fitting_finishing _

def Mute {α : Type} (p : Program α) : Prop := p.Asks (·.answers? = none)

theorem Mute.bind {α β : Type} {p : Program α} {f : α → Program β} (hp : Mute p)
    (hf : ∀ a, Mute (f a)) : Mute (p.bind f) :=
  Asks.bind hp hf

theorem silent_of_plain {a : Action} (h : a.isPlain = true) : a.answers? = none := by
  cases a <;> first | rfl | cases h

theorem Plain.mute {α : Type} {p : Program α} (h : Plain p) : Mute p :=
  h.mono fun _ => silent_of_plain

theorem Building.mute {α : Type} {p : Program α} (h : Building p) : Mute p := by
  apply h.mono
  rintro a (plain | records)
  · exact silent_of_plain plain
  · cases a <;> first | rfl | cases records

theorem Telling.mute {α : Type} {p : Program α} (h : Telling p) : Mute p := by
  apply h.mono
  rintro a (looks | notifies)
  · exact silent_of_plain (plain_of_look looks)
  · cases a with
    | send out => cases out <;> first | rfl | cases notifies
    | _ => rfl

theorem mute_prepare (s : Service) (uris : List String) : Mute (s.prepare uris) := by
  rw [prepare_eq]
  refine ⟨rfl, fun _ => (building_prepareTargets s uris).mute.bind fun result => ?_⟩
  exact ⟨rfl, fun _ => ⟨rfl, fun changes => (telling_tell s changes).mute.bind fun _ => trivial⟩⟩

theorem mute_handle (asks : s.AsksForRefresh) (m : Incoming) (r : Request) : Mute (s.handle m r) := by
  by_cases h : r = .prepare
  · subst h
    unfold handle withParams
    dsimp only
    split
    · trivial
    · apply (mute_prepare s _).bind
      intro result
      cases result <;> trivial
  · exact (plain_handle asks m h).mute

theorem mute_backgroundRefresh (s : Service) : Mute s.backgroundRefresh := by
  rw [backgroundRefresh_eq]
  refine (building_recordedRefresh s false).mute.bind fun _ => ⟨rfl, fun changes => ?_⟩
  exact (telling_tell s changes).mute.bind fun _ => ⟨rfl, fun _ => ⟨rfl, fun _ => trivial⟩⟩

/-- What the task for a message does: nothing if the message has no identifier, and otherwise it answers
last and once. An unknown method and parameters that do not fit are answered at once. -/
inductive Answers (s : Service) (m : Incoming) : List Action → Prop
  | ignored (anonymous : m.id = none) : Answers s m []
  | unknown (id : RequestId) (named : m.id = some id) (method : m.request? = none) :
    Answers s m [.send (.error id ⟨-32601, "Method not found: " ++ m.method⟩)]
  | refused (id : RequestId) (r : Request) (e : JsonError) (named : m.id = some id)
    (method : m.request? = some r) (params : refusal? m r = some e) :
    Answers s m [.send (.error id ⟨-32602, "Invalid params: " ++ e.message⟩)]
  | failed (id : RequestId) (r : Request) (work : List Action) (causes : List String)
    (named : m.id = some id) (method : m.request? = some r) (params : refusal? m r = none)
    (handled : (s.handle m r).Leads work (.done (.error (.internal causes))))
    (mute : ∀ a ∈ work, a.answers? = none) :
    Answers s m (work ++ [.send (.error id ⟨-32603, String.intercalate ": " causes⟩)])
  | succeeded (id : RequestId) (r : Request) (work : List Action) (value : Json)
    (named : m.id = some id) (method : m.request? = some r) (params : refusal? m r = none)
    (handled : (s.handle m r).Leads work (.done (.ok value)))
    (mute : ∀ a ∈ work, a.answers? = none) :
    Answers s m (work ++ [.send (.result id value)])

theorem answers_of_leads (asks : s.AsksForRefresh) {actions : List Action}
    (h : (s.respond m.request? m).Leads actions (.done ())) : s.Answers m actions := by
  cases hid : m.id with
  | none =>
    rw [respond_anonymous hid] at h
    exact h.of_done.1 ▸ .ignored hid
  | some id =>
    cases hr : m.request? with
    | none =>
      rw [hr, respond_unknown hid] at h
      exact h.of_ask_done (fun _ => rfl) ▸ .unknown id hid hr
    | some r =>
      rw [hr, respond_request hid] at h
      obtain ⟨work, last, reply, rfl, hwork, hlast⟩ := h.of_bind
      obtain rfl := hlast.of_ask_done fun _ => rfl
      cases hparams : refusal? m r with
      | some e =>
        rw [handle_refused hparams] at hwork
        obtain ⟨rfl, rfl⟩ := hwork.of_done
        exact .refused id r e hid hr hparams
      | none =>
        have mute := ((mute_handle asks m r).leads hwork).1
        rcases reply with (e | causes) | value
        · exact absurd rfl ((fitting_handle hparams).leads hwork e)
        · exact .failed id r work causes hid hr hparams hwork mute
        · exact .succeeded id r work value hid hr hparams hwork mute

theorem Answers.ids {actions : List Action} (h : s.Answers m actions) :
    actions.filterMap Action.answers? = m.id.toList := by
  have silent {work : List Action} (mute : ∀ a ∈ work, a.answers? = none) :
      work.filterMap Action.answers? = [] := by
    rw [List.filterMap_eq_nil_iff]
    exact mute
  cases h with
  | ignored anonymous => rw [anonymous]; rfl
  | unknown id named => rw [named]; rfl
  | refused id r e named => rw [named]; rfl
  | failed id r work causes named _ _ _ mute | succeeded id r work value named _ _ _ mute =>
    rw [List.filterMap_append, silent mute, named]
    rfl

theorem Answers.only_sends {actions : List Action} (h : s.Answers m actions)
    (refused : m.request? = none ∨ ∃ r e, m.request? = some r ∧ refusal? m r = some e) :
    ∀ a ∈ actions, ∃ out, a = .send out := by
  have contradicts {r : Request} (method : m.request? = some r) (params : refusal? m r = none) : False := by
    rcases refused with hnone | ⟨r', e, hr, he⟩
    · rw [method] at hnone
      cases hnone
    · rw [method] at hr
      obtain rfl := Option.some.inj hr
      rw [params] at he
      cases he
  cases h with
  | ignored => simp
  | unknown => simp
  | refused => simp
  | failed _ _ _ _ _ method params => exact (contradicts method params).elim
  | succeeded _ _ _ _ _ method params => exact (contradicts method params).elim

end Service

namespace Server

def did? {β : Type} (f : Action → Option β) : Event → Option β
  | .did _ a => f a
  | _ => none

theorem perm_flatMap_cons {α β : Type} {l : List α} {j : α} {g g' : α → List β} {b : β} (distinct : l.Nodup)
    (hj : j ∈ l) (hg : g' j = b :: g j) (hne : ∀ i, i ≠ j → g' i = g i) :
    (l.flatMap g').Perm (b :: l.flatMap g) := by
  obtain ⟨x, y, rfl⟩ := List.append_of_mem hj
  have hother (z : List α) (hz : j ∉ z) : z.flatMap g' = z.flatMap g := by
    apply List.flatMap_congr
    intro i hi
    exact hne i fun hij => hz (hij ▸ hi)
  rw [List.nodup_middle, List.nodup_cons, List.mem_append, not_or] at distinct
  rw [List.flatMap_append, List.flatMap_cons, List.flatMap_append, List.flatMap_cons, hg,
    hother x distinct.1.1, hother y distinct.1.2, List.cons_append]
  exact List.perm_middle

theorem perm_actionsOf {β : Type} {f : Action → Option β} {n : Nat} {es : List Event}
    (h : ∀ who a b, .did who a ∈ es → f a = some b → ∃ i < n, who = .task i) :
    (es.filterMap (did? f)).Perm
      ((List.range n).flatMap fun i => (actionsOf (.task i) es).filterMap f) := by
  induction es with
  | nil => simp
  | cons e es ih =>
    have hes := ih fun who a b ha hb => h who a b (List.mem_cons_of_mem _ ha) hb
    have hcons (i : Nat) : (actionsOf (.task i) (e :: es)).filterMap f =
        (actionsOf (.task i) [e]).filterMap f ++ (actionsOf (.task i) es).filterMap f := by
      rw [← List.filterMap_append, ← actionsOf_append, List.singleton_append]
    have hsilent (hf : did? f e = none) (i : Nat) : (actionsOf (.task i) [e]).filterMap f = [] := by
      cases e with
      | did who a =>
        by_cases hw : who = .task i
        · subst hw
          rw [actionsOf_did]
          simpa [did?] using hf
        · rw [actionsOf_did_ne hw]
          rfl
      | _ => rfl
    cases hf : did? f e with
    | none =>
      rw [List.filterMap_cons, hf]
      simpa only [hcons, hsilent hf, List.nil_append] using hes
    | some b =>
      cases e with
      | did who a =>
        obtain ⟨j, hj, rfl⟩ := h who a b List.mem_cons_self hf
        rw [List.filterMap_cons, hf]
        refine (hes.cons b).trans (perm_flatMap_cons List.nodup_range (List.mem_range.2 hj) ?_ ?_).symm
        · have ha : f a = some b := hf
          rw [hcons, actionsOf_did, List.filterMap_cons, ha]
          rfl
        · intro i hi
          rw [hcons, actionsOf_did_ne (by simpa using Ne.symm hi)]
          rfl
      | _ => cases hf

variable {κ : Type} {client : Client κ} {service : Service} {site : κ} {store : Store}
  {chunks : List Bytes} {es : List Event} {s s' : Server κ} {m : Incoming} {i : Nat}

theorem written (run : Run client service (.initial site store) es s) :
    s.shared.writer = ⟨es.filterMap (did? Action.sends?), none⟩ := by
  induction run with
  | start => rfl
  | @move es u v before m hm ih =>
    have step := step_of_move hm
    rw [List.filterMap_append]
    generalize u.event? m = e at step ⊢
    rcases step.effect with ⟨hother, accepted, shared⟩ | ⟨who, _, a, _, answer, rfl, -, answered⟩
    · have hnone : e.toList.filterMap (did? Action.sends?) = [] := by
        rcases e with _ | (_ | _ | ⟨who, a⟩)
        · rfl
        · rfl
        · rfl
        · exact absurd rfl (hother who a)
      rw [hnone, List.append_nil, shared, ih]
    · rw [Shared.perform_writer answered]
      cases a with
      | send out => rw [ih]; rfl
      | _ => exact ih.trans (by simp [did?, Action.sends?])

def MayAnswer (role : Role) (a : Action) : Prop := role = .task .request ∨ a.answers? = none

theorem restrained_answers (asks : service.AsksForRefresh) :
    Restrained service (fun _ => True) MayAnswer where
  notice m n _ _ := (Service.plain_notice asks m n).mute.mono fun _ => .inr
  request _ _ := Dialogue.asks_of_forall _ fun _ => .inl rfl
  refresh := (Service.mute_backgroundRefresh service).mono fun _ => .inr

theorem answered_by_task (asks : service.AsksForRefresh)
    (run : Run client service (.initial site store) es s) {who : Actor} {a : Action} {id : RequestId}
    (ha : .did who a ∈ es) (hid : a.answers? = some id) : ∃ i m, who = .task i ∧ WorksOn es i m := by
  have restrains := restrains (restrained_answers asks) run fun _ _ => trivial
  obtain ⟨role, p, hp, hrole⟩ := restrains.behind who a ha
  rcases hrole with rfl | hnone
  · cases who with
    | reader => cases hp
    | task i =>
      obtain ⟨m, hm⟩ := (origins run).request hp
      exact ⟨i, m, rfl, hm⟩
  · rw [hid] at hnone
    cases hnone

theorem flatMap_getElem? {α β : Type} (l : List α) (g : Option α → List β) :
    ((List.range l.length).flatMap fun i => g l[i]?) = l.flatMap fun a => g (some a) := by
  induction l with
  | nil => rfl
  | cons a l ih =>
    rw [List.length_cons, List.range_succ_eq_map, List.flatMap_cons, List.flatMap_map, List.flatMap_cons, ← ih]
    rfl

theorem flatMap_ids (ps : List Purpose) :
    (ps.flatMap fun p => (p.bind Incoming.id).toList) = (ps.filterMap id).filterMap Incoming.id := by
  induction ps with
  | nil => rfl
  | cons p ps ih =>
    rw [List.flatMap_cons, ih]
    cases p with
    | none => rfl
    | some m =>
      rw [List.filterMap_cons_some (f := id) rfl, List.filterMap_cons]
      cases h : m.id <;> simp [h]

theorem purposes_messages (es : List Event) :
    (purposes es).filterMap id = (messages es).filter fun m => !m.isNotice := by
  induction es with
  | nil => rfl
  | cons e es ih =>
    rw [purposes, messages, List.filterMap_cons, List.filterMap_cons, ← purposes, ← messages]
    cases e with
    | taken m =>
      cases h : m.isNotice <;> simp [started?, taken?, h]
      all_goals exact ih
    | begun i => simpa [started?, taken?] using ih
    | did who a => simpa [started?, taken?] using ih

def OnlyWrites (client : Client κ) (service : Service) (first : Server κ) (es : List Event)
    (last : Server κ) (own : Event → Prop) : Prop :=
  ∀ x e y, es = x ++ e :: y → own e → ∃ u v, Run client service first x u ∧
    Step client service u (some e) v ∧ Run client service v y last ∧
    v.shared = { u.shared with writer := v.shared.writer }

theorem onlyWrites_of_sends {first : Server κ} (run : Run client service first es s)
    (sends : ∀ a ∈ actionsOf (.task i) es, ∃ out, a = .send out) :
    OnlyWrites client service first es s fun e => e = .taken m ∨ ∃ a, e = .did (.task i) a := by
  rintro x e y rfl own
  obtain ⟨u, v, hx, step, -, hy⟩ := run.at
  refine ⟨u, v, hx, step, hy, ?_⟩
  rcases own with rfl | ⟨a, rfl⟩
  · cases step with
    | notice _ _ _ _ shared => rw [shared]
    | request _ _ _ _ _ _ shared => rw [shared]
  · have ha : a ∈ actionsOf (.task i) (x ++ .did (.task i) a :: y) := mem_actionsOf.2 (by simp)
    obtain ⟨out, rfl⟩ := sends a ha
    cases step with
    | act _ _ _ _ _ _ answered => exact Shared.perform_send answered

section

variable (asks : service.AsksForRefresh) (run : Run client service (.initial site store) es s)
  (done : ∀ t ∈ s.tasks, t.kind = .request → t.program = .done ())

include asks run done

theorem task_answers (works : WorksOn es i m) : service.Answers m (actionsOf (.task i) es) := by
  obtain ⟨d, hd, leads⟩ := (origins run).course i _ works
  rw [thread?, Option.map_eq_some_iff] at hd
  obtain ⟨t, ht, heq⟩ := hd
  obtain ⟨hkind, rfl⟩ := Prod.mk.inj heq
  rw [done t (List.mem_of_getElem? ht) (Role.task.inj hkind)] at leads
  exact Service.answers_of_leads asks leads

theorem answered_message {who : Actor} {a : Action} {id : RequestId} (ha : .did who a ∈ es)
    (hid : a.answers? = some id) : ∃ i m, who = .task i ∧ WorksOn es i m ∧ m.id = some id := by
  obtain ⟨i, m, rfl, works⟩ := answered_by_task asks run ha hid
  have hmem : id ∈ (actionsOf (.task i) es).filterMap Action.answers? :=
    List.mem_filterMap.2 ⟨a, mem_actionsOf.2 ha, hid⟩
  rw [(task_answers asks run done works).ids, Option.mem_toList] at hmem
  exact ⟨i, m, rfl, works, hmem⟩

theorem task_ids (i : Nat) : (actionsOf (.task i) es).filterMap Action.answers? =
    ((purposes es)[i]?.bind fun p => p.bind Incoming.id).toList := by
  by_cases h : ∃ m, WorksOn es i m
  · obtain ⟨m, works⟩ := h
    rw [(task_answers asks run done works).ids, works]
    rfl
  · have hnone : ((purposes es)[i]?.bind fun p => p.bind Incoming.id) = none := by
      rcases hp : (purposes es)[i]? with _ | _ | m
      · rfl
      · rfl
      · exact absurd ⟨m, hp⟩ h
    rw [hnone, Option.toList_none, List.filterMap_eq_nil_iff]
    intro a ha
    by_contra hid
    obtain ⟨id, hid⟩ := Option.ne_none_iff_exists'.1 hid
    obtain ⟨j, m, hj, works, -⟩ := answered_message asks run done (mem_actionsOf.1 ha) hid
    obtain rfl := Actor.task.inj hj
    exact h ⟨m, works⟩

theorem perm_answered_ids : (s.shared.writer.written.filterMap Outgoing.answers?).Perm
    (((messages es).filter fun m => !m.isNotice).filterMap Incoming.id) := by
  have written : s.shared.writer.written.filterMap Outgoing.answers? =
      es.filterMap (did? Action.answers?) := by
    rw [written run, List.filterMap_filterMap]
    congr 1
    funext e
    cases e <;> rfl
  have byTask (who : Actor) (a : Action) (id : RequestId) (ha : .did who a ∈ es)
      (hid : a.answers? = some id) : ∃ i < (purposes es).length, who = .task i := by
    obtain ⟨i, m, rfl, works, -⟩ := answered_message asks run done ha hid
    exact ⟨i, (List.getElem?_eq_some_iff.1 works).1, rfl⟩
  rw [written, ← purposes_messages, ← flatMap_ids]
  apply (perm_actionsOf byTask).trans
  simp only [task_ids asks run done]
  exact .of_eq (flatMap_getElem? (purposes es) fun p => (p.bind fun p => p.bind Incoming.id).toList)

end

/-- A server that returns at the end of its input has answered every request that has an identifier, once
and by the task for it, and nothing else. What it refuses has no effect but the refusal. -/
theorem requests_answered_once (asks : service.AsksForRefresh)
    (session : Session client service (.initial site store) chunks es s) (closed : s.input = .closed)
    (returns : s.move client service .finish = some s') :
    (s'.shared.writer.written.filterMap Outgoing.answers?).Perm
      (((Incoming.feedAll .empty chunks).1.filter fun m => !m.isNotice).filterMap Incoming.id) ∧
    (purposes es).filterMap id = ((Incoming.feedAll .empty chunks).1.filter fun m => !m.isNotice) ∧
    (∀ who a id, .did who a ∈ es → a.answers? = some id →
      ∃ i m, who = .task i ∧ WorksOn es i m ∧ m.id = some id) ∧
    ∀ i m, WorksOn es i m → service.Answers m (actionsOf (.task i) es) ∧
      (m.request? = none ∨ (∃ r e, m.request? = some r ∧ Service.refusal? m r = some e) →
        OnlyWrites client service (.initial site store) es s
          fun e => e = .taken m ∨ ∃ a, e = .did (.task i) a) := by
  have run := session.run
  obtain ⟨inbox, done, shared⟩ := finish_closed closed returns
  have all : (Incoming.feedAll .empty chunks).1 = messages es := by
    rw [session.feedAll, inbox, List.append_nil]
  rw [all, shared]
  refine ⟨perm_answered_ids asks run done, purposes_messages es, ?_, fun i m works => ?_⟩
  · intro who a id ha hid
    exact answered_message asks run done ha hid
  · have answers := task_answers asks run done works
    exact ⟨answers, fun refused => onlyWrites_of_sends run (answers.only_sends refused)⟩

section

def strangeRequest : Incoming :=
  { method := "build/strange", id := some (.int 7)
    body := Utf8.encode "\x7b\"id\":7,\"method\":\"build/strange\"\x7d" }

def shutdownRequest : Incoming :=
  { method := "build/shutdown", id := some (.str "7")
    body := Utf8.encode "\x7b\"id\":\"7\",\"method\":\"build/shutdown\"\x7d" }

def bothRequests : List Move :=
  [.receive (Frame.wrap strangeRequest.body ++ Frame.wrap shutdownRequest.body), .handle, .handle,
    .step 1, .step 1, .step 0, .close]

def bothAnswered : List Event × Server Unit :=
  play emptyProject emptyService bothRequests (.initial () (.memory .empty))

theorem both_requests_answered :
    ∃ s', bothAnswered.2.move emptyProject emptyService .finish = some s' ∧
      (s'.shared.writer.written.filterMap Outgoing.answers?).Perm [.int 7, .str "7"] ∧
      emptyService.Answers strangeRequest (actionsOf (.task 0) bothAnswered.1) ∧
      emptyService.Answers shutdownRequest (actionsOf (.task 1) bothAnswered.1) := by
  have heard : heard emptyProject emptyService bothRequests (.initial () (.memory .empty)) =
      [Frame.wrap strangeRequest.body ++ Frame.wrap shutdownRequest.body] := by decide +kernel
  have session : Session emptyProject emptyService (.initial () (.memory .empty)) _ bothAnswered.1
      bothAnswered.2 := session_play bothRequests _
  rw [heard] at session
  have closed : bothAnswered.2.input = .closed := by decide +kernel
  have possible : (bothAnswered.2.move emptyProject emptyService .finish).isSome := by decide +kernel
  obtain ⟨s', returns⟩ := Option.isSome_iff_exists.1 possible
  obtain ⟨ids, started, -, answers⟩ := requests_answered_once (fun _ => rfl) session closed returns
  have asked : ((Incoming.feedAll .empty
      [Frame.wrap strangeRequest.body ++ Frame.wrap shutdownRequest.body]).1.filter
        fun m => !m.isNotice) = [strangeRequest, shutdownRequest] := by decide +kernel
  rw [asked] at ids
  have purposes : purposes bothAnswered.1 = [some strangeRequest, some shutdownRequest] := by
    decide +kernel
  refine ⟨s', returns, ids, (answers 0 _ ?_).1, (answers 1 _ ?_).1⟩
  · rw [WorksOn, purposes]
    rfl
  · rw [WorksOn, purposes]
    rfl

end

end Server

end BuildServer
