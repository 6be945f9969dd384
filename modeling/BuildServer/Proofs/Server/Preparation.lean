import BuildServer.Proofs.Graph.Consistency
import BuildServer.Proofs.Server.Answers

namespace BuildServer

def Action.puts? : Action → Option Snapshot
  | .replaceSnapshot s => some s
  | _ => none

namespace Service

open Dialogue (Asks Leads)

def lastPut (actions : List Action) : Option Snapshot :=
  (actions.filterMap Action.puts?).getLast?

def storing? (project : String) (s : Snapshot) (t : NamedTarget) : Option Action :=
  ((t.optionsIn project s).filter (!·.isEmpty)).map fun options =>
    .store (options.map fun _ o => o.options) t.target.cacheScope

def Putless {α : Type} (p : Program α) : Prop := p.Asks (·.puts? = none)

variable {s : Service} {m : Incoming} {snapshot : Snapshot} {cached : Bool} {actions : List Action}

theorem Putless.leads {α : Type} {p p' : Program α} (h : Putless p) (leads : p.Leads actions p') :
    actions.filterMap Action.puts? = [] := by
  rw [List.filterMap_eq_nil_iff]
  exact (Asks.leads h leads).1

theorem Telling.putless {α : Type} {p : Program α} (h : Telling p) : Putless p := by
  apply h.mono
  rintro a (looks | notifies)
  · cases a <;> first | rfl | cases looks
  · cases a <;> first | rfl | cases notifies

theorem puts_refresh {r : Refresh} (h : (s.refresh cached).Leads actions (.done (.ok r))) :
    actions.filterMap Action.puts? = [r.snapshot] := by
  cases h with
  | ask _ h =>
    dsimp only [Dialogue.done_bind] at h
    obtain ⟨asked, rest, built, rfl, hasked, hrest⟩ := h.of_bind
    have putless : asked.filterMap Action.puts? = [] :=
      Putless.leads (asks_inquire (P := (·.puts? = none)) (fun _ => rfl) _) hasked
    rw [List.filterMap_cons_none rfl, List.filterMap_append, putless]
    cases built with
    | error e =>
      cases hrest with
      | ask _ hrest => cases hrest
    | ok new =>
      cases hrest with
      | ask _ hrest =>
        cases hrest with
        | ask _ hrest =>
          cases hrest
          rfl

theorem puts_recordedRefresh (h : (s.recordedRefresh cached).Leads actions (.done (.ok snapshot))) :
    actions.filterMap Action.puts? = [snapshot] := by
  obtain ⟨refreshing, rest, result, rfl, hrefresh, hrest⟩ := h.of_bind
  cases result with
  | error e => cases hrest
  | ok r =>
    cases hrest with
    | ask _ hrest =>
      cases hrest
      rw [List.filterMap_append, puts_refresh hrefresh]
      rfl

theorem ensures_recordedRefresh (s : Service) (cached : Bool) :
    (s.recordedRefresh cached).Ensures fun result => ∀ built, result = .ok built → built.Consistent := by
  apply Dialogue.Ensures.bind (s.ensures_refresh cached)
  intro result consistent
  cases result with
  | error e => rintro _ ⟨⟩
  | ok r =>
    rintro _ _ ⟨⟩
    exact consistent r rfl

theorem ensures_builtSnapshot (s : Service) (targets : List NamedTarget) :
    (s.builtSnapshot targets).Ensures fun result => ∀ built, result = .ok built → built.Consistent := by
  apply Dialogue.Ensures.bind (s.ensures_recordedRefresh true)
  intro result consistent
  cases result with
  | error e => rintro _ ⟨⟩
  | ok first =>
    intro files
    dsimp only [Dialogue.done_bind]
    split
    · rintro _ ⟨⟩
      exact consistent first rfl
    · exact ensures_bind _ fun _ => s.ensures_recordedRefresh false

theorem lastPut_builtSnapshot {targets : List NamedTarget}
    (h : (s.builtSnapshot targets).Leads actions (.done (.ok snapshot))) :
    lastPut actions = some snapshot := by
  obtain ⟨first, rest, result, rfl, hfirst, hrest⟩ := h.of_bind
  cases result with
  | error e => cases hrest
  | ok built =>
    cases hrest with
    | ask files hrest =>
      dsimp only [Dialogue.done_bind] at hrest
      split at hrest
      · cases hrest
        rw [lastPut, List.filterMap_append, puts_recordedRefresh hfirst]
        rfl
      · obtain ⟨building, second, _, rfl, hbuilding, hsecond⟩ := hrest.of_bind
        rw [lastPut, List.filterMap_append, List.filterMap_cons_none rfl, List.filterMap_append,
          puts_recordedRefresh hsecond, ← List.append_assoc, List.getLast?_append]
        rfl

theorem storeArguments_leads {project : String} {targets : List NamedTarget}
    (h : (storeArguments project snapshot targets).Leads actions (.done ())) :
    actions = targets.filterMap (storing? project snapshot) := by
  induction targets generalizing actions with
  | nil => exact h.of_done.1
  | cons t rest ih =>
    unfold storeArguments at h
    rw [List.filterMap_cons]
    unfold storing?
    cases hoptions : (t.optionsIn project snapshot).filter (!·.isEmpty) with
    | none =>
      rw [hoptions] at h
      exact ih h
    | some options =>
      rw [hoptions] at h
      cases h with
      | ask _ h => exact congrArg (_ :: ·) (ih h)

structure Prepared (s : Service) (uris : List String) (snapshot : Snapshot) (actions : List Action) :
    Prop where
  consistent : snapshot.Consistent
  last : lastPut actions = some snapshot
  stored : (uris.filterMap NamedTarget.parse?).filterMap (storing? s.project snapshot) ⊆ actions

theorem Prepared.extend {uris : List String} (h : s.Prepared uris snapshot actions)
    (before after : List Action) (hbefore : before.filterMap Action.puts? = [])
    (hafter : after.filterMap Action.puts? = []) : s.Prepared uris snapshot (before ++ actions ++ after) where
  consistent := h.consistent
  last := by
    have last := h.last
    rw [lastPut] at last ⊢
    rw [List.filterMap_append, List.filterMap_append, hbefore, hafter, List.nil_append, List.append_nil, last]
  stored _ ha := List.mem_append_left _ (List.mem_append_right _ (h.stored ha))

theorem puts_storing {project : String} {targets : List NamedTarget} :
    (targets.filterMap (storing? project snapshot)).filterMap Action.puts? = [] := by
  rw [List.filterMap_eq_nil_iff]
  intro a ha
  obtain ⟨t, -, ht⟩ := List.mem_filterMap.1 ha
  obtain ⟨options, -, rfl⟩ := Option.map_eq_some_iff.1 ht
  rfl

theorem prepared_of_prepareTargets {uris : List String}
    (h : (s.prepareTargets uris).Leads actions (.done (.ok ()))) :
    ∃ snapshot, s.Prepared uris snapshot actions := by
  obtain ⟨building, rest, result, rfl, hbuilding, hrest⟩ := h.of_bind
  cases result with
  | error e => cases hrest
  | ok last =>
    obtain ⟨storing, nothing, _, rfl, hstoring, hnothing⟩ := hrest.of_bind
    obtain ⟨rfl, -⟩ := hnothing.of_done
    obtain rfl := storeArguments_leads hstoring
    refine ⟨last, (s.ensures_builtSnapshot _).leads hbuilding last rfl, ?_, ?_⟩
    · have put := lastPut_builtSnapshot hbuilding
      rw [lastPut] at put ⊢
      rw [List.append_nil, List.filterMap_append, puts_storing, List.append_nil, put]
    · rw [List.append_nil]
      exact List.subset_append_right _ _

theorem prepared_of_prepare {uris : List String} (h : (s.prepare uris).Leads actions (.done (.ok ()))) :
    ∃ snapshot, s.Prepared uris snapshot actions := by
  rw [prepare_eq] at h
  cases h with
  | ask _ h =>
    obtain ⟨work, rest, result, rfl, hwork, hrest⟩ := h.of_bind
    cases hrest with
    | ask _ hrest =>
      cases hrest with
      | ask changes hrest =>
        obtain ⟨told, nothing, _, rfl, htold, hnothing⟩ := hrest.of_bind
        obtain ⟨rfl, rfl⟩ := hnothing.of_done
        obtain ⟨snapshot, prepared⟩ := prepared_of_prepareTargets hwork
        refine ⟨snapshot, prepared.extend [.enterUpdate] (.leaveUpdate :: .drain :: (told ++ [])) rfl ?_⟩
        rw [List.filterMap_cons_none rfl, List.filterMap_cons_none rfl, List.append_nil]
        exact (telling_tell s changes).putless.leads htold

theorem prepared_of_answered (asks : s.AsksForRefresh) {uris : List String} {id : RequestId} {value : Json}
    {p : Program Unit} (params : m.params Params.targets = .ok uris)
    (h : (s.respond (some .prepare) m).Leads actions p) (answered : .send (.result id value) ∈ actions) :
    ∃ snapshot, s.Prepared uris snapshot actions := by
  have silent {p : Program Reply} {work : List Action} (leads : (s.handle m .prepare).Leads work p) :
      .send (.result id value) ∉ work := by
    intro hmem
    cases ((mute_handle asks m .prepare).leads leads).1 _ hmem
  cases hid : m.id with
  | none =>
    rw [respond_anonymous hid] at h
    cases h
    cases answered
  | some id' =>
    rw [respond_request hid] at h
    rcases h.bind_cases with ⟨p', hp', -⟩ | ⟨work, last, reply, rfl, hwork, hlast⟩
    · exact absurd answered (silent hp')
    · cases hlast with
      | stay => exact absurd (by simpa using answered) (silent hwork)
      | ask _ hlast =>
        cases hlast
        rw [List.mem_append, List.mem_singleton] at answered
        obtain hreply := Action.send.inj (answered.resolve_left (silent hwork))
        cases reply with
        | error e => cases hreply
        | ok value' =>
          rw [handle, withParams, params] at hwork
          obtain ⟨preparing, nothing, result, rfl, hprepare, hnothing⟩ := hwork.of_bind
          cases result with
          | error e => cases hnothing
          | ok _ =>
            cases hnothing
            obtain ⟨snapshot, prepared⟩ := prepared_of_prepare hprepare
            rw [List.append_nil]
            exact ⟨snapshot, prepared.extend [] _ rfl rfl⟩

end Service

end BuildServer
