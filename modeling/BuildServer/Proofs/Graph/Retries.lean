import BuildServer.Proofs.Graph.Outcomes
import BuildServer.Proofs.Graph.Reports

/-!
When the build tool is asked anew. A cached answer that is of no use is followed by one call without the cache,
and what comes of that counts; only such a call makes a refresh fail, and then it is the last.
-/

namespace BuildServer

abbrev Exchange := (c : Call) × c.Answer

def errorOf {α : Type} : Except BuildError α → Option BuildError
  | .ok _ => none
  | .error e => some e

namespace Exchange

def list (cached : Bool) (r : Except BuildError Listing) : Exchange := ⟨.list cached, r⟩

def index (scheme : String) (cached : Bool) (r : Except BuildError IndexSettings) : Exchange :=
  ⟨.index scheme cached, r⟩

def failure? : Exchange → Option BuildError
  | ⟨.list false, r⟩ => errorOf r
  | ⟨.index _ false, r⟩ => errorOf r
  | _ => none

end Exchange

def exchange? : ((p : Probe) × p.Answer) → Option Exchange
  | ⟨.call c, x⟩ => some ⟨c, x⟩
  | ⟨.files, _⟩ => none

def exchanges (xs : List ((p : Probe) × p.Answer)) : List Exchange := xs.filterMap exchange?

/-- A question is settled by a cached answer of use, or else by the answer to another call. Without the cache one
call settles it. -/
inductive Settled {α : Type} (useful : α → Bool) (exchange : Bool → Except BuildError α → Exchange) :
    Bool → List Exchange → Except BuildError α → Prop
  | uncached (outcome : Except BuildError α) : Settled useful exchange false [exchange false outcome] outcome
  | usable (a : α) (use : useful a = true) : Settled useful exchange true [exchange true (.ok a)] (.ok a)
  | anew (first outcome : Except BuildError α) (useless : ∀ a, first = .ok a → useful a = false) :
    Settled useful exchange true [exchange true first, exchange false outcome] outcome

abbrev ListSettled : Bool → List Exchange → Except BuildError Listing → Prop :=
  Settled (!·.schemes.isEmpty) Exchange.list

abbrev IndexSettled (scheme : String) : Bool → List Exchange → Except BuildError IndexSettings → Prop :=
  Settled (!·.isEmpty) (Exchange.index scheme)

abbrev SettingsOfSchemes := List (String × IndexSettings)

inductive SettledInOrder (cached : Bool) :
    List String → List Exchange → Except BuildError SettingsOfSchemes → Prop
  | done : SettledInOrder cached [] [] (.ok [])
  | failed {scheme : String} {schemes : List String} {xs : List Exchange} {e : BuildError}
    (settled : IndexSettled scheme cached xs (.error e)) : SettledInOrder cached (scheme :: schemes) xs (.error e)
  | next {scheme : String} {schemes : List String} {xs ys : List Exchange} {settings : IndexSettings}
    {r : Except BuildError SettingsOfSchemes} (settled : IndexSettled scheme cached xs (.ok settings))
    (rest : SettledInOrder cached schemes ys r) :
    SettledInOrder cached (scheme :: schemes) (xs ++ ys) (r.map ((scheme, settings) :: ·))

def SchemeReport.settled (x : SchemeReport) : String × IndexSettings := (x.scheme, x.settings)

inductive Polled (active : List String) (cached : Bool) :
    List Exchange → Except BuildError SettingsOfSchemes → Prop
  | active {xs : List Exchange} {r : Except BuildError SettingsOfSchemes} (some : active ≠ [])
    (settled : SettledInOrder cached active xs r) : Polled active cached xs r
  | unlisted {xs : List Exchange} {e : BuildError} (none : active = [])
    (settled : ListSettled cached xs (.error e)) : Polled active cached xs (.error e)
  | listed {xs ys : List Exchange} {listing : Listing} {r : Except BuildError SettingsOfSchemes}
    (none : active = []) (settled : ListSettled cached xs (.ok listing))
    (rest : SettledInOrder cached listing.schemes ys r) : Polled active cached (xs ++ ys) r

/-- A snapshot is put together from the settings of schemes. If their options name no index store, the build
settings of schemes are asked for in the end, and whatever comes of that is no failure. -/
inductive Built (project : String) (active : List String) (cached : Bool) :
    List Exchange → Except BuildError Snapshot → Prop
  | failed {xs : List Exchange} {e : BuildError} (polled : Polled active cached xs (.error e)) :
    Built project active cached xs (.error e)
  | built {xs ys : List Exchange} {reports : List SchemeReport} {store : Option String} {looked : List String}
    (polled : Polled active cached xs (.ok (reports.map SchemeReport.settled)))
    (among : looked <+: reports.map SchemeReport.scheme)
    (last : ys.map Sigma.fst = looked.map (Call.settings · cached)) :
    Built project active cached (xs ++ ys)
      (.ok (.ofMembers (reports.flatMap (SchemeReport.members project)) store))

section Polling

variable {α : Type} {useful : α → Bool} {exchange : Bool → Except BuildError α → Exchange} {cached : Bool}
  {scheme : String} {r : Except BuildError α} {active names : List String} {xs ys : List Exchange}
  {polled : Except BuildError SettingsOfSchemes}

def FailsLast {α : Type} (xs : List Exchange) : Except BuildError α → Prop
  | .ok _ => ∀ x ∈ xs, x.failure? = none
  | .error e => ∃ before x, xs = before ++ [x] ∧ x.failure? = some e ∧ ∀ y ∈ before, y.failure? = none

theorem failsLast_map {β : Type} (f : α → β) : FailsLast xs (r.map f) ↔ FailsLast xs r := by
  cases r with
  | error e => exact Iff.rfl
  | ok a => exact Iff.rfl

theorem FailsLast.after (h : FailsLast ys r) (quiet : ∀ x ∈ xs, x.failure? = none) : FailsLast (xs ++ ys) r := by
  cases r with
  | ok a => exact List.forall_mem_append.mpr ⟨quiet, h⟩
  | error e =>
    obtain ⟨before, x, rfl, hx, hbefore⟩ := h
    exact ⟨xs ++ before, x, by rw [List.append_assoc], hx, List.forall_mem_append.mpr ⟨quiet, hbefore⟩⟩

theorem failsLast_singleton {x : Exchange} (h : x.failure? = errorOf r) : FailsLast [x] r := by
  cases r with
  | ok a => exact List.forall_mem_singleton.mpr h
  | error e => exact ⟨[], x, rfl, h, List.forall_mem_nil _⟩

theorem Settled.failsLast (h : Settled useful exchange cached xs r) (quiet : ∀ r, (exchange true r).failure? = none)
    (fails : ∀ r, (exchange false r).failure? = errorOf r) : FailsLast xs r := by
  cases h with
  | uncached => exact failsLast_singleton (fails r)
  | usable a use => exact failsLast_singleton (quiet (.ok a))
  | anew first _ useless =>
    exact (failsLast_singleton (fails r)).after (List.forall_mem_singleton.mpr (quiet first))

theorem index_failsLast {r : Except BuildError IndexSettings} (h : IndexSettled scheme cached xs r) :
    FailsLast xs r :=
  h.failsLast (fun _ => rfl) fun _ => rfl

theorem list_failsLast {r : Except BuildError Listing} (h : ListSettled cached xs r) : FailsLast xs r :=
  h.failsLast (fun _ => rfl) fun _ => rfl

theorem SettledInOrder.failsLast (h : SettledInOrder cached names xs polled) : FailsLast xs polled := by
  induction h with
  | done => exact List.forall_mem_nil _
  | failed settled => exact index_failsLast settled
  | next settled rest ih => exact ((failsLast_map _).mpr ih).after (index_failsLast settled)

theorem Polled.failsLast (h : Polled active cached xs polled) : FailsLast xs polled := by
  cases h with
  | active some settled => exact settled.failsLast
  | unlisted none settled => exact list_failsLast settled
  | listed none settled rest => exact rest.failsLast.after (list_failsLast settled)

theorem Built.failsLast {project : String} {r : Except BuildError Snapshot}
    (h : Built project active cached xs r) : FailsLast xs r := by
  cases h with
  | failed polled => exact polled.failsLast
  | @built xs ys reports store looked polled among last =>
    have silent : ∀ y ∈ ys, y.failure? = none := by
      intro y hy
      obtain ⟨name, -, hname⟩ := List.mem_map.mp (last ▸ List.mem_map_of_mem (f := Sigma.fst) hy)
      obtain ⟨c, answer⟩ := y
      obtain rfl : Call.settings name cached = c := hname
      rfl
    exact List.forall_mem_append.mpr ⟨polled.failsLast, silent⟩

end Polling

theorem exchanges_append (xs ys : List ((p : Probe) × p.Answer)) :
    exchanges (xs ++ ys) = exchanges xs ++ exchanges ys :=
  List.filterMap_append

namespace Attempt

variable {α β : Type} {x : Attempt α} {xs : List ((p : Probe) × p.Answer)} {r : Except BuildError α}
  {active names : List String} {project : String} {cached : Bool}

theorem hears_pure {a : α} (h : (pure a : Attempt α).run.Hears xs (.done r)) : xs = [] ∧ r = .ok a := by
  obtain ⟨rfl, rfl⟩ := Dialogue.Hears.of_done (a := (.ok a : Except BuildError α)) h
  exact ⟨rfl, rfl⟩

theorem hears_bind {f : α → Attempt β} {r : Except BuildError β} (h : (x >>= f).run.Hears xs (.done r)) :
    (∃ e, x.run.Hears xs (.done (.error e)) ∧ r = .error e) ∨
      ∃ us vs a, xs = us ++ vs ∧ x.run.Hears us (.done (.ok a)) ∧ (f a).run.Hears vs (.done r) := by
  obtain ⟨us, vs, result, rfl, hx, hf⟩ := Dialogue.Hears.of_bind (f := ExceptT.bindCont f) h
  cases result with
  | error e =>
    obtain ⟨rfl, rfl⟩ := Dialogue.Hears.of_done (a := (.error e : Except BuildError β)) hf
    exact .inl ⟨e, by rwa [List.append_nil], rfl⟩
  | ok a => exact .inr ⟨us, vs, a, rfl, hx, hf⟩

theorem hears_lift {d : Inquiry α} (h : (ExceptT.lift d : Attempt α).run.Hears xs (.done r)) :
    ∃ a, r = .ok a ∧ d.Hears xs (.done a) := by
  obtain ⟨us, vs, a, rfl, hd, hdone⟩ :=
    Dialogue.Hears.of_bind (f := fun a => .done (.ok a : Except BuildError α)) h
  obtain ⟨rfl, rfl⟩ := hdone.of_done
  exact ⟨a, rfl, by rwa [List.append_nil]⟩

theorem exchanges_call {c : Call} {r : c.Answer} (h : (Inquiry.call c).Hears xs (.done r)) :
    exchanges xs = [⟨c, r⟩] := by
  cases h with
  | ask a h =>
    obtain ⟨rfl, rfl⟩ := h.of_done
    rfl

theorem exchanges_files {view : FileView} (h : Inquiry.files.Hears xs (.done view)) : exchanges xs = [] := by
  cases h with
  | ask a h =>
    obtain ⟨rfl, rfl⟩ := h.of_done
    rfl

theorem settled_of_hears {useful : α → Bool} {ask : Bool → Inquiry (Except BuildError α)}
    {exchange : Bool → Except BuildError α → Exchange}
    (one : ∀ cached xs r, (ask cached).Hears xs (.done r) → exchanges xs = [exchange cached r])
    (h : (preferCached useful ask cached).run.Hears xs (.done r)) :
    Settled useful exchange cached (exchanges xs) r := by
  cases cached with
  | false =>
    rw [preferCached, if_neg (by simp)] at h
    rw [one false xs r h]
    exact .uncached r
  | true =>
    rw [preferCached, if_pos rfl] at h
    obtain ⟨e, hcached, -⟩ | ⟨us, vs, first, rfl, hcached, hnext⟩ := hears_bind h
    · obtain ⟨a, ha, -⟩ := hears_lift hcached
      cases ha
    obtain ⟨_, hfirst, hcached⟩ := hears_lift hcached
    obtain rfl := Except.ok.inj hfirst
    rw [exchanges_append, one true us _ hcached]
    cases first with
    | error e =>
      rw [one false vs r hnext]
      exact .anew (.error e) r nofun
    | ok a =>
      dsimp only at hnext
      split at hnext
      · next use =>
        obtain ⟨rfl, rfl⟩ := hears_pure hnext
        exact .usable a use
      · next useless =>
        rw [one false vs r hnext]
        refine .anew (.ok a) r fun b hb => ?_
        rw [← Except.ok.inj hb]
        exact Bool.eq_false_iff.mpr useless

theorem settled_report {scheme : String} {r : Except BuildError SchemeReport}
    (h : (report cached scheme).run.Hears xs (.done r)) : ∃ r', IndexSettled scheme cached (exchanges xs) r' ∧
      r.map SchemeReport.settled = r'.map (scheme, ·) := by
  have one (cached : Bool) (xs : List ((p : Probe) × p.Answer)) (r : Except BuildError IndexSettings)
      (h : (Inquiry.index scheme cached).Hears xs (.done r)) : exchanges xs = [Exchange.index scheme cached r] :=
    exchanges_call h
  obtain ⟨e, hsettings, rfl⟩ | ⟨us, vs, settings, rfl, hsettings, h⟩ := hears_bind h
  · exact ⟨.error e, settled_of_hears one hsettings, rfl⟩
  obtain ⟨e, hfiles, rfl⟩ | ⟨vs, ws, view, rfl, hfiles, h⟩ := hears_bind h
  · obtain ⟨_, h, -⟩ := hears_lift hfiles
    cases h
  obtain ⟨_, hview, hfiles⟩ := hears_lift hfiles
  obtain rfl := Except.ok.inj hview
  obtain ⟨rfl, rfl⟩ := hears_pure h
  rw [List.append_nil, exchanges_append, exchanges_files hfiles, List.append_nil]
  exact ⟨.ok settings, settled_of_hears one hsettings, rfl⟩

theorem settled_mapM {r : Except BuildError (List SchemeReport)}
    (h : (names.mapM (report cached)).run.Hears xs (.done r)) :
    SettledInOrder cached names (exchanges xs) (r.map (·.map SchemeReport.settled)) := by
  induction names generalizing xs r with
  | nil =>
    obtain ⟨rfl, rfl⟩ := hears_pure h
    exact .done
  | cons scheme names ih =>
    rw [List.mapM_cons] at h
    obtain ⟨e, hreport, rfl⟩ | ⟨us, vs, x, rfl, hreport, hothers⟩ := hears_bind h
    · obtain ⟨r', hsettled, hr'⟩ := settled_report hreport
      cases r' with
      | error e' => exact Except.error.inj hr' ▸ .failed hsettled
      | ok settings => cases hr'
    obtain ⟨r', hsettled, hr'⟩ := settled_report hreport
    cases r' with
    | error e' => cases hr'
    | ok settings =>
      obtain ⟨rfl, rfl⟩ := Prod.mk.inj (Except.ok.inj hr')
      rw [exchanges_append]
      obtain ⟨e, hrest, rfl⟩ | ⟨vs, ws, ys, rfl, hrest, hdone⟩ := hears_bind hothers
      · exact .next hsettled (ih hrest)
      · obtain ⟨rfl, rfl⟩ := hears_pure hdone
        rw [List.append_nil]
        exact .next hsettled (ih hrest)

theorem polled_of_hears {r : Except BuildError (List SchemeReport)}
    (h : (reports active cached).run.Hears xs (.done r)) :
    Polled active cached (exchanges xs) (r.map (·.map SchemeReport.settled)) := by
  have one (cached : Bool) (xs : List ((p : Probe) × p.Answer)) (r : Except BuildError Listing)
      (h : (Inquiry.list cached).Hears xs (.done r)) : exchanges xs = [Exchange.list cached r] :=
    exchanges_call h
  rw [reports, schemes] at h
  split at h
  · next hactive =>
    have none : active = [] := List.isEmpty_iff.mp hactive
    obtain ⟨e, hschemes, rfl⟩ | ⟨us, vs, names, rfl, hschemes, h⟩ := hears_bind h
    · obtain ⟨e, hlist, he⟩ | ⟨us, vs, listing, rfl, hlist, hdone⟩ := hears_bind hschemes
      · exact Except.error.inj he ▸ .unlisted none (settled_of_hears one hlist)
      · obtain ⟨-, h⟩ := hears_pure hdone
        cases h
    · obtain ⟨e, hlist, he⟩ | ⟨us, ws, listing, rfl, hlist, hdone⟩ := hears_bind hschemes
      · cases he
      · obtain ⟨rfl, hnames⟩ := hears_pure hdone
        obtain rfl := Except.ok.inj hnames
        rw [List.append_nil, exchanges_append]
        exact .listed none (settled_of_hears one hlist) (settled_mapM h)
  · next hactive =>
    obtain ⟨e, hdone, -⟩ | ⟨us, vs, names, rfl, hdone, h⟩ := hears_bind h
    · obtain ⟨-, h⟩ := hears_pure hdone
      cases h
    · obtain ⟨rfl, hnames⟩ := hears_pure hdone
      obtain rfl := Except.ok.inj hnames
      exact .active (fun h => hactive (List.isEmpty_iff.mpr h)) (settled_mapM h)

theorem exchanges_fallbackStore {store : Option String} (h : (fallbackStore cached names).Hears xs (.done store)) :
    ∃ looked, looked <+: names ∧ (exchanges xs).map Sigma.fst = looked.map (Call.settings · cached) := by
  induction names generalizing xs with
  | nil =>
    obtain ⟨rfl, -⟩ := h.of_done
    exact ⟨[], List.nil_prefix, rfl⟩
  | cons name names ih =>
    rw [fallbackStore] at h
    obtain ⟨us, vs, settings, rfl, hcall, h⟩ := Dialogue.Hears.of_bind h
    have rest : ∃ looked, looked <+: names ∧
        (exchanges vs).map Sigma.fst = looked.map (Call.settings · cached) := by
      cases settings with
      | error e => exact ih h
      | ok settings =>
        dsimp only at h
        split at h
        · obtain ⟨rfl, -⟩ := h.of_done
          exact ⟨[], List.nil_prefix, rfl⟩
        · exact ih h
    obtain ⟨looked, among, hlooked⟩ := rest
    refine ⟨name :: looked, List.cons_prefix_cons.mpr ⟨rfl, among⟩, ?_⟩
    rw [exchanges_append, exchanges_call hcall, List.map_append, hlooked]
    rfl

theorem exchanges_finish {groups : List (List Member)} {r : Except BuildError Snapshot}
    (h : (finish cached names groups).run.Hears xs (.done r)) : ∃ store looked,
      r = .ok (.ofMembers groups.flatten store) ∧ looked <+: names ∧
        (exchanges xs).map Sigma.fst = looked.map (Call.settings · cached) := by
  rw [finish] at h
  split at h
  · obtain ⟨rfl, rfl⟩ := hears_pure h
    exact ⟨_, [], rfl, List.nil_prefix, rfl⟩
  · obtain ⟨e, hstore, -⟩ | ⟨us, vs, store, rfl, hstore, h⟩ := hears_bind h
    · obtain ⟨_, he, -⟩ := hears_lift hstore
      cases he
    obtain ⟨_, hresult, hstore⟩ := hears_lift hstore
    obtain rfl := Except.ok.inj hresult
    obtain ⟨rfl, rfl⟩ := hears_pure h
    obtain ⟨looked, among, hlooked⟩ := exchanges_fallbackStore hstore
    exact ⟨store, looked, rfl, among, by rw [List.append_nil, hlooked]⟩

theorem built_of_hears {r : Except BuildError Snapshot}
    (h : (snapshot project active cached).run.Hears xs (.done r)) :
    Built project active cached (exchanges xs) r := by
  rw [snapshot_eq] at h
  obtain ⟨e, hreports, rfl⟩ | ⟨us, vs, reports, rfl, hreports, h⟩ := hears_bind h
  · exact .failed (polled_of_hears hreports)
  · obtain ⟨store, looked, rfl, among, hlooked⟩ := exchanges_finish h
    rw [exchanges_append, ← List.flatMap_def]
    exact .built (polled_of_hears hreports) among hlooked

end Attempt

namespace Service

variable {κ : Type}

def calls (service : Service) (client : Client κ) (cached : Bool) (s : Shared κ) : List Exchange :=
  exchanges (((service.refresh cached).transcript (Shared.perform client) s).filterMap look?)

variable {client : Client κ} {service : Service} {cached : Bool} {s s' : Shared κ}
  {result : Except BuildError Refresh}

theorem built_of_refresh (h : s.run client (service.refresh cached) = some (result, s')) :
    Built service.project service.active cached (service.calls client cached s) (result.map Refresh.snapshot) :=
  Attempt.built_of_hears (looks_of_done (Dialogue.hears_transcript h))

theorem slot_of_refresh (h : s.run client (service.refresh cached) = some (result, s')) :
    s'.snapshot = (result.map Refresh.snapshot).toOption.or s.snapshot := by
  rcases refresh_cases h with ⟨e, k, -, rfl, rfl⟩ | ⟨new, k, -, rfl, rfl⟩
  · rfl
  · rfl

end Service

end BuildServer
