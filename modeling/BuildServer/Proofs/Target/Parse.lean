import BuildServer.Proofs.Graph.Reports
import BuildServer.Proofs.Server.Documents
import BuildServer.Proofs.Target.Uri

namespace BuildServer

namespace TargetUri

variable {t : TargetUri} {uri project scheme name : String}

theorem parse_eq_ok_iff : parse uri = .ok t ↔
    ∃ query, uri.toList = start.toList ++ t.project.toList ++ '?' :: query ∧ '?' ∉ t.project.toList ∧
      value? "scheme" (Query.items query) = some t.scheme ∧
      (value? "target" (Query.items query)).bind nonempty? = t.target := by
  constructor
  · intro h
    rw [parse] at h
    split at h
    · cases h
    · next rest hrest =>
      dsimp only at h
      split at h
      · cases h
      · next scheme hscheme =>
        obtain rfl := Except.ok.inj h
        cases hcut : cutAt '?' rest.toList with
        | none => simp [hcut, Query.items, pieces, value?] at hscheme
        | some cut =>
          obtain ⟨project, query⟩ := cut
          obtain ⟨htext, hproject⟩ := cutAt_eq_some_iff.1 hcut
          rw [hcut] at hscheme
          refine ⟨query, ?_, ?_, hscheme, rfl⟩
          · rw [stripStart?_eq_some_iff.1 hrest, String.toList_append, htext, Option.getD_some,
              String.toList_ofList, List.append_assoc]
          · rwa [Option.getD_some, String.toList_ofList]
  · rintro ⟨query, huri, hproject, hscheme, htarget⟩
    have hrest : stripStart? start uri = some (t.project ++ String.ofList ('?' :: query)) := by
      rw [stripStart?_eq_some_iff, ← String.toList_inj, huri, String.toList_append, String.toList_append,
        String.toList_ofList, List.append_assoc]
    have hcut : cutAt '?' (t.project ++ String.ofList ('?' :: query)).toList =
        some (t.project.toList, query) := by
      rw [String.toList_append, String.toList_ofList]
      exact cutAt_append hproject query
    rw [parse, hrest]
    dsimp only
    rw [hcut, Option.getD_some, hscheme, htarget, String.ofList_toList]

theorem project_of_parse (h : parse uri = .ok t) : '?' ∉ t.project.toList := by
  obtain ⟨-, -, hproject, -⟩ := parse_eq_ok_iff.1 h
  exact hproject

theorem value?_items (t : TargetUri) :
    value? "scheme" t.items = some t.scheme ∧ value? "target" t.items = t.target := by
  obtain ⟨project, scheme, target⟩ := t
  cases target <;> exact ⟨rfl, rfl⟩

theorem toList_render (t : TargetUri) :
    t.render.toList = start.toList ++ t.project.toList ++ '?' :: (Query.render t.items).toList := by
  change (start ++ t.project ++ "?" ++ Query.render t.items).toList = _
  simp [String.toList_append]

theorem parse_render_of_not_mem (h : '?' ∉ t.project.toList) :
    parse t.render = .ok { t with target := t.target.bind nonempty? } := by
  obtain ⟨hscheme, htarget⟩ := value?_items t
  rw [parse_eq_ok_iff]
  refine ⟨_, toList_render t, h, ?_, ?_⟩
  · rw [Query.items_render, hscheme]
  · rw [Query.items_render, htarget]

theorem parse_render_iff :
    parse t.render = .ok t ↔ '?' ∉ t.project.toList ∧ t.target.bind nonempty? = t.target := by
  constructor
  · intro h
    have hproject := project_of_parse h
    rw [parse_render_of_not_mem hproject] at h
    exact ⟨hproject, congrArg TargetUri.target (Except.ok.inj h)⟩
  · rintro ⟨hproject, htarget⟩
    rw [parse_render_of_not_mem hproject, htarget]

theorem bind_nonempty? (name : String) : (nonempty? name).bind nonempty? = nonempty? name := by
  by_cases h : name.isEmpty = true
  · simp [nonempty?, h]
  · simp [nonempty?, h]

theorem parse_nested_iff : parse (nested project scheme name).render = .ok (nested project scheme name) ↔
    '?' ∉ project.toList := by
  rw [parse_render_iff]
  exact and_iff_left (bind_nonempty? name)

theorem parse_forScheme_iff : parse (forScheme project scheme).render = .ok (forScheme project scheme) ↔
    '?' ∉ project.toList := by
  rw [parse_render_iff]
  exact and_iff_left rfl

end TargetUri

theorem SchemeReport.exists_nested {project : String} {x : SchemeReport} {m : Member}
    (hm : m ∈ x.members project) : ∃ name, m.uri = (TargetUri.nested project x.scheme name).render := by
  unfold members Member.ofScheme at hm
  dsimp only at hm
  rcases List.mem_cons.1 hm with rfl | hm
  · exact ⟨"", rfl⟩
  · obtain ⟨name, -, rfl⟩ := List.mem_map.1 hm
    exact ⟨name, rfl⟩

theorem Service.exists_nested {κ : Type} {client : Client κ} {service : Service} {cached : Bool}
    {s s' : Shared κ} {r : Refresh} (refreshed : s.run client (service.refresh cached) = some (.ok r, s'))
    {uri : String} (h : uri ∈ r.snapshot.uris) :
    ∃ scheme name, uri = (TargetUri.nested service.project scheme name).render := by
  obtain ⟨xs, store, -, hsnapshot⟩ := reports_of_refresh refreshed
  rw [hsnapshot, Snapshot.mem_uris] at h
  obtain ⟨m, hm, rfl⟩ := h
  obtain ⟨x, -, hm⟩ := List.mem_flatMap.1 hm
  obtain ⟨name, huri⟩ := SchemeReport.exists_nested hm
  exact ⟨x.scheme, name, huri⟩

theorem Service.run_buildTargets {κ : Type} {client : Client κ} {service : Service} {s : Shared κ}
    {snapshot : Snapshot} (cached : s.snapshot = some snapshot) :
    s.run client service.buildTargets = some (.ok (Results.targets snapshot.targets), s) :=
  run_replyFrom cached (Shared.run_pure.mpr ⟨rfl, rfl⟩)

/-- The server knows a target by its URI: it prepares the target under it, and finds there what was stored. -/
structure TargetUri.Known (t : TargetUri) (uri : String) : Prop where
  rendered : t.render = uri
  prepared : NamedTarget.parse? uri = some ⟨uri, t⟩
  stored : ∀ (κ : Type) (client : Client κ) (now : Shared κ) (path : String),
    now.run client (Service.storedArguments uri path) =
      some ((now.store.fetch path t.cacheScope).toOption, now)

theorem TargetUri.known_of_parse {t : TargetUri} (h : parse t.render = .ok t) : t.Known t.render := by
  have hparse : parse? t.render = some t := by rw [parse?, h]; rfl
  refine ⟨rfl, by rw [NamedTarget.parse?, hparse]; rfl, fun κ client now path => ?_⟩
  rw [Service.storedArguments, hparse]
  rfl

/-- Identities are known again exactly if there is no question mark in the project, and then a server knows
every target that it announces. -/
theorem targets_known_by_uri {κ : Type} {client : Client κ} {service : Service} :
    (∀ scheme name, (TargetUri.parse (TargetUri.render (.forScheme service.project scheme)) =
        .ok (.forScheme service.project scheme) ↔ '?' ∉ service.project.toList) ∧
      (TargetUri.parse (TargetUri.render (.nested service.project scheme name)) =
        .ok (.nested service.project scheme name) ↔ '?' ∉ service.project.toList)) ∧
    ('?' ∉ service.project.toList → ∀ (s s' : Shared κ) (cached : Bool) (r : Refresh),
      s.run client (service.refresh cached) = some (.ok r, s') →
      s'.run client service.buildTargets = some (.ok (Results.targets r.snapshot.targets), s') ∧
        ∀ uri ∈ r.snapshot.uris, ∃ t : TargetUri, t.Known uri) := by
  refine ⟨fun scheme name => ⟨TargetUri.parse_forScheme_iff, TargetUri.parse_nested_iff⟩, ?_⟩
  intro plain s s' cached r refreshed
  refine ⟨Service.run_buildTargets (Service.snapshot_of_refresh refreshed), fun uri huri => ?_⟩
  obtain ⟨scheme, name, rfl⟩ := Service.exists_nested refreshed huri
  exact ⟨_, TargetUri.known_of_parse (TargetUri.parse_nested_iff.2 plain)⟩

section

def KnownInEveryProject : Prop :=
  ∀ root scheme name,
    TargetUri.parse (TargetUri.render (.nested (projectName root) scheme name)) =
      .ok (.nested (projectName root) scheme name)

theorem question_not_known : ¬KnownInEveryProject := by
  intro h
  exact absurd (h "/tmp/a?b" "App" "") (by decide +kernel)

def queryService : Service := { appService with project := "a=b&c %3F+" }

theorem query_targets_known : ∃ t : TargetUri, t.Known "xcode://a=b&c %3F+?scheme=App&target=AppTests" := by
  have ran : ∃ x ∈ queryService.refreshed? appClient true (.initial () (.memory .empty)),
      "xcode://a=b&c %3F+?scheme=App&target=AppTests" ∈ x.1.snapshot.options.keys := by
    decide +kernel
  obtain ⟨⟨r, s'⟩, hr, kept⟩ := ran
  have refreshed := Service.run_of_refreshed? hr
  have hs : r.snapshot.Consistent := Service.consistent_of_refresh refreshed
  exact (targets_known_by_uri.2 (by decide) _ s' true r refreshed).2 _ ((hs.options_keys _).1 kept)

end

end BuildServer
