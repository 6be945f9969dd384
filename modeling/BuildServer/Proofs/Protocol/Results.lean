import Mathlib.Logic.Function.Basic
import BuildServer.Protocol.Results

namespace BuildServer

open Function (Injective)

theorem Json.strings_injective : Injective Json.strings := fun _ _ h =>
  (List.map_inj_right fun _ _ => Json.str.inj).mp (Json.arr.inj h)

namespace Results

theorem uri_injective : Injective uri := fun _ _ h => by simpa [uri] using h

theorem mapped_injective {α : Type} {f : α → Json} (h : Injective f) :
    Injective fun xs : List α => Json.arr (xs.map f) := fun _ _ hxs =>
  (List.map_inj_right fun _ _ hx => h hx).mp (Json.arr.inj hxs)

theorem source_injective : Injective Source.toJson := by
  rintro ⟨uri, kind, generated⟩ ⟨uri', kind', generated'⟩ h
  simp only [Source.toJson, Json.obj.injEq, List.cons.injEq, Prod.mk.injEq, true_and, and_true,
    Json.str.injEq, Json.int, Json.num.injEq, Json.bool.injEq] at h
  obtain ⟨rfl, hkind, rfl⟩ := h
  cases kind <;> cases kind' <;> first | rfl | cases hkind

theorem sources_injective : Injective sources := by
  have item : Injective fun i : Sources => Json.obj [("target", uri i.target),
      ("sources", .arr (i.sources.map Source.toJson)), ("roots", Json.strings i.roots)] := by
    rintro ⟨target, sources, roots⟩ ⟨target', sources', roots'⟩ h
    simp only [Json.obj.injEq, List.cons.injEq, Prod.mk.injEq, true_and, and_true] at h
    rw [uri_injective h.1, mapped_injective source_injective h.2.1, Json.strings_injective h.2.2]
  intro xs ys h
  simp only [sources, Json.obj.injEq, List.cons.injEq, Prod.mk.injEq, true_and, and_true] at h
  exact mapped_injective item h

theorem targets_injective : Injective targets := by
  intro xs ys h
  simp only [targets, Json.obj.injEq, List.cons.injEq, Prod.mk.injEq, true_and, and_true] at h
  refine mapped_injective ?_ h
  rintro ⟨uri, name, dependencies⟩ ⟨uri', name', dependencies'⟩ h
  simp only [Json.obj.injEq, List.cons.injEq, Prod.mk.injEq, true_and, and_true, Json.str.injEq] at h
  rw [uri_injective h.1, h.2.1, mapped_injective uri_injective h.2.2]

theorem withDirectory_inj {key : String} {xs ys : List String} {d e : Option String}
    (h : Json.objOf [(key, some (Json.strings xs)), ("workingDirectory", d.map .str)] =
      Json.objOf [(key, some (Json.strings ys)), ("workingDirectory", e.map .str)]) : xs = ys ∧ d = e := by
  cases d <;> cases e <;> simp [Json.objOf] at h
  · exact ⟨Json.strings_injective h, rfl⟩
  · exact ⟨Json.strings_injective h.1, by rw [h.2]⟩

theorem inverseSources_injective : Injective inverseSources := by
  intro xs ys h
  simp only [inverseSources, Json.obj.injEq, List.cons.injEq, Prod.mk.injEq, true_and, and_true] at h
  exact mapped_injective uri_injective h

theorem options_injective : Injective options := by
  rintro ⟨arguments, directory⟩ ⟨arguments', directory'⟩ h
  obtain ⟨rfl, rfl⟩ := withDirectory_inj h
  rfl

theorem optionsChanged_injective : Injective fun x : String × CompilerOptions => optionsChanged x.1 x.2 := by
  rintro ⟨document, arguments, directory⟩ ⟨document', arguments', directory'⟩ h
  simp only [optionsChanged, Json.obj.injEq, List.cons.injEq, Prod.mk.injEq, true_and, and_true,
    Json.str.injEq] at h
  obtain ⟨rfl, rfl⟩ := withDirectory_inj h.2
  rw [h.1]

/-- The reply is that of one value only. -/
def Says {α : Type} (encode : α → Json) (reply : Json) (a : α) : Prop :=
  ∀ b, reply = encode b ↔ b = a

theorem says_encoded {α : Type} {encode : α → Json} (h : Injective encode) (a : α) :
    Says encode (encode a) a := fun _ =>
  ⟨fun he => (h he).symm, fun he => he ▸ rfl⟩

end Results

end BuildServer
