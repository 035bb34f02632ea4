import FuzzyLogic.Proofs.Model.Reports

set_option autoImplicit false

/-! # Rules that pass a threshold

The reports for a threshold are on the rules whose strength is not below it. In a model that a
session has come to, every rule has a strength and a name of its own, so the name of a rule selects
the report on it, if there is one. -/

namespace FuzzyLogic

namespace Model

/-! ## Rules that pass -/

section

variable {α : Type} [Scalar α] {m : Model α} {threshold : α} {r : FuzzyLogic.Rule α} {x : α}
  {reports : List (RuleReport α)}

variable (hm : m.rules.Keyed FuzzyLogic.Rule.name) (hreports : m.explain threshold = .ok reports)

include hm hreports

end

/-! ## Models with all answers -/

/-- Everything that can be computed on the model has a result: the strengths of its rules, which
stand under their own names, and the degrees of all labels of the database at the inputs. -/
structure Answers (m : Model Float) : Prop where
  keyed : m.rules.Keyed FuzzyLogic.Rule.name
  runs : ∀ r ∈ m.rules.objects, m.Runs r
  degrees : ∀ e ∈ m.databaseEntries, ∀ l ∈ e.2.labels.objects,
    ∃ d, l.membership e.2.input = .ok d

end Model

theorem Session.answers {start m : Model Float} {past : List (Model Float)} (hstart : start.Fresh)
    (h : Session Operation.Shaped start past m) : m.Answers where
  keyed := (h.all_sound hstart m List.mem_cons_self).rules
  runs := h.runs hstart
  degrees := by
    intro e he l hl
    obtain ⟨⟨name, ref⟩, -, href⟩ := List.mem_filterMap.1 he
    obtain ⟨v, hv, rfl⟩ := Option.map_eq_some_iff.1 href
    have hsound := (h.all_sound hstart m List.mem_cons_self).pool ref v hv
    have hordered := h.all_ordered hstart m List.mem_cons_self ref v hv l hl
    exact Label.exists_membership hordered hsound.defined

end FuzzyLogic
