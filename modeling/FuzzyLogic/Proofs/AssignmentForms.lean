import FuzzyLogic.Proofs.Assignment

set_option autoImplicit false

/-! # Forms of assignments

The same assignments can be given in several forms. It does not matter how they are distributed over
texts: a list of texts gives what the texts give when they are joined by commas. A mapping gives
what the list of its entries `key=value` gives, if it gives anything; but the two forms do not fail
alike. -/

namespace FuzzyLogic.Assignment

open Text

/-! ## Texts that are joined -/

/-- **Assignments can be cut into texts at any comma.** A list of texts, the list of the one text
that they make when they are joined by commas, and this text alone have the same outcome: that of
reading the items of the texts in turn. -/
theorem ofValue_joined (texts : List String) :
    ∃ outcome, Entered readItem (texts.flatMap items) outcome ∧
      ofValue (.list (texts.map .text)) = outcome ∧
      ofValue (.list [.text (",".intercalate texts)]) = outcome ∧
      ofValue (.text (",".intercalate texts)) = outcome := by
  have hjoined :
      ofItems [.text (",".intercalate texts)] = enter readItem (texts.flatMap items) := by
    have htext := ofItems_texts [",".intercalate texts]
    rwa [List.flatMap_singleton, items_intercalate] at htext
  refine ⟨_, entered_enter readItem (texts.flatMap items), ?_, ?_, ?_⟩
  · rw [ofValue_list, ofItems_texts]
  · rw [ofValue_list, hjoined]
  · rw [ofValue_text, hjoined]

/-! ## Mappings -/

/-- The assignments as a mapping from keys to values. -/
def mapped (assignments : List (String × String)) : Data.Value :=
  .mapping (assignments.map fun a => (.text a.1, .text a.2))

theorem ofValue_mapped (assignments : List (String × String)) :
    ofValue (mapped assignments)
      = enter (entry Decimal.read? fun a => .notANumber (quoted a.2)) assignments := by
  have hentries : ofValue (mapped assignments)
      = ofEntries (assignments.map fun a => (.text a.1, .text a.2)) := by
    cases assignments <;> rfl
  have hread : (fun a : String × String => do
        let key ← written (.text a.1)
        let x ← toNumber (.text a.2)
        return (key, x))
      = entry Decimal.read? fun a => .notANumber (quoted a.2) := by
    funext a
    have hkey : written (.text a.1) = .ok a.1 := rfl
    rw [hkey, toNumber, entry]
    cases Decimal.read? a.2 <;> rfl
  rw [hentries, ofEntries, List.mapM_map, enter, ← hread]
  rfl

/-- **A mapping gives what the list of its entries gives, if it gives anything.** In the mapping
each value has to spell a number as it stands, and in the list it has to without the blanks around
it, so the two differ on a value with a blank at its ends that is no white space. And they fail in
different ways: the mapping with the value alone, the list with the assignment. -/
theorem ofValue_mapped_given {assignments : List (String × String)} (h : Separable assignments) :
    Entered (entry Decimal.read? fun a => .notANumber (quoted a.2)) assignments
        (ofValue (mapped assignments)) ∧
      Entered (entry spelled? fun a => .assignment (complaint a)) assignments
        (ofValue (given assignments)) ∧
      (∀ inputs, ofValue (mapped assignments) = .ok inputs →
        ofValue (given assignments) = .ok inputs) ∧
      ((∀ a ∈ assignments, ¬ Decimal.Padded a.2) → ∀ inputs,
        ofValue (given assignments) = .ok inputs → ofValue (mapped assignments) = .ok inputs) := by
  rw [ofValue_mapped, ofValue_given h]
  refine ⟨entered_enter _ _, entered_enter _ _, fun inputs => ?_, fun hpadded inputs => ?_⟩
  · refine enter_eq_ok_of_forall fun a _ pair hpair => ?_
    obtain ⟨hkey, hvalue⟩ := entry_eq_ok_iff.1 hpair
    exact entry_eq_ok_iff.2 ⟨hkey, Decimal.read?_trim_of_read? hvalue⟩
  · refine enter_eq_ok_of_forall fun a ha pair hpair => ?_
    obtain ⟨hkey, hvalue⟩ := entry_eq_ok_iff.1 hpair
    exact entry_eq_ok_iff.2 ⟨hkey, (Decimal.read?_trim (hpadded a ha)).symm.trans hvalue⟩

/-- Spaces around a value are no difference. -/
theorem ofValue_mapped_given_spaces :
    let assignments := [("Steel", " 12 "), ("Stove", "7e1")]
    Separable assignments ∧ (∀ a ∈ assignments, ¬ Decimal.Padded a.2) ∧
      Entered (entry Decimal.read? fun a => .notANumber (quoted a.2)) assignments
        (ofValue (mapped assignments)) ∧
      Entered (entry spelled? fun a => .assignment (complaint a)) assignments
        (ofValue (given assignments)) ∧
      ∀ inputs, ofValue (mapped assignments) = .ok inputs ↔
        ofValue (given assignments) = .ok inputs := by
  intro assignments
  have hseparable : Separable assignments := by decide +kernel
  have hpadded : ∀ a ∈ assignments, ¬ Decimal.Padded a.2 := by decide +kernel
  obtain ⟨hmapped, hgiven, hforth, hback⟩ := ofValue_mapped_given hseparable
  exact ⟨hseparable, hpadded, hmapped, hgiven, fun inputs =>
    ⟨hforth inputs, hback hpadded inputs⟩⟩

/-- A value that spells no number is not complained of in the same way in a mapping and in a list,
and one with a separator at its end is no number in a mapping alone. -/
theorem ofValue_mapped_not_numeric :
    ofValue (mapped [("a", "x")]) = .error (.notANumber "'x'") ∧
      ofValue (given [("a", "x")]) = .error (.assignment (.valueNotANumber "x" "a=x")) ∧
      ofValue (mapped [("a", "1\x1c")]) = .error (.notANumber "'1\\x1c'") ∧
      ∃ inputs, ofValue (given [("a", "1\x1c")]) = .ok inputs := by
  have hword : Decimal.read? "x" = none ∧ spelled? "x" = none := by decide +kernel
  have hpadded : Decimal.read? "1\x1c" = none ∧ spelled? "1\x1c" = some 1 := by decide +kernel
  have hquoted : quoted "x" = "'x'" ∧ quoted "1\x1c" = "'1\\x1c'" := by decide +kernel
  have hcomplaint : complaint ("a", "x") = .valueNotANumber "x" "a=x" := by decide +kernel
  rw [ofValue_mapped, ofValue_mapped, ofValue_given (by decide +kernel),
    ofValue_given (by decide +kernel)]
  simp only [enter, List.mapM_cons, entry, hword, hpadded, hquoted, hcomplaint]
  exact ⟨rfl, rfl, rfl, _, rfl⟩

end FuzzyLogic.Assignment
