import FuzzyLogic.Proofs.Model.Soundness
import FuzzyLogic.Proofs.Rule.Resolution

set_option autoImplicit false

/-! # The names in a rule

A clause of a sound model bears the names by which the model knows its variable and its label, and
these are the names in the text of the rule. So the clauses of a rule can be read off its text, and
their names are words of the text. -/

namespace FuzzyLogic.Rule

/-- The names are words, and that of the variable is not reserved. -/
structure Naming.Proper (n : Naming) : Prop where
  subject_word : IsWord n.subject
  label_word : IsWord n.label
  subject_free : capitals n.subject ∉ subjectReserved

theorem Naming.Written.proper {text subject label : String} {n : Naming}
    (h : Written subject label n) (hsubject : subject ∈ tokenize text)
    (hlabel : label ∈ tokenize text) : n.Proper := by
  obtain ⟨hfree, hfree', rfl⟩ := h
  obtain ⟨ho, hc⟩ := ne_parenthesis_of_free (by decide) hfree
  obtain ⟨ho', hc'⟩ := ne_parenthesis_of_free (by decide) hfree'
  exact
    { subject_word := isWord_of_mem_tokenize hsubject ho hc
      label_word := isWord_of_mem_tokenize hlabel ho' hc'
      subject_free := hfree }

end FuzzyLogic.Rule

namespace FuzzyLogic

open FuzzyLogic.Rule

variable {α : Type} [Scalar α]

/-- The names of the variable and the label. -/
def ModelClause.naming (c : ModelClause α) : Naming :=
  ⟨c.subject.name, c.label.name⟩

namespace Model

variable {m : Model α}

/-- Everything in a sound model stands under its own name. -/
theorem Sound.naming_eq (hm : m.Sound) {subject label : String} {c : ModelClause α}
    (h : m.scope.Names subject label c) : c.naming = ⟨subject, label⟩ := by
  obtain ⟨v, hv, hget⟩ := Option.bind_eq_some_iff.1 h.labelOf_eq
  have hname : c.subject.name = subject := hm.database.key_eq_of_get? h.lookup_eq
  have hlabelName : c.label.name = label := (hm.pool _ v hv).labels.key_eq_of_get? hget
  rw [ModelClause.naming, hname, hlabelName]

/-- What two names of a model make up is one clause. -/
theorem Sound.eq_of_naming_eq (hm : m.Sound) {c d : ModelClause α}
    (hc : ∃ subject label, m.scope.Names subject label c)
    (hd : ∃ subject label, m.scope.Names subject label d) (h : c.naming = d.naming) : c = d := by
  obtain ⟨subject, label, hc⟩ := hc
  obtain ⟨subject', label', hd⟩ := hd
  rw [hm.naming_eq hc, hm.naming_eq hd] at h
  obtain ⟨rfl, rfl⟩ := Naming.mk.inj h
  obtain ⟨v, l⟩ := c
  obtain ⟨v', l'⟩ := d
  obtain rfl : v = v' := Option.some.inj (hc.lookup_eq.symm.trans hd.lookup_eq)
  obtain rfl : l = l' := Option.some.inj (hc.labelOf_eq.symm.trans hd.labelOf_eq)
  rfl

/-- **The clauses of a rule are named in its text, in the order of the program.** -/
theorem Sound.exists_written (hm : m.Sound) {r : FuzzyLogic.Rule α} (hr : m.Compiles r) :
    ∃ a : Antecedent Naming,
      RuleSpelled Naming.Written a r.output.naming (tokenize r.text) ∧
        a.clauses = r.program.operands.map ModelClause.naming := by
  obtain ⟨a, hspelled, hprogram⟩ := spelled_of_compileTokens hr
  replace hprogram : r.program = a.tree.postorder := hprogram
  refine ⟨a.map ModelClause.naming, hspelled.map _ fun subject _ label _ c hc => ?_, ?_⟩
  · exact ⟨hc.subject_free, hc.label_free, hm.naming_eq hc⟩
  · rw [Antecedent.clauses_map, hprogram, Tree.operands_postorder, Antecedent.leaves_tree]

omit [Scalar α] in
/-- Every clause of a program is made up of names. -/
theorem named_of_operands {r : FuzzyLogic.Rule α} (hr : m.Compiles r) :
    ∀ c ∈ r.program.operands, ∃ subject label, m.scope.Names subject label c := by
  obtain ⟨t, hprogram, hnamed⟩ := named_of_compile hr
  replace hprogram : r.program = t.postorder := hprogram
  intro c hc
  rw [hprogram, Tree.operands_postorder] at hc
  exact hnamed c (.inr hc)

theorem Sound.proper_of_operands (hm : m.Sound) {r : FuzzyLogic.Rule α} (hr : m.Compiles r) :
    ∀ c ∈ r.program.operands, c.naming.Proper := by
  obtain ⟨a, hspelled, hclauses⟩ := hm.exists_written hr
  intro c hc
  have hnaming : c.naming ∈ a.clauses := by
    rw [hclauses]
    exact List.mem_map_of_mem hc
  obtain ⟨subject, hsubject, label, hlabel, hwritten⟩ := hspelled.named_in _ hnaming
  exact hwritten.proper hsubject hlabel

end Model

end FuzzyLogic
