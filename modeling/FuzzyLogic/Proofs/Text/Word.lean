import FuzzyLogic.Proofs.Text.Trim
import FuzzyLogic.Text.Lines

set_option autoImplicit false

/-! # Plain words

The words that mean themselves wherever they stand: in a line of a model, in an assignment, or on
their own. They have no blanks and none of the characters that lines and assignments use for
themselves. -/

namespace FuzzyLogic.Text

/-- A character that is no blank and has no use of its own in lines and assignments. -/
def isPlain (c : Char) : Bool :=
  !isBlank c && !(['\'', '"', '\\', '#', '=', ','].contains c)

/-- A word of plain characters. -/
structure PlainWord (word : String) : Prop where
  ne_empty : word ≠ ""
  plain : ∀ c ∈ word.toList, isPlain c = true

theorem plainWord_iff {word : String} :
    PlainWord word ↔ word ≠ "" ∧ word.toList.all isPlain = true := by
  rw [List.all_eq_true]
  exact ⟨fun h => ⟨h.ne_empty, h.plain⟩, fun h => ⟨h.1, h.2⟩⟩

instance (word : String) : Decidable (PlainWord word) :=
  decidable_of_iff _ plainWord_iff.symm

section

variable {c : Char}

theorem isBlank_eq_false_of_isPlain (h : isPlain c = true) : isBlank c = false := by
  simp only [isPlain, Bool.and_eq_true, Bool.not_eq_true'] at h
  exact h.1

theorem ne_of_isPlain {d : Char} (h : isPlain c = true)
    (hd : d ∈ ['\'', '"', '\\', '#', '=', ',']) : c ≠ d := by
  rintro rfl
  simp only [isPlain, Bool.and_eq_true, Bool.not_eq_true'] at h
  exact absurd hd (by simpa using h.2)

/-- Every character that ends a line is blank. -/
theorem isBlank_of_isLineBoundary (h : isLineBoundary c = true) : isBlank c = true := by
  simp only [isLineBoundary, Bool.or_eq_true, Bool.and_eq_true, decide_eq_true_eq, beq_iff_eq] at h
  simp only [isBlank, isWhiteSpace, Bool.or_eq_true, Bool.and_eq_true, decide_eq_true_eq,
    beq_iff_eq]
  omega

theorem isLineBoundary_eq_false_of_isPlain (h : isPlain c = true) : isLineBoundary c = false := by
  cases hboundary : isLineBoundary c with
  | false => rfl
  | true =>
      have hblank := isBlank_of_isLineBoundary hboundary
      rw [isBlank_eq_false_of_isPlain h] at hblank
      exact hblank.symm

end

/-- Between plain words there are only the spaces. -/
theorem mem_intercalate_cases {words : List String} (h : ∀ word ∈ words, PlainWord word) {c : Char}
    (hc : c ∈ (" ".intercalate words).toList) : isPlain c = true ∨ c = ' ' := by
  induction words with
  | nil => exact absurd hc (by simp)
  | cons word rest ih =>
      obtain ⟨hword, hrest⟩ := List.forall_mem_cons.1 h
      cases rest with
      | nil => exact .inl (hword.plain c (by simpa using hc))
      | cons next rest =>
          rw [String.intercalate_cons_cons, String.toList_append, String.toList_append,
            List.mem_append, List.mem_append] at hc
          obtain (hc | hc) | hc := hc
          · exact .inl (hword.plain c hc)
          · exact .inr (List.mem_singleton.1 hc)
          · exact ih hrest hc

/-! ## Trimming -/

theorem trim_eq_self {s : String} (h : ∀ c ∈ s.toList, isBlank c = false) : trim s = s := by
  rw [trim, trimBy_eq_of_trimmed (.of_forall h), String.ofList_toList]

theorem PlainWord.trim_eq {word : String} (h : PlainWord word) : trim word = word :=
  trim_eq_self fun c hc => isBlank_eq_false_of_isPlain (h.plain c hc)

end FuzzyLogic.Text
