import FuzzyLogic.ModelFile.Words
import FuzzyLogic.Proofs.ModelFile.Line
import FuzzyLogic.Proofs.Text.Word

set_option autoImplicit false

/-! # Lines made of plain words

A line of plain words with single spaces between them is split into these words again. So it is
known what a line says that is put together from a keyword and arguments. -/

namespace FuzzyLogic.ModelFile

open Text

/-! ## Splitting -/

/-- A character that stands for itself in the words of a line. -/
def isOrdinary (c : Char) : Bool :=
  !isSeparator c && !isMark c && c != '#' && c != '\\'

section

variable {c : Char}

theorem isOrdinary_iff :
    isOrdinary c = true ↔ isSeparator c = false ∧ isMark c = false ∧ c ≠ '#' ∧ c ≠ '\\' := by
  simp [isOrdinary, and_assoc]

theorem isBlank_of_isSeparator (h : isSeparator c = true) : isBlank c = true := by
  simp only [isSeparator, Bool.or_eq_true, beq_iff_eq] at h
  obtain ((rfl | rfl) | rfl) | rfl := h <;> decide

theorem isOrdinary_of_isPlain (h : isPlain c = true) : isOrdinary c = true := by
  refine isOrdinary_iff.2 ⟨?_, by simp [isMark, ne_of_isPlain h], ne_of_isPlain h (by simp),
    ne_of_isPlain h (by simp)⟩
  cases hseparator : isSeparator c with
  | false => rfl
  | true =>
      have hblank := isBlank_of_isSeparator hseparator
      rw [isBlank_eq_false_of_isPlain h] at hblank
      exact hblank.symm

end

section

variable {cs word rest : List Char} {c : Char}

theorem wordsFrom_between_cons (h : isOrdinary c = true) :
    wordsFrom .between [] (c :: rest) = wordsFrom .word [c] rest := by
  simp [wordsFrom, isOrdinary_iff.1 h]

theorem wordsFrom_word_cons (h : isOrdinary c = true) :
    wordsFrom .word word (c :: rest) = wordsFrom .word (c :: word) rest := by
  simp [wordsFrom, isOrdinary_iff.1 h]

theorem wordsFrom_word_append (h : ∀ c ∈ cs, isOrdinary c = true) :
    wordsFrom .word word (cs ++ rest) = wordsFrom .word (cs.reverse ++ word) rest := by
  induction cs generalizing word with
  | nil => rfl
  | cons c cs ih =>
      obtain ⟨hc, hcs⟩ := List.forall_mem_cons.1 h
      rw [List.cons_append, wordsFrom_word_cons hc, ih hcs, List.reverse_cons, List.append_assoc,
        List.singleton_append]

theorem wordsFrom_between_append (hne : cs ≠ []) (h : ∀ c ∈ cs, isOrdinary c = true) :
    wordsFrom .between [] (cs ++ rest) = wordsFrom .word cs.reverse rest := by
  obtain ⟨c, cs, rfl⟩ := List.exists_cons_of_ne_nil hne
  obtain ⟨hc, hcs⟩ := List.forall_mem_cons.1 h
  rw [List.cons_append, wordsFrom_between_cons hc, wordsFrom_word_append hcs, List.reverse_cons]

end

/-- A word of ordinary characters before a space is a word of the line. -/
theorem lineWords_word_append {word : String} (hne : word ≠ "")
    (h : ∀ c ∈ word.toList, isOrdinary c = true) (line : String) :
    lineWords (word ++ " " ++ line) = (lineWords line).map (word :: ·) := by
  have hspace : isSeparator ' ' = true := by decide
  have hline : (word ++ " " ++ line).toList = word.toList ++ ' ' :: line.toList := by simp
  rw [lineWords, hline, wordsFrom_between_append (mt String.toList_eq_nil_iff.1 hne) h, wordsFrom,
    lineWords]
  simp only [hspace, if_true, List.reverse_reverse]
  cases wordsFrom .between [] line.toList with
  | error e => rfl
  | ok words => simp [Except.map]

theorem isOrdinary_of_plainWord {word : String} (h : PlainWord word) :
    ∀ c ∈ word.toList, isOrdinary c = true :=
  fun c hc => isOrdinary_of_isPlain (h.plain c hc)

theorem lineWords_of_plainWord {word : String} (h : PlainWord word) :
    lineWords word = .ok [word] := by
  have hwords :
      wordsFrom .between [] (word.toList ++ []) = wordsFrom .word word.toList.reverse [] :=
    wordsFrom_between_append (mt String.toList_eq_nil_iff.1 h.ne_empty) (isOrdinary_of_plainWord h)
  rw [List.append_nil] at hwords
  simp [lineWords, hwords, wordsFrom, Except.map]

/-- A line of plain words has these words. -/
theorem lineWords_intercalate {words : List String} (h : ∀ word ∈ words, PlainWord word) :
    lineWords (" ".intercalate words) = .ok words := by
  induction words with
  | nil => rfl
  | cons word rest ih =>
      obtain ⟨hword, hrest⟩ := List.forall_mem_cons.1 h
      cases rest with
      | nil => exact lineWords_of_plainWord hword
      | cons next rest =>
          rw [String.intercalate_cons_cons,
            lineWords_word_append hword.ne_empty (isOrdinary_of_plainWord hword), ih hrest]
          rfl

/-! ## Directives -/

namespace Kind

theorem plainWord_keyword (k : Kind) : PlainWord k.keyword := by
  cases k <;> decide

/-- The line of the keyword and arguments. -/
def line (k : Kind) (words : List String) : String :=
  " ".intercalate (k.keyword :: words)

variable {k : Kind} {words : List String}

theorem lineWords_line (h : ∀ word ∈ words, PlainWord word) :
    lineWords (k.line words) = .ok (k.keyword :: words) :=
  lineWords_intercalate (List.forall_mem_cons.2 ⟨k.plainWord_keyword, h⟩)

theorem line_ne_empty (h : ∀ word ∈ words, PlainWord word) : k.line words ≠ "" := by
  intro hempty
  have hwords := lineWords_line (k := k) h
  rw [hempty] at hwords
  exact absurd (Except.ok.inj hwords) (by simp)

theorem isLineBoundary_eq_false_of_mem_line (h : ∀ word ∈ words, PlainWord word) {c : Char}
    (hc : c ∈ (k.line words).toList) : isLineBoundary c = false := by
  obtain hplain | rfl :=
    mem_intercalate_cases (List.forall_mem_cons.2 ⟨k.plainWord_keyword, h⟩) hc
  · exact isLineBoundary_eq_false_of_isPlain hplain
  · decide

/-- The line of a keyword and arguments is read by the rule of the keyword's kind. -/
theorem ofLine_line (h : ∀ word ∈ words, PlainWord word) :
    Directive.ofLine (k.line words) = (k.read words).map some := by
  refine ofLine_of_argumentsOn (argumentsOn_eq_some_iff.2 ⟨k.keyword, lineWords_line h, ?_⟩)
  cases k <;> decide

theorem readable_line_iff (h : ∀ word ∈ words, PlainWord word) :
    Readable (k.line words) ↔ ∃ directive, k.read words = .ok directive := by
  rw [Readable, ofLine_line h]
  cases k.read words <;> simp [Except.map]

theorem directiveOn_line (h : ∀ word ∈ words, PlainWord word) :
    directiveOn (k.line words) = (k.read words).toOption := by
  rw [directiveOn, ofLine_line h]
  cases k.read words <;> rfl

end Kind

end FuzzyLogic.ModelFile
