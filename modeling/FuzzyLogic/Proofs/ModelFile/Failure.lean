import FuzzyLogic.Proofs.Model.Refusal
import FuzzyLogic.Proofs.ModelFile.Line

set_option autoImplicit false

/-! # How loading fails

A text that is not loaded fails at one of its lines, and all reasons but one are reported: the line
cannot be split into words, has not the form of its directive, or asks for something that is not
allowed. The one exception is a rule all of whose words are blank. Such a line has words, but none
of them tells a name from a text, and loading ends without a report. -/

namespace FuzzyLogic.ModelFile

/-- The reason is one that is reported together with the line. -/
def LineError.Reported : LineError → Prop
  | .blankRule => False
  | .model e => e.IsRefusal
  | _ => True

/-- The line asks for a rule and has words behind the keyword, and all of them are blank. -/
def BlankRule (line : String) : Prop :=
  ∃ words, argumentsOn "rule" line = some words ∧ words ≠ [] ∧
    ∀ word ∈ words, ∀ c ∈ word.toList, Text.isBlank c = true

/-! ## Blank words -/

theorem tokenizeFrom_eq_nil_iff {cs : List Char} :
    Rule.tokenizeFrom [] cs = [] ↔ ∀ c ∈ cs, Text.isBlank c = true := by
  constructor
  · intro h
    -- Together the tokens are all characters that are not blank, and there are none.
    have hflat := Rule.flatten_tokenizeFrom [] cs
    rw [h] at hflat
    simpa using hflat.symm
  · intro h
    induction cs with
    | nil => rfl
    | cons c rest ih =>
        obtain ⟨hc, hrest⟩ := List.forall_mem_cons.1 h
        simp [Rule.tokenizeFrom, hc, ih hrest, Rule.closeWord]

theorem isEmpty_tokenize_iff {text : String} :
    (Rule.tokenize text).isEmpty = true ↔ ∀ c ∈ text.toList, Text.isBlank c = true := by
  rw [List.isEmpty_iff, Rule.tokenize, List.map_eq_nil_iff, tokenizeFrom_eq_nil_iff]

/-- Joining words by spaces adds nothing but blanks. -/
theorem isBlank_intercalate_iff {words : List String} :
    (∀ c ∈ (" ".intercalate words).toList, Text.isBlank c = true) ↔
      ∀ word ∈ words, ∀ c ∈ word.toList, Text.isBlank c = true := by
  induction words with
  | nil => simp
  | cons word rest ih =>
      cases rest with
      | nil => simp
      | cons next rest =>
          have hspace : Text.isBlank ' ' = true := rfl
          rw [String.intercalate_cons_cons, List.forall_mem_cons, ← ih]
          simp only [String.toList_append, List.forall_mem_append]
          simp [hspace]

/-! ## Lines that cannot be read -/

theorem ofRule_eq_error_iff {words : List String} {reason : LineError} :
    Directive.ofRule words = .error reason ↔
      reason = .blankRule ∧ words ≠ [] ∧
        ∀ word ∈ words, ∀ c ∈ word.toList, Text.isBlank c = true := by
  cases words with
  | nil => simp [Directive.ofRule]
  | cons word rest =>
      rw [← isBlank_intercalate_iff, ← isEmpty_tokenize_iff, Directive.ofRule]
      by_cases hblank : (Rule.tokenize (" ".intercalate (word :: rest))).isEmpty = true
      · simp [hblank, eq_comm]
      · by_cases hif : Rule.startsWithIf (Rule.tokenize (" ".intercalate (word :: rest))) = true
        · simp [hblank, hif]
        · simp [hblank, hif]

theorem number_reported (word : String) : FailsOnly LineError.Reported (number word) := by
  unfold number
  split
  · exact .ok _
  · exact .error trivial

theorem ofVariable_reported (words : List String) :
    FailsOnly LineError.Reported (Directive.ofVariable words) := by
  unfold Directive.ofVariable
  split
  · exact (number_reported _).bind fun _ _ => (number_reported _).bind fun _ _ => .ok _
  · exact .error trivial

theorem ofInput_reported (words : List String) :
    FailsOnly LineError.Reported (Directive.ofInput words) := by
  unfold Directive.ofInput
  split
  · exact (number_reported _).bind fun _ _ => .ok _
  · exact .error trivial

theorem ofLabel_reported (words : List String) :
    FailsOnly LineError.Reported (Directive.ofLabel words) := by
  unfold Directive.ofLabel
  split
  · exact .ok _
  · exact .error trivial

theorem ofNorm_reported (words : List String) :
    FailsOnly LineError.Reported (Directive.ofNorm words) := by
  unfold Directive.ofNorm
  split
  · exact .ok _
  · exact .error trivial

theorem ofConorm_reported (words : List String) :
    FailsOnly LineError.Reported (Directive.ofConorm words) := by
  unfold Directive.ofConorm
  split
  · exact .ok _
  · exact .error trivial

theorem read_reported {k : Kind} (hk : k ≠ .rule) (words : List String) :
    FailsOnly LineError.Reported (k.read words) :=
  match k with
  | .variable => ofVariable_reported words
  | .label => ofLabel_reported words
  | .norm => ofNorm_reported words
  | .conorm => ofConorm_reported words
  | .input => ofInput_reported words
  | .rule => absurd rfl hk

theorem ofLine_of_blankRule {line : String} (h : BlankRule line) :
    Directive.ofLine line = .error .blankRule := by
  obtain ⟨words, hwords, hne, hblank⟩ := h
  have hread : Kind.rule.read words = .error .blankRule :=
    ofRule_eq_error_iff.2 ⟨rfl, hne, hblank⟩
  rw [ofLine_of_argumentsOn (k := .rule) hwords, hread]
  rfl

/-- The reason why a line cannot be read is reported, unless it is a rule of blank words. -/
theorem reported_iff_of_ofLine {line : String} {reason : LineError}
    (h : Directive.ofLine line = .error reason) : reason.Reported ↔ ¬ BlankRule line := by
  by_cases hblank : BlankRule line
  · obtain rfl := Except.error.inj ((ofLine_of_blankRule hblank).symm.trans h)
    simp [hblank, LineError.Reported]
  · refine iff_of_true ?_ hblank
    obtain ⟨e, -, hread⟩ | ⟨-, hread⟩ | ⟨k, words, hwords, hread⟩ | ⟨head, words, -, -, hread⟩ :=
      ofLine_cases line
    · obtain rfl := Except.error.inj (hread.symm.trans h)
      trivial
    · exact absurd (hread.symm.trans h) (by simp)
    · rw [hread, map_eq_error_iff] at h
      by_cases hk : k = .rule
      · subst hk
        obtain ⟨-, hne, hall⟩ := ofRule_eq_error_iff.1 h
        exact absurd ⟨words, hwords, hne, hall⟩ hblank
      · exact read_reported hk words reason h
    · obtain rfl := Except.error.inj (hread.symm.trans h)
      trivial

theorem not_blankRule_of_readable {line : String} (h : Readable line) : ¬ BlankRule line := by
  obtain ⟨directive, hline⟩ := h
  intro hblank
  exact absurd (hline.symm.trans (ofLine_of_blankRule hblank)) (by simp)

/-! ## Directives that are not taken in -/

theorem onModel_reported {β : Type} {x : Except (ModelError Float) β}
    (hx : FailsOnly ModelError.IsRefusal x) : FailsOnly LineError.Reported (onModel x) := by
  cases x with
  | ok b => exact .ok b
  | error e => exact .error (hx e rfl)

theorem takeIn_reported {m : Model Float} (hm : m.Grounded) (directive : Directive) :
    FailsOnly LineError.Reported (takeIn m directive) := by
  cases directive with
  | makeVariable name lower upper => exact onModel_reported (m.addVariable_refusal name lower upper)
  | makeLabel owner label shape params =>
      rw [takeIn, makeLabel]
      split
      · exact .error trivial
      · next ref href =>
          obtain ⟨v, hv⟩ : ∃ v, m.deref? ref = some v :=
            ⟨_, Array.getElem?_eq_getElem (hm owner ref href)⟩
          exact onModel_reported (Model.addShapedLabel_refusal hv _ _ _)
  | chooseNorm name => exact onModel_reported (m.setEngine_refusal _ _)
  | chooseConorm name => exact onModel_reported (m.setEngine_refusal _ _)
  | setInput name x => exact .ok m
  | addRule name text => exact .ok m

/-! ## The passes -/

theorem atLine_eq_error_iff {β : Type} {line : Line} {x : Except LineError β} {e : LoadError} :
    atLine line x = .error e ↔ e.line = line ∧ x = .error e.reason := by
  obtain ⟨line', reason⟩ := e
  cases x with
  | ok b => simp [atLine]
  | error r => simp [atLine, eq_comm]

/-- What the first pass keeps: the model refers to variables that exist, and what was put aside
comes from lines that could be read. -/
structure Draft.Prepared (lines : List Line) (d : Draft) : Prop where
  grounded : d.model.Grounded
  inputs : ∀ input ∈ d.inputs, input.line ∈ lines ∧ Readable input.line.content
  rules : ∀ rule ∈ d.rules, rule.line ∈ lines ∧ Readable rule.line.content

theorem Draft.Prepared.addLine {lines : List Line} {d d' : Draft} {line : Line}
    (hd : d.Prepared lines) (hline : line ∈ lines) (h : d.addLine line = .ok d') :
    d'.Prepared lines := by
  obtain ⟨-, rfl⟩ | ⟨directive, m, hread, hm, rfl⟩ := Draft.addLine_eq_ok_iff.1 h
  · exact hd
  · have hground : m.Grounded := grounded_of_takeIn hd.grounded hm
    have hnew : line ∈ lines ∧ Readable line.content := ⟨hline, _, hread⟩
    cases directive with
    | setInput name x =>
        refine ⟨hground, fun input hinput => ?_, hd.rules⟩
        obtain hinput | hinput := List.mem_append.1 hinput
        · exact hd.inputs input hinput
        · obtain rfl := List.mem_singleton.1 hinput
          exact hnew
    | addRule name text =>
        cases name <;>
        · refine ⟨hground, hd.inputs, fun rule hrule => ?_⟩
          obtain hrule | hrule := List.mem_append.1 hrule
          · exact hd.rules rule hrule
          · obtain rfl := List.mem_singleton.1 hrule
            exact hnew
    | _ => exact ⟨hground, hd.inputs, hd.rules⟩

/-- The line cannot be read, or its directive is not taken in. -/
inductive Refuses (m : Model Float) (line : String) (reason : LineError) : Prop
  | unreadable (hline : Directive.ofLine line = .error reason)
  | refused {directive : Directive} (hline : Directive.ofLine line = .ok (some directive))
      (htake : takeIn m directive = .error reason)

theorem Draft.addLine_eq_error_iff {d : Draft} {line : Line} {e : LoadError} :
    d.addLine line = .error e ↔ e.line = line ∧ Refuses d.model line.content e.reason := by
  rw [Draft.addLine, atLine_eq_error_iff, and_congr_right_iff, bind_eq_error_iff]
  rintro -
  constructor
  · rintro (hline | ⟨directive, hline, hadd⟩)
    · exact .unreadable hline
    · cases directive with
      | none => exact absurd hadd (by simp [pure, Except.pure])
      | some directive =>
          simp only [Draft.add_eq] at hadd
          exact .refused hline (map_eq_error_iff.1 hadd)
  · rintro (hline | @⟨directive, hline, htake⟩)
    · exact .inl hline
    · refine .inr ⟨some directive, hline, ?_⟩
      simp only [Draft.add_eq]
      exact map_eq_error_iff.2 htake

theorem Draft.addLine_eq_error {d : Draft} {line : Line} {e : LoadError} (hd : d.model.Grounded)
    (h : d.addLine line = .error e) :
    e.line = line ∧ (e.reason.Reported ↔ ¬ BlankRule line.content) := by
  obtain ⟨hline, hrefuses⟩ := Draft.addLine_eq_error_iff.1 h
  refine ⟨hline, ?_⟩
  cases hrefuses with
  | unreadable hread => exact reported_iff_of_ofLine hread
  | refused hread htake =>
      exact iff_of_true (takeIn_reported hd _ _ htake) (not_blankRule_of_readable ⟨_, hread⟩)

/-- **A text that is not loaded fails at one of its lines, and the reason is reported exactly if
the line is not a rule of blank words.** -/
theorem load_error_reported_iff (text : String) :
    (∃ m, load text = .ok m) ∨
      ∃ e, load text = .error e ∧ e.line ∈ numberLines (Text.splitLines text) ∧
        (e.reason.Reported ↔ ¬ BlankRule e.line.content) := by
  cases hload : load text with
  | ok m => exact .inl ⟨m, rfl⟩
  | error e =>
      refine .inr ⟨e, rfl, ?_⟩
      let lines := numberLines (Text.splitLines text)
      have hstep : ∀ d d' : Draft, ∀ line ∈ lines, d.Prepared lines → d.addLine line = .ok d' →
          d'.Prepared lines := fun d d' line hline hd h => hd.addLine hline h
      have hstart : Draft.start.Prepared lines :=
        ⟨Model.grounded_empty _ _, by simp [Draft.start], by simp [Draft.start]⟩
      obtain hfirst | ⟨d, hd, hlater⟩ := bind_eq_error_iff.1 hload
      · obtain ⟨line, hline, d, hd, herror⟩ := exists_of_foldlM_eq_error _ hstep hstart hfirst
        obtain ⟨rfl, hiff⟩ := Draft.addLine_eq_error hd.grounded herror
        exact ⟨hline, hiff⟩
      · have hprepared : d.Prepared lines := foldlM_invariant _ hstep hstart hd
        -- What the later passes refuse comes from a line that could be read.
        have hreadable {line : Line} (hline : line ∈ lines ∧ Readable line.content)
            (heq : e.line = line) (hreason : e.reason.Reported) :
            e.line ∈ lines ∧ (e.reason.Reported ↔ ¬ BlankRule e.line.content) := by
          rw [heq]
          exact ⟨hline.1, iff_of_true hreason (not_blankRule_of_readable hline.2)⟩
        obtain hinputs | ⟨m, -, hrules⟩ := bind_eq_error_iff.1 hlater
        · obtain ⟨input, hinput, m, -, herror⟩ :=
            exists_of_foldlM_eq_error (fun _ => True) (fun _ _ _ _ _ _ => trivial) trivial hinputs
          obtain ⟨hline, hreason⟩ := atLine_eq_error_iff.1 herror
          exact hreadable (hprepared.inputs input hinput) hline
            (onModel_reported (m.assign_refusal false _ _) _ hreason)
        · obtain ⟨rule, hrule, m, -, herror⟩ :=
            exists_of_foldlM_eq_error (fun _ => True) (fun _ _ _ _ _ _ => trivial) trivial hrules
          obtain ⟨hline, hreason⟩ := atLine_eq_error_iff.1 herror
          exact hreadable (hprepared.rules rule hrule) hline
            (onModel_reported (m.newRule_refusal _ _) _ hreason)

/-- A rule that consists of one empty word is not reported. -/
theorem load_blankRule_unreported :
    ∃ e, load "rule \"\"" = .error e ∧ ¬ e.reason.Reported :=
  ⟨⟨⟨1, "rule \"\""⟩, .blankRule⟩, rfl, id⟩

end FuzzyLogic.ModelFile
