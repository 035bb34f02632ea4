import FuzzyLogic.Proofs.ModelFile.Effect

set_option autoImplicit false

/-! # What a line says, word by word

A line of a model that has words begins with the keyword of a kind of directives, and the words
behind it are the arguments of the directive. The lines of one kind can so be spoken of without the
directives that they spell. -/

namespace FuzzyLogic.ModelFile

/-! ## Arguments -/

/-- The word that directives of the kind begin with. -/
def Kind.keyword : Kind → String
  | .variable => "var"
  | .label => "mf"
  | .norm => "tnorm"
  | .conorm => "snorm"
  | .input => "input"
  | .rule => "rule"

/-- The directive of the kind that the arguments spell. -/
def Kind.read : Kind → List String → Except LineError Directive
  | .variable => Directive.ofVariable
  | .label => Directive.ofLabel
  | .norm => Directive.ofNorm
  | .conorm => Directive.ofConorm
  | .input => Directive.ofInput
  | .rule => Directive.ofRule

/-- The words behind the first one, if the first one is the keyword in some letter case. -/
def argumentsOn (keyword line : String) : Option (List String) :=
  match lineWords line with
  | .ok (head :: words) => if Text.lower head = keyword then some words else none
  | _ => none

/-- The arguments on all lines with the keyword, in the order of the lines. -/
def argumentsOf (keyword text : String) : List (List String) :=
  (Text.splitLines text).filterMap (argumentsOn keyword)

theorem argumentsOn_eq_some_iff {keyword line : String} {words : List String} :
    argumentsOn keyword line = some words ↔
      ∃ head, lineWords line = .ok (head :: words) ∧ Text.lower head = keyword := by
  unfold argumentsOn
  split
  · next head rest h =>
      rw [h]
      simp only [Option.ite_none_right_eq_some, Option.some.injEq, Except.ok.injEq,
        List.cons.injEq]
      constructor
      · rintro ⟨hhead, rfl⟩
        exact ⟨head, ⟨rfl, rfl⟩, hhead⟩
      · rintro ⟨_, ⟨rfl, rfl⟩, hhead⟩
        exact ⟨hhead, rfl⟩
  · next h =>
      simp only [reduceCtorEq, false_iff]
      rintro ⟨head, hwords, -⟩
      exact h head words hwords

theorem Kind.keyword_injective {k l : Kind} (h : k.keyword = l.keyword) : k = l := by
  revert h
  cases k <;> cases l <;> decide

/-! ## Lines and directives -/

/-- What becomes of a line: it cannot be split, it is blank, it has the keyword of some kind and is
read by the rule of that kind, or it has none of the keywords. -/
theorem ofLine_cases (line : String) :
    (∃ e, lineWords line = .error e ∧ Directive.ofLine line = .error (.words e)) ∨
      (lineWords line = .ok [] ∧ Directive.ofLine line = .ok none) ∨
      (∃ (k : Kind) (words : List String), argumentsOn k.keyword line = some words ∧
        Directive.ofLine line = (k.read words).map some) ∨
      ∃ head words, lineWords line = .ok (head :: words) ∧
        (∀ k : Kind, Text.lower head ≠ k.keyword) ∧
        Directive.ofLine line = .error (.unknownDirective head) := by
  unfold Directive.ofLine
  cases hwords : lineWords line with
  | error e => exact .inl ⟨e, rfl, rfl⟩
  | ok words =>
      cases words with
      | nil => exact .inr (.inl ⟨rfl, rfl⟩)
      | cons head words =>
          have hkind {k : Kind} (hk : Text.lower head = k.keyword) :
              argumentsOn k.keyword line = some words :=
            argumentsOn_eq_some_iff.2 ⟨head, hwords, hk⟩
          simp only [Directive.ofWords]
          split
          · next h => exact .inr (.inr (.inl ⟨.variable, words, hkind h, rfl⟩))
          · next h => exact .inr (.inr (.inl ⟨.label, words, hkind h, rfl⟩))
          · next h => exact .inr (.inr (.inl ⟨.norm, words, hkind h, rfl⟩))
          · next h => exact .inr (.inr (.inl ⟨.conorm, words, hkind h, rfl⟩))
          · next h => exact .inr (.inr (.inl ⟨.input, words, hkind h, rfl⟩))
          · next h => exact .inr (.inr (.inl ⟨.rule, words, hkind h, rfl⟩))
          · next h₁ h₂ h₃ h₄ h₅ h₆ =>
              refine .inr (.inr (.inr ⟨head, words, rfl, fun k => ?_, rfl⟩))
              cases k <;> assumption

/-- A line with a keyword is read by the rule of the keyword's kind. -/
theorem ofLine_of_argumentsOn {k : Kind} {line : String} {words : List String}
    (h : argumentsOn k.keyword line = some words) :
    Directive.ofLine line = (k.read words).map some := by
  obtain ⟨head, hwords, hhead⟩ := argumentsOn_eq_some_iff.1 h
  obtain ⟨e, he, -⟩ | ⟨hnil, -⟩ | ⟨l, words', hl, hread⟩ | ⟨head', words', hcons, hnone, -⟩ :=
    ofLine_cases line
  · exact absurd (hwords.symm.trans he) (by simp)
  · exact absurd (hwords.symm.trans hnil) (by simp)
  · obtain ⟨head', hwords', hhead'⟩ := argumentsOn_eq_some_iff.1 hl
    obtain ⟨rfl, rfl⟩ := List.cons.inj (Except.ok.inj (hwords.symm.trans hwords'))
    rw [hread, Kind.keyword_injective (hhead'.symm.trans hhead)]
  · obtain ⟨rfl, -⟩ := List.cons.inj (Except.ok.inj (hwords.symm.trans hcons))
    exact absurd hhead (hnone k)

/-! ## Arguments and directives -/

theorem number_eq_ok_iff {word : String} {x : Float} :
    number word = .ok x ↔ Decimal.read? word = some x := by
  unfold number
  split
  · next h => simp [h]
  · next h => simp [h]

theorem ofVariable_eq_ok_iff {words : List String} {directive : Directive} :
    Directive.ofVariable words = .ok directive ↔
      ∃ name lower upper l u, words = [name, lower, upper] ∧ Decimal.read? lower = some l ∧
        Decimal.read? upper = some u ∧ directive = .makeVariable name l u := by
  unfold Directive.ofVariable
  split
  · simp only [bind_eq_ok_iff, number_eq_ok_iff, pure_eq_ok_iff]
    constructor
    · rintro ⟨l, hl, u, hu, rfl⟩
      exact ⟨_, _, _, l, u, rfl, hl, hu, rfl⟩
    · rintro ⟨_, _, _, l, u, hwords, hl, hu, rfl⟩
      cases hwords
      exact ⟨l, hl, u, hu, rfl⟩
  · next h =>
      simp only [reduceCtorEq, false_iff]
      rintro ⟨name, lower, upper, l, u, hwords, -⟩
      exact h name lower upper hwords

theorem ofInput_eq_ok_iff {words : List String} {directive : Directive} :
    Directive.ofInput words = .ok directive ↔
      ∃ name value x, words = [name, value] ∧ Decimal.read? value = some x ∧
        directive = .setInput name x := by
  unfold Directive.ofInput
  split
  · simp only [bind_eq_ok_iff, number_eq_ok_iff, pure_eq_ok_iff]
    constructor
    · rintro ⟨x, hx, rfl⟩
      exact ⟨_, _, x, rfl, hx, rfl⟩
    · rintro ⟨_, _, x, hwords, hx, rfl⟩
      cases hwords
      exact ⟨x, hx, rfl⟩
  · next h =>
      simp only [reduceCtorEq, false_iff]
      rintro ⟨name, value, x, hwords, -⟩
      exact h name value hwords

theorem ofNorm_eq_ok_iff {words : List String} {directive : Directive} :
    Directive.ofNorm words = .ok directive ↔
      ∃ name, words = [name] ∧ directive = .chooseNorm name := by
  unfold Directive.ofNorm
  split
  · simp [eq_comm]
  · next h => simpa using fun name hwords => absurd hwords (h name)

theorem ofConorm_eq_ok_iff {words : List String} {directive : Directive} :
    Directive.ofConorm words = .ok directive ↔
      ∃ name, words = [name] ∧ directive = .chooseConorm name := by
  unfold Directive.ofConorm
  split
  · simp [eq_comm]
  · next h => simpa using fun name hwords => absurd hwords (h name)

/-- A rule line has no name if nothing stands behind the keyword or the text of the rule does. -/
def Unnamed (words : List String) : Bool :=
  words.isEmpty || Rule.startsWithIf (Rule.tokenize (" ".intercalate words))

/-- What a rule line names: without a name all words are the text of the rule, otherwise the words
behind the first. -/
theorem ofRule_eq_ok {words : List String} {directive : Directive}
    (h : Directive.ofRule words = .ok directive) :
    directive =
      if Unnamed words then .addRule none (" ".intercalate words)
      else
        .addRule (some (Text.trimRightOf ':' (words.headD ""))) (" ".intercalate words.tail) := by
  cases words with
  | nil => exact (Except.ok.inj h).symm
  | cons word rest =>
      simp only [Directive.ofRule] at h
      split at h
      · exact absurd h (by simp)
      · split at h
        · next hif => simp [Unnamed, hif, ← Except.ok.inj h]
        · next hif => simp [Unnamed, hif, ← Except.ok.inj h]

theorem kind_of_read {k : Kind} {words : List String} {directive : Directive}
    (h : k.read words = .ok directive) : directive.kind = k :=
  match k with
  | .variable => by
      obtain ⟨name, lower, upper, l, u, -, -, -, rfl⟩ := ofVariable_eq_ok_iff.1 h
      rfl
  | .label => by
      simp only [Kind.read, Directive.ofLabel] at h
      split at h
      · rw [← Except.ok.inj h]
        rfl
      · exact absurd h (by simp)
  | .norm => by
      obtain ⟨name, -, rfl⟩ := ofNorm_eq_ok_iff.1 h
      rfl
  | .conorm => by
      obtain ⟨name, -, rfl⟩ := ofConorm_eq_ok_iff.1 h
      rfl
  | .input => by
      obtain ⟨name, value, x, -, -, rfl⟩ := ofInput_eq_ok_iff.1 h
      rfl
  | .rule => by
      rw [ofRule_eq_ok h]
      split <;> rfl

theorem argumentsOn_of_ne {k l : Kind} {line : String} {words : List String}
    (h : argumentsOn k.keyword line = some words) (hne : l ≠ k) :
    argumentsOn l.keyword line = none := by
  obtain ⟨head, hwords, hhead⟩ := argumentsOn_eq_some_iff.1 h
  have hkey : k.keyword ≠ l.keyword := fun hkey => hne (Kind.keyword_injective hkey).symm
  simp [argumentsOn, hwords, hhead, hkey]

/-- **The lines of a kind spell the directives of the kind**, one for each line and in the same
order, as long as all lines can be read. -/
theorem map_read_argumentsOn (k : Kind) {lines : List String} (h : ∀ line ∈ lines, Readable line) :
    (lines.filterMap (argumentsOn k.keyword)).map k.read
      = (ofKind k (lines.filterMap directiveOn)).map .ok := by
  induction lines with
  | nil => rfl
  | cons line rest ih =>
      obtain ⟨⟨directive, hline⟩, hrest⟩ := List.forall_mem_cons.1 h
      have ih := ih hrest
      obtain ⟨e, -, hread⟩ | ⟨hnil, hread⟩ | ⟨l, words, hwords, hread⟩ |
        ⟨head, words, -, -, hread⟩ := ofLine_cases line
      · exact absurd (hline.symm.trans hread) (by simp)
      · -- A blank line adds nothing on either side.
        have harguments : argumentsOn k.keyword line = none := by simp [argumentsOn, hnil]
        have hdirective : directiveOn line = none := by simp [directiveOn, hread]
        simpa [harguments, hdirective] using ih
      · obtain ⟨d, hd, rfl⟩ := map_eq_ok_iff.1 (hread.symm.trans hline)
        have hdirective : directiveOn line = some d := by simp [directiveOn, hline]
        have hkind : d.kind = l := kind_of_read hd
        by_cases hkl : k = l
        · subst hkl
          simpa [hwords, hdirective, ofKind, hkind, hd] using ih
        · simpa [argumentsOn_of_ne hwords hkl, hdirective, ofKind, hkind, Ne.symm hkl] using ih
      · exact absurd (hline.symm.trans hread) (by simp)

end FuzzyLogic.ModelFile
