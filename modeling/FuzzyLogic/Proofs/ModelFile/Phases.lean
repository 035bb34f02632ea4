import FuzzyLogic.ModelFile.Load
import FuzzyLogic.Proofs.Success

set_option autoImplicit false

/-! # The passes of loading as passes over directives

Loading keeps for every line its number, in case that its directive fails. A text that is loaded
needs no numbers: its lines can all be read, and its directives are gone through three times, once
for variables, labels and operators, once for the inputs, and once for the rules. -/

namespace FuzzyLogic.ModelFile

/-! ## The lines -/

/-- The directive on the line. A line that cannot be read has none. -/
def directiveOn (line : String) : Option Directive :=
  match Directive.ofLine line with
  | .ok directive => directive
  | .error _ => none

/-- The line is blank or spells a directive. -/
def Readable (line : String) : Prop :=
  ∃ directive, Directive.ofLine line = .ok directive

theorem content_numberLines (lines : List String) :
    (numberLines lines).map Line.content = lines := by
  simp [numberLines, List.ext_getElem_iff]

/-! ## The directives -/

/-- What a directive does in the first pass. Inputs and rules wait. -/
def takeIn (m : Model Float) : Directive → Except LineError (Model Float)
  | .makeVariable name lower upper => onModel (m.addVariable name lower upper)
  | .makeLabel owner label shape params => makeLabel m owner label shape params
  | .chooseNorm name => onModel (m.setEngine (some name) none)
  | .chooseConorm name => onModel (m.setEngine none (some name))
  | .setInput _ _ => .ok m
  | .addRule _ _ => .ok m

/-- The first pass. -/
def takeAll (m : Model Float) (directives : List Directive) : Except LineError (Model Float) :=
  directives.foldlM takeIn m

/-- The inputs of the second pass. -/
def inputsOf : List Directive → List (String × Float)
  | [] => []
  | .setInput name x :: rest => (name, x) :: inputsOf rest
  | _ :: rest => inputsOf rest

/-- The rules of the third pass with their names, when `n` rules without a name came before. -/
def rulesOf (n : Nat) : List Directive → List (String × String)
  | [] => []
  | .addRule (some name) text :: rest => (name, text) :: rulesOf n rest
  | .addRule none text :: rest => (automaticName (n + 1), text) :: rulesOf (n + 1) rest
  | _ :: rest => rulesOf n rest

/-- The second pass. -/
def enterInputs (m : Model Float) (inputs : List (String × Float)) :
    Except (ModelError Float) (Model Float) :=
  inputs.foldlM (fun m input => m.assign false input.1 input.2) m

/-- The third pass. -/
def enterRules (m : Model Float) (rules : List (String × String)) :
    Except (ModelError Float) (Model Float) :=
  rules.foldlM (fun m rule => m.newRule rule.1 rule.2) m

/-- The three passes over the directives lead to the model. -/
def Describe (directives : List Directive) (m : Model Float) : Prop :=
  ∃ built set, takeAll .initial directives = .ok built ∧
    enterInputs built (inputsOf directives) = .ok set ∧
    enterRules set (rulesOf 0 directives) = .ok m

/-! ## The first pass over the lines -/

@[simp] theorem atLine_eq_ok_iff {β : Type} {line : Line} {x : Except LineError β} {b : β} :
    atLine line x = .ok b ↔ x = .ok b := by
  cases x <;> simp [atLine]

@[simp] theorem onModel_eq_ok_iff {β : Type} {x : Except (ModelError Float) β} {b : β} :
    onModel x = .ok b ↔ x = .ok b := by
  cases x <;> simp [onModel]

namespace Draft

/-- The inputs that were put aside. -/
def inputPairs (d : Draft) : List (String × Float) :=
  d.inputs.map fun input => (input.name, input.value)

/-- The rules that were put aside. -/
def rulePairs (d : Draft) : List (String × String) :=
  d.rules.map fun rule => (rule.name, rule.text)

/-- From one draft the directives lead to the other. -/
structure Leads (d : Draft) (directives : List Directive) (d' : Draft) : Prop where
  model : takeAll d.model directives = .ok d'.model
  inputs (rest : List Directive) :
    d'.inputPairs ++ inputsOf rest = d.inputPairs ++ inputsOf (directives ++ rest)
  rules (rest : List Directive) :
    d'.rulePairs ++ rulesOf d'.unnamed rest = d.rulePairs ++ rulesOf d.unnamed (directives ++ rest)

theorem Leads.nil (d : Draft) : Leads d [] d :=
  ⟨rfl, fun _ => rfl, fun _ => rfl⟩

theorem Leads.cons {d e f : Draft} {directive : Directive} {rest : List Directive}
    (h : Leads d [directive] e) (h' : Leads e rest f) : Leads d (directive :: rest) f where
  model := by
    have hmodel := foldlM_append_eq_ok_iff.2 ⟨_, h.model, h'.model⟩
    exact hmodel
  inputs := fun more => (h'.inputs more).trans (h.inputs (rest ++ more))
  rules := fun more => (h'.rules more).trans (h.rules (rest ++ more))

/-- The draft with the input or the rule of the directive put aside. -/
def putAside (d : Draft) (line : Line) : Directive → Draft
  | .setInput name value => { d with inputs := d.inputs ++ [{ line, name, value }] }
  | .addRule (some name) text => { d with rules := d.rules ++ [{ line, name, text }] }
  | .addRule none text =>
    { d with
      rules := d.rules ++ [{ line, name := automaticName (d.unnamed + 1), text }]
      unnamed := d.unnamed + 1 }
  | _ => d

/-- A directive changes the model or is put aside. -/
theorem add_eq (d : Draft) (line : Line) (directive : Directive) :
    d.add line directive
      = (takeIn d.model directive).map ({ d.putAside line directive with model := · }) := by
  have hbind (x : Except LineError (Model Float)) :
      (do let model ← x; return { d with model }) = x.map ({ d with model := · }) := by
    cases x <;> rfl
  cases directive with
  | addRule name text => cases name <;> rfl
  | setInput name value => rfl
  | _ => exact hbind _

theorem leads_putAside {d : Draft} {line : Line} {directive : Directive} {m : Model Float}
    (h : takeIn d.model directive = .ok m) :
    Leads d [directive] { d.putAside line directive with model := m } where
  model := foldlM_cons_eq_ok_iff.2 ⟨_, h, rfl⟩
  inputs := by
    intro rest
    cases directive with
    | addRule name text => cases name <;> rfl
    | setInput name value => simp [putAside, inputPairs, inputsOf]
    | _ => rfl
  rules := by
    intro rest
    cases directive with
    | addRule name text => cases name <;> simp [putAside, rulePairs, rulesOf]
    | _ => rfl

/-- A line is taken in if it can be read and its directive can. -/
theorem addLine_eq_ok_iff {d d' : Draft} {line : Line} :
    d.addLine line = .ok d' ↔
      (Directive.ofLine line.content = .ok none ∧ d' = d) ∨
        ∃ directive m, Directive.ofLine line.content = .ok (some directive) ∧
          takeIn d.model directive = .ok m ∧
          d' = { d.putAside line directive with model := m } := by
  rw [addLine, atLine_eq_ok_iff, bind_eq_ok_iff]
  constructor
  · rintro ⟨directive, hline, h⟩
    cases directive with
    | none => exact .inl ⟨hline, (pure_eq_ok_iff.1 h).symm⟩
    | some directive =>
        simp only [add_eq] at h
        cases hm : takeIn d.model directive with
        | error e => simp [hm, Except.map] at h
        | ok m =>
            rw [hm] at h
            exact .inr ⟨directive, m, hline, hm, (Except.ok.inj h).symm⟩
  · rintro (⟨hline, rfl⟩ | ⟨directive, m, hline, hm, rfl⟩)
    · exact ⟨none, hline, rfl⟩
    · exact ⟨some directive, hline, by simp only [add_eq, hm, Except.map]⟩

/-- The directives of the lines. -/
def directivesOn (lines : List Line) : List Directive :=
  lines.filterMap fun line => directiveOn line.content

theorem directivesOn_cons_of_none {line : Line} {lines : List Line}
    (h : Directive.ofLine line.content = .ok none) :
    directivesOn (line :: lines) = directivesOn lines := by
  simp [directivesOn, directiveOn, h]

theorem directivesOn_cons_of_some {line : Line} {lines : List Line} {directive : Directive}
    (h : Directive.ofLine line.content = .ok (some directive)) :
    directivesOn (line :: lines) = directive :: directivesOn lines := by
  simp [directivesOn, directiveOn, h]

theorem leads_of_foldlM {d d' : Draft} {lines : List Line}
    (h : lines.foldlM addLine d = .ok d') :
    (∀ line ∈ lines, Readable line.content) ∧ Leads d (directivesOn lines) d' := by
  induction lines generalizing d with
  | nil =>
      rw [foldlM_nil_eq_ok_iff] at h
      subst h
      exact ⟨by simp, .nil d'⟩
  | cons line lines ih =>
      obtain ⟨e, hline, hrest⟩ := foldlM_cons_eq_ok_iff.1 h
      obtain ⟨hread, hleads⟩ := ih hrest
      obtain ⟨hnone, rfl⟩ | ⟨directive, m, hsome, hm, rfl⟩ := addLine_eq_ok_iff.1 hline
      · rw [directivesOn_cons_of_none hnone]
        exact ⟨List.forall_mem_cons.2 ⟨⟨_, hnone⟩, hread⟩, hleads⟩
      · rw [directivesOn_cons_of_some hsome]
        exact ⟨List.forall_mem_cons.2 ⟨⟨_, hsome⟩, hread⟩, (leads_putAside hm).cons hleads⟩

theorem exists_foldlM_addLine {d : Draft} {lines : List Line} {m : Model Float}
    (hread : ∀ line ∈ lines, Readable line.content)
    (h : takeAll d.model (directivesOn lines) = .ok m) :
    ∃ d', lines.foldlM addLine d = .ok d' ∧ d'.model = m := by
  induction lines generalizing d with
  | nil => exact ⟨d, rfl, (foldlM_nil_eq_ok_iff.1 h).symm⟩
  | cons line lines ih =>
      obtain ⟨⟨directive, hline⟩, hread⟩ := List.forall_mem_cons.1 hread
      -- What remains to do once the draft behind the first line is known.
      have hstep {e : Draft} (he : d.addLine line = .ok e)
          (hrest : takeAll e.model (directivesOn lines) = .ok m) :
          ∃ d', (line :: lines).foldlM addLine d = .ok d' ∧ d'.model = m := by
        obtain ⟨d', hd', hmodel⟩ := ih hread hrest
        exact ⟨d', foldlM_cons_eq_ok_iff.2 ⟨e, he, hd'⟩, hmodel⟩
      cases directive with
      | none =>
          rw [directivesOn_cons_of_none hline] at h
          exact hstep (addLine_eq_ok_iff.2 (.inl ⟨hline, rfl⟩)) h
      | some directive =>
          rw [directivesOn_cons_of_some hline] at h
          obtain ⟨u, hu, hrest⟩ := foldlM_cons_eq_ok_iff.1 h
          exact hstep (addLine_eq_ok_iff.2 (.inr ⟨directive, u, hline, hu, rfl⟩)) hrest

end Draft

/-! ## Loading -/

theorem foldlM_applyInput_eq_ok_iff {m m' : Model Float} {d : Draft} :
    d.inputs.foldlM applyInput m = .ok m' ↔ enterInputs m d.inputPairs = .ok m' :=
  foldlM_map_eq_ok_iff (by simp [applyInput]) d.inputs m m'

theorem foldlM_applyRule_eq_ok_iff {m m' : Model Float} {d : Draft} :
    d.rules.foldlM applyRule m = .ok m' ↔ enterRules m d.rulePairs = .ok m' :=
  foldlM_map_eq_ok_iff (by simp [applyRule]) d.rules m m'

/-- **A text is loaded exactly if all its lines can be read and their directives describe a model.**
It does not matter on which lines the directives stand. -/
theorem load_eq_ok_iff {text : String} {m : Model Float} :
    load text = .ok m ↔ (∀ line ∈ Text.splitLines text, Readable line) ∧
      Describe ((Text.splitLines text).filterMap directiveOn) m := by
  let lines : List Line := numberLines (Text.splitLines text)
  have hcontent : lines.map Line.content = Text.splitLines text :=
    content_numberLines (Text.splitLines text)
  have hdirectives : Draft.directivesOn lines = (Text.splitLines text).filterMap directiveOn := by
    rw [← hcontent, List.filterMap_map]
    rfl
  rw [← hdirectives, ← hcontent, List.forall_mem_map]
  simp only [load, loadLines, bind_eq_ok_iff, foldlM_applyInput_eq_ok_iff,
    foldlM_applyRule_eq_ok_iff]
  constructor
  · rintro ⟨d, hlines, set, hset, hrules⟩
    obtain ⟨hread, hleads⟩ := Draft.leads_of_foldlM hlines
    have hinputs := hleads.inputs []
    have hnamed := hleads.rules []
    simp only [inputsOf, rulesOf, List.append_nil] at hinputs hnamed
    refine ⟨hread, d.model, set, hleads.model, ?_, ?_⟩
    · rwa [hinputs] at hset
    · rwa [hnamed] at hrules
  · rintro ⟨hread, built, set, hbuilt, hset, hrules⟩
    obtain ⟨d, hlines, rfl⟩ := Draft.exists_foldlM_addLine (d := .start) hread hbuilt
    have hleads := (Draft.leads_of_foldlM hlines).2
    have hinputs := hleads.inputs []
    have hnamed := hleads.rules []
    simp only [inputsOf, rulesOf, List.append_nil] at hinputs hnamed
    refine ⟨d, hlines, set, ?_, ?_⟩
    · rw [hinputs]
      exact hset
    · rw [hnamed]
      exact hrules

end FuzzyLogic.ModelFile
