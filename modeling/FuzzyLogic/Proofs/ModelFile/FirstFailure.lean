import FuzzyLogic.Proofs.ModelFile.Failure

set_option autoImplicit false

/-! # The first failure of loading

A text that is not loaded fails at one of its lines, and which one this is depends on the passes.
All lines are gone through before the first input is set, and all inputs are set before the first
rule is compiled. So a line that is not taken in is reported rather than an input above it, and an
input rather than a rule above it.

`FirstFailure` says this without the numbers that loading carries along: everything that comes
before the failure in the order of the passes succeeds. What fails in the first pass is known as
soon as its line is read, whatever lines are still to come. -/

namespace FuzzyLogic.ModelFile

/-! ## The order of failures -/

/-- The inputs on the lines. -/
def inputsOn (lines : List String) : List (String × Float) :=
  inputsOf (lines.filterMap directiveOn)

/-- The rules on the lines with their names. -/
def rulesOn (lines : List String) : List (String × String) :=
  rulesOf 0 (lines.filterMap directiveOn)

/-- All lines can be read, and the first pass over them leads to the model. -/
structure Passes (lines : List String) (m : Model Float) : Prop where
  readable : ∀ line ∈ lines, Readable line
  takes : takeAll .initial (lines.filterMap directiveOn) = .ok m

/-- The lines begin with `before`, and the line of the error comes next. -/
structure LoadError.Behind (e : LoadError) (before lines : List String) : Prop where
  number : e.line.number = before.length + 1
  content : before ++ [e.line.content] <+: lines

/-- The passes of loading. -/
inductive Pass where
  | lines
  | inputs
  | rules
  deriving Repr, DecidableEq

/-- What fails first, and in which pass. -/
inductive FirstFailure (lines : List String) (e : LoadError) : Pass → Prop
  /-- A line is refused, and those before it are taken in. -/
  | lines {before : List String} {m : Model Float} (hplace : e.Behind before lines)
      (hbefore : Passes before m) (hfail : Refuses m e.line.content e.reason) :
      FirstFailure lines e .lines
  /-- All lines are taken in. An input is refused, and those before it are set. -/
  | inputs {before : List String} {built m : Model Float} {name : String} {x : Float}
      {reason : ModelError Float} (hplace : e.Behind before lines) (hlines : Passes lines built)
      (hline : inputsOn (before ++ [e.line.content]) = inputsOn before ++ [(name, x)])
      (hbefore : enterInputs built (inputsOn before) = .ok m)
      (hfail : m.assign false name x = .error reason) (hreason : e.reason = .model reason) :
      FirstFailure lines e .inputs
  /-- All lines are taken in and all inputs are set. A rule is refused, and those before it are
  entered. -/
  | rules {before : List String} {built set m : Model Float} {name text : String}
      {reason : ModelError Float} (hplace : e.Behind before lines) (hlines : Passes lines built)
      (hinputs : enterInputs built (inputsOn lines) = .ok set)
      (hline : rulesOn (before ++ [e.line.content]) = rulesOn before ++ [(name, text)])
      (hbefore : enterRules set (rulesOn before) = .ok m)
      (hfail : m.newRule name text = .error reason) (hreason : e.reason = .model reason) :
      FirstFailure lines e .rules

/-! ## Places -/

theorem behind_of_numberLines_eq {lines : List String} {before after : List Line} {e : LoadError}
    (h : numberLines lines = before ++ e.line :: after) :
    e.Behind (before.map Line.content) lines where
  number := by
    have hget : (numberLines lines)[before.length]? = some e.line := by
      rw [h, List.getElem?_append_right (Nat.le_refl _), Nat.sub_self]
      rfl
    rw [numberLines, List.getElem?_mapIdx] at hget
    obtain ⟨content, -, hline⟩ := Option.map_eq_some_iff.1 hget
    rw [← hline, List.length_map]
  content := by
    refine ⟨after.map Line.content, ?_⟩
    rw [← content_numberLines lines, h]
    simp

namespace LoadError.Behind

variable {e : LoadError} {before lines : List String}

theorem exists_numberLines_eq (h : e.Behind before lines) :
    ∃ first last, numberLines lines = first ++ e.line :: last ∧
      first.map Line.content = before := by
  obtain ⟨after, rfl⟩ := h.content
  have hnumber : ∃ last, numberLines (before ++ e.line.content :: after)
      = numberLines before ++ ⟨before.length + 1, e.line.content⟩ :: last :=
    ⟨_, by rw [numberLines, List.mapIdx_append, List.mapIdx_cons, Nat.zero_add]; rfl⟩
  obtain ⟨last, hlast⟩ := hnumber
  rw [← h.number] at hlast
  exact ⟨numberLines before, last, by simpa using hlast, content_numberLines before⟩

theorem take_eq (h : e.Behind before lines) :
    lines.take e.line.number = before ++ [e.line.content] := by
  have hlength : (before ++ [e.line.content]).length = e.line.number := by simp [h.number]
  rw [← hlength]
  exact List.prefix_iff_eq_take.1 h.content |>.symm

/-- The number of the line is the one of its content. -/
theorem bounds (h : e.Behind before lines) :
    1 ≤ e.line.number ∧ e.line.number ≤ lines.length ∧
      lines[e.line.number - 1]? = some e.line.content := by
  obtain ⟨last, rfl⟩ := h.content
  rw [h.number]
  simp

end LoadError.Behind

theorem FirstFailure.exists_behind {lines : List String} {e : LoadError} {pass : Pass}
    (h : FirstFailure lines e pass) : ∃ before, e.Behind before lines := by
  cases h with
  | lines hplace => exact ⟨_, hplace⟩
  | inputs hplace => exact ⟨_, hplace⟩
  | rules hplace => exact ⟨_, hplace⟩

/-! ## The first pass over the lines -/

namespace Draft

variable {d d' : Draft} {line : Line} {lines : List Line}

theorem directivesOn_eq (lines : List Line) :
    directivesOn lines = (lines.map Line.content).filterMap directiveOn := by
  rw [List.filterMap_map]
  rfl

/-- A line puts at most one input aside, with its number. -/
theorem inputs_grow (h : d.addLine line = .ok d') :
    d'.inputs = d.inputs ∨ ∃ input, d'.inputs = d.inputs ++ [input] ∧ input.line = line := by
  obtain ⟨-, rfl⟩ | ⟨directive, m, -, -, rfl⟩ := addLine_eq_ok_iff.1 h
  · exact .inl rfl
  · cases directive with
    | setInput name x => exact .inr ⟨_, rfl, rfl⟩
    | addRule name text => cases name <;> exact .inl rfl
    | _ => exact .inl rfl

/-- A line puts at most one rule aside, with its number. -/
theorem rules_grow (h : d.addLine line = .ok d') :
    d'.rules = d.rules ∨ ∃ rule, d'.rules = d.rules ++ [rule] ∧ rule.line = line := by
  obtain ⟨-, rfl⟩ | ⟨directive, m, -, -, rfl⟩ := addLine_eq_ok_iff.1 h
  · exact .inl rfl
  · cases directive with
    | addRule name text => cases name <;> exact .inr ⟨_, rfl, rfl⟩
    | _ => exact .inl rfl

theorem passes_of_foldlM (h : lines.foldlM addLine .start = .ok d) :
    Passes (lines.map Line.content) d.model := by
  obtain ⟨hread, hleads⟩ := leads_of_foldlM h
  exact ⟨List.forall_mem_map.2 hread, directivesOn_eq lines ▸ hleads.model⟩

theorem inputPairs_of_foldlM (h : lines.foldlM addLine .start = .ok d) :
    d.inputPairs = inputsOn (lines.map Line.content) := by
  have hinputs := (leads_of_foldlM h).2.inputs []
  simpa [inputsOf, directivesOn_eq, start, inputPairs, inputsOn] using hinputs

theorem rulePairs_of_foldlM (h : lines.foldlM addLine .start = .ok d) :
    d.rulePairs = rulesOn (lines.map Line.content) := by
  have hrules := (leads_of_foldlM h).2.rules []
  simpa [rulesOf, directivesOn_eq, start, rulePairs, rulesOn] using hrules

end Draft

theorem Passes.exists_foldlM {lines : List Line} {m : Model Float}
    (h : Passes (lines.map Line.content) m) :
    ∃ d, lines.foldlM Draft.addLine .start = .ok d ∧ d.model = m := by
  refine Draft.exists_foldlM_addLine (List.forall_mem_map.1 h.readable) ?_
  rw [Draft.directivesOn_eq]
  exact h.takes

/-! ## What waits for the later passes -/

section

variable {γ δ : Type} {items : Draft → List γ} {place : γ → Line} {entry : γ → δ}
  {onLines : List String → List δ}
  (hgrows : ∀ d line d', d.addLine line = .ok d' →
    items d' = items d ∨ ∃ c, items d' = items d ++ [c] ∧ place c = line)
  (honLines : ∀ (lines : List Line) d, lines.foldlM Draft.addLine .start = .ok d →
    (items d).map entry = onLines (lines.map Line.content))

include hgrows honLines

/-- What was put aside stands on a line, and what was put aside before stands on the lines
before. -/
theorem exists_behind_of_items (hstart : items .start = []) {lines : List String} {d : Draft}
    (hd : (numberLines lines).foldlM Draft.addLine .start = .ok d) {first last : List γ} {c : γ}
    (hitems : items d = first ++ c :: last) {e : LoadError} (he : e.line = place c) :
    ∃ before, e.Behind before lines ∧ first.map entry = onLines before ∧
      onLines (before ++ [e.line.content]) = onLines before ++ [entry c] := by
  obtain ⟨before, line, after, u, v, hsplit, hu, hv, hfirst, hnext, rfl⟩ :=
    exists_step_of_foldlM_grows hgrows hstart hd hitems
  have hbefore := honLines before u hu
  have hthrough : (before ++ [place c]).foldlM Draft.addLine .start = .ok v :=
    foldlM_append_eq_ok_iff.2 ⟨u, hu, foldlM_cons_eq_ok_iff.2 ⟨v, hv, rfl⟩⟩
  have hline := honLines _ v hthrough
  rw [← he] at hsplit
  refine ⟨before.map Line.content, behind_of_numberLines_eq hsplit, hfirst ▸ hbefore, ?_⟩
  rw [he, ← hbefore, hfirst]
  simpa [hnext] using hline.symm

/-- What stands on a line was put aside, behind what stands on the lines before. -/
theorem exists_items_of_behind {lines before : List String} {d : Draft}
    (hd : (numberLines lines).foldlM Draft.addLine .start = .ok d) {e : LoadError}
    (hplace : e.Behind before lines) {b : δ}
    (hline : onLines (before ++ [e.line.content]) = onLines before ++ [b]) :
    ∃ first c last, items d = first ++ c :: last ∧ place c = e.line ∧
      first.map entry = onLines before ∧ entry c = b := by
  obtain ⟨first, last, hnumber, rfl⟩ := hplace.exists_numberLines_eq
  rw [hnumber] at hd
  obtain ⟨u, hu, hrest⟩ := foldlM_append_eq_ok_iff.1 hd
  obtain ⟨v, hv, hlast⟩ := foldlM_cons_eq_ok_iff.1 hrest
  obtain ⟨more, hmore⟩ := exists_append_of_foldlM_grows hgrows hlast
  have hthrough : (first ++ [e.line]).foldlM Draft.addLine .start = .ok v :=
    foldlM_append_eq_ok_iff.2 ⟨u, hu, foldlM_cons_eq_ok_iff.2 ⟨v, hv, rfl⟩⟩
  have hbefore := honLines first u hu
  have hthroughLine := honLines _ v hthrough
  rw [List.map_append, List.map_singleton, hline, ← hbefore] at hthroughLine
  obtain hsame | ⟨c, hnew, hc⟩ := hgrows u e.line v hv
  · exact absurd hthroughLine (by simp [hsame])
  · rw [hnew, List.map_append] at hthroughLine
    have hentry := List.append_cancel_left hthroughLine
    exact ⟨items u, c, more, by rw [hmore, hnew]; simp, hc, hbefore, by simpa using hentry⟩

end

/-! ## The later passes -/

theorem onModel_eq_error_iff {β : Type} {x : Except (ModelError Float) β} {reason : LineError} :
    onModel x = .error reason ↔ ∃ e, x = .error e ∧ reason = .model e := by
  cases x with
  | ok b => simp [onModel]
  | error e => simp [onModel, eq_comm]

theorem applyInput_eq_error_iff {m : Model Float} {input : PendingInput} {e : LoadError} :
    applyInput m input = .error e ↔ e.line = input.line ∧
      ∃ reason, m.assign false input.name input.value = .error reason ∧
        e.reason = .model reason := by
  rw [applyInput, atLine_eq_error_iff, onModel_eq_error_iff]

theorem applyRule_eq_error_iff {m : Model Float} {rule : PendingRule} {e : LoadError} :
    applyRule m rule = .error e ↔ e.line = rule.line ∧
      ∃ reason, m.newRule rule.name rule.text = .error reason ∧ e.reason = .model reason := by
  rw [applyRule, atLine_eq_error_iff, onModel_eq_error_iff]

/-! ## Loading -/

theorem exists_firstFailure_of_load {text : String} {e : LoadError} (h : load text = .error e) :
    ∃ pass, FirstFailure (Text.splitLines text) e pass := by
  obtain hfirst | ⟨d, hd, hlater⟩ := bind_eq_error_iff.1 h
  · obtain ⟨before, line, after, u, hsplit, hu, hfail⟩ := foldlM_eq_error_iff.1 hfirst
    obtain ⟨rfl, hrefuses⟩ := Draft.addLine_eq_error_iff.1 hfail
    exact ⟨.lines, .lines (behind_of_numberLines_eq hsplit) (Draft.passes_of_foldlM hu) hrefuses⟩
  · have hpasses := Draft.passes_of_foldlM hd
    rw [content_numberLines] at hpasses
    obtain hinputs | ⟨set, hset, hrules⟩ := bind_eq_error_iff.1 hlater
    · obtain ⟨first, input, last, m, hitems, hm, hfail⟩ := foldlM_eq_error_iff.1 hinputs
      obtain ⟨hline, reason, hassign, hreason⟩ := applyInput_eq_error_iff.1 hfail
      obtain ⟨before, hplace, hfirst, hnext⟩ := exists_behind_of_items
        (fun _ _ _ => Draft.inputs_grow) (fun _ _ => Draft.inputPairs_of_foldlM) rfl hd hitems hline
      have hbefore := (foldlM_applyInput_eq_ok_iff (d := { d with inputs := first })).1 hm
      exact ⟨.inputs, .inputs hplace hpasses hnext (hfirst ▸ hbefore) hassign hreason⟩
    · obtain ⟨first, rule, last, m, hitems, hm, hfail⟩ := foldlM_eq_error_iff.1 hrules
      obtain ⟨hline, reason, hnew, hreason⟩ := applyRule_eq_error_iff.1 hfail
      obtain ⟨before, hplace, hfirst, hnext⟩ := exists_behind_of_items
        (fun _ _ _ => Draft.rules_grow) (fun _ _ => Draft.rulePairs_of_foldlM) rfl hd hitems hline
      have hinputs := foldlM_applyInput_eq_ok_iff.1 hset
      rw [Draft.inputPairs_of_foldlM hd, content_numberLines] at hinputs
      have hbefore := (foldlM_applyRule_eq_ok_iff (d := { d with rules := first })).1 hm
      exact ⟨.rules, .rules hplace hpasses hinputs hnext (hfirst ▸ hbefore) hnew hreason⟩

theorem FirstFailure.load_eq {text : String} {e : LoadError} {pass : Pass}
    (h : FirstFailure (Text.splitLines text) e pass) : load text = .error e := by
  have hnumbered {m : Model Float} (hpasses : Passes (Text.splitLines text) m) :
      ∃ d, (numberLines (Text.splitLines text)).foldlM Draft.addLine .start = .ok d ∧
        d.model = m :=
    Passes.exists_foldlM ((content_numberLines _).symm ▸ hpasses)
  cases h with
  | lines hplace hbefore hfail =>
      obtain ⟨first, last, hsplit, rfl⟩ := hplace.exists_numberLines_eq
      obtain ⟨d, hd, rfl⟩ := hbefore.exists_foldlM
      have hline : d.addLine e.line = .error e := Draft.addLine_eq_error_iff.2 ⟨rfl, hfail⟩
      exact bind_eq_error_iff.2
        (.inl (foldlM_eq_error_iff.2 ⟨first, e.line, last, d, hsplit, hd, hline⟩))
  | inputs hplace hpasses hline hbefore hfail hreason =>
      obtain ⟨d, hd, rfl⟩ := hnumbered hpasses
      obtain ⟨first, input, last, hitems, hinput, hfirst, hentry⟩ := exists_items_of_behind
        (fun _ _ _ => Draft.inputs_grow) (fun _ _ => Draft.inputPairs_of_foldlM) hd hplace hline
      obtain ⟨rfl, rfl⟩ := Prod.mk.inj hentry
      have hset := (foldlM_applyInput_eq_ok_iff (d := { d with inputs := first })).2
        (hfirst ▸ hbefore)
      have happly := applyInput_eq_error_iff.2 ⟨hinput.symm, _, hfail, hreason⟩
      exact bind_eq_error_iff.2 (.inr ⟨d, hd, bind_eq_error_iff.2
        (.inl (foldlM_eq_error_iff.2 ⟨first, input, last, _, hitems, hset, happly⟩))⟩)
  | rules hplace hpasses hinputs hline hbefore hfail hreason =>
      obtain ⟨d, hd, rfl⟩ := hnumbered hpasses
      obtain ⟨first, rule, last, hitems, hrule, hfirst, hentry⟩ := exists_items_of_behind
        (fun _ _ _ => Draft.rules_grow) (fun _ _ => Draft.rulePairs_of_foldlM) hd hplace hline
      obtain ⟨rfl, rfl⟩ := Prod.mk.inj hentry
      rw [← content_numberLines (Text.splitLines text), ← Draft.inputPairs_of_foldlM hd] at hinputs
      have hset := foldlM_applyInput_eq_ok_iff.2 hinputs
      have hentered := (foldlM_applyRule_eq_ok_iff (d := { d with rules := first })).2
        (hfirst ▸ hbefore)
      have happly := applyRule_eq_error_iff.2 ⟨hrule.symm, _, hfail, hreason⟩
      exact bind_eq_error_iff.2 (.inr ⟨d, hd, bind_eq_error_iff.2 (.inr ⟨_, hset,
        foldlM_eq_error_iff.2 ⟨first, rule, last, _, hitems, hentered, happly⟩⟩)⟩)

/-- Loading fails with an error exactly if it is the first failure. -/
theorem load_eq_error_iff {text : String} {e : LoadError} :
    load text = .error e ↔ ∃ pass, FirstFailure (Text.splitLines text) e pass :=
  ⟨exists_firstFailure_of_load, fun ⟨_, h⟩ => h.load_eq⟩

/-- What fails in the first pass fails for all lines that begin alike. -/
theorem FirstFailure.of_take_eq {lines others : List String} {e : LoadError}
    (h : FirstFailure lines e .lines)
    (htake : others.take e.line.number = lines.take e.line.number) :
    FirstFailure others e .lines := by
  cases h with
  | lines hplace hbefore hfail =>
      have hcontent := htake.trans hplace.take_eq
      exact .lines ⟨hplace.number, hcontent ▸ List.take_prefix _ _⟩ hbefore hfail

/-- **Loading reports the first failure in the order of the passes**, on the line that it names: the
line's number is one of the text, and the content is that of this line. An error of the first pass
is the same for all texts whose lines are the same up to this one. -/
theorem load_fails_first {text : String} {e : LoadError} (h : load text = .error e) :
    (1 ≤ e.line.number ∧ e.line.number ≤ (Text.splitLines text).length ∧
        (Text.splitLines text)[e.line.number - 1]? = some e.line.content) ∧
      (∀ e', (∃ pass, FirstFailure (Text.splitLines text) e' pass) ↔ e' = e) ∧
      (FirstFailure (Text.splitLines text) e .lines → ∀ other,
        (Text.splitLines other).take e.line.number = (Text.splitLines text).take e.line.number →
          load other = .error e) := by
  obtain ⟨pass, hfirst⟩ := load_eq_error_iff.1 h
  obtain ⟨before, hplace⟩ := hfirst.exists_behind
  refine ⟨hplace.bounds, fun e' => ?_, fun hline other htake => (hline.of_take_eq htake).load_eq⟩
  rw [← load_eq_error_iff, h, Except.error.injEq, eq_comm]

/-- A line that is no directive is reported, and not the rule above it, whatever stands below. -/
theorem load_fails_first_unknown :
    ∃ e, load "rule IF\nfrobnicate A\nvar A 0 1" = .error e ∧
      e.message = "[.fz:2] Unknown directive: frobnicate\n  >> frobnicate A" ∧
      load "rule IF\nfrobnicate A\ninput A" = .error e := by
  let e : LoadError := ⟨⟨2, "frobnicate A"⟩, .unknownDirective "frobnicate"⟩
  have h : load "rule IF\nfrobnicate A\nvar A 0 1" = .error e := rfl
  have hbefore : Passes ["rule IF"] .initial :=
    ⟨List.forall_mem_singleton.2 ⟨_, rfl⟩, rfl⟩
  have hline : Directive.ofLine "frobnicate A" = .error (.unknownDirective "frobnicate") := rfl
  have hfirst : FirstFailure (Text.splitLines "rule IF\nfrobnicate A\nvar A 0 1") e .lines :=
    .lines ⟨rfl, ⟨["var A 0 1"], by decide⟩⟩ hbefore (.unreadable hline)
  exact ⟨e, h, by decide, (load_fails_first h).2.2 hfirst _ (by decide)⟩

end FuzzyLogic.ModelFile
