import FuzzyLogic.CommandLine.Configuration
import FuzzyLogic.Proofs.CommandLine.Defaults
import FuzzyLogic.Proofs.CommandLine.Overrides
import FuzzyLogic.Proofs.Registry
import FuzzyLogic.Proofs.Success

set_option autoImplicit false

/-! # Sections on their own

A configuration with several sections prints what configurations with one of them each print, one
after the other, up to the first that fails. A section that runs on its own runs its command with
its own fields; the model of the configuration stands in for a model that it has no field for, and
the operators of the configuration for theirs. -/

namespace FuzzyLogic.CommandLine

open Data (Value)

/-! ## Runs in a row -/

namespace Transcript

/-- The runs up to the first one that fails, and that one. -/
def throughFailure : List Transcript → List Transcript
  | [] => []
  | t :: ts => if t.failure.isSome then [t] else t :: throughFailure ts

/-- What runs in a row print, and how the first of them that fails does so. -/
def concat (ts : List Transcript) : Transcript where
  lines := (throughFailure ts).flatMap lines
  failure := ts.findSome? failure

theorem concat_cons (t : Transcript) (ts : List Transcript) :
    concat (t :: ts) = t.andThen fun _ => concat ts := by
  obtain ⟨lines, failure⟩ := t
  cases failure with
  | none => simp [concat, andThen, throughFailure]
  | some e => simp [concat, andThen, throughFailure]

/-- A run that prints nothing and succeeds can be left out. -/
theorem of_nil_andThen (next : Unit → Transcript) : (of [] (.ok [])).andThen next = next () := rfl

theorem andThen_of_nil (t : Transcript) : (t.andThen fun _ => of [] (.ok [])) = t := by
  obtain ⟨lines, failure⟩ := t
  cases failure with
  | none => simp [andThen, of]
  | some e => rfl

theorem andThen_assoc (t u : Transcript) (next : Unit → Transcript) :
    (t.andThen fun _ => u).andThen next = t.andThen fun _ => u.andThen next := by
  obtain ⟨lines, failure⟩ := t
  obtain ⟨lines', failure'⟩ := u
  cases failure with
  | none =>
      cases failure' with
      | none => simp [andThen]
      | some e => simp [andThen]
  | some e => rfl

variable {β : Type} (f : β → Transcript)

theorem foldl_andThen (cs : List β) (t : Transcript) :
    cs.foldl (fun t c => t.andThen fun _ => f c) t = t.andThen fun _ => concat (cs.map f) := by
  induction cs generalizing t with
  | nil => exact (andThen_of_nil t).symm
  | cons c cs ih => rw [List.foldl_cons, ih, List.map_cons, concat_cons, andThen_assoc]

theorem concat_map_filter {p : β → Bool} (h : ∀ c, p c = false → f c = of [] (.ok []))
    (cs : List β) : concat ((cs.filter p).map f) = concat (cs.map f) := by
  induction cs with
  | nil => rfl
  | cons c cs ih =>
      cases hc : p c with
      | true => rw [List.filter_cons_of_pos hc, List.map_cons, List.map_cons, concat_cons,
          concat_cons, ih]
      | false => rw [List.filter_cons_of_neg (by simp [hc]), List.map_cons, concat_cons, h c hc,
          of_nil_andThen, ih]

end Transcript

/-! ## One section of several -/

/-- The run of a configuration with these entries, in a file with this path. -/
def runEntries (env : Environment) (path : String) (entries : List (Value × Value)) : Transcript :=
  match checkKeys path entries with
  | .ok () => runSections env path entries
  | .error e => .of [] (.error e)

/-- Whether the configuration has a section for the command. -/
def hasSection (entries : List (Value × Value)) (c : Command) : Bool :=
  (Value.field? entries c.name).isSome

/-- The entries that concern the section of the command: the section itself, and what stands in for
its fields. -/
def only (entries : List (Value × Value)) (c : Command) : List (Value × Value) :=
  entries.filter fun e => ["model", "engine", c.name].any fun key => e.1.sameKey (.text key)

variable {env : Environment} {path key : String} {entries : List (Value × Value)} {c : Command}

theorem sameKey_text_iff {k : Value} : k.sameKey (.text key) = true ↔ k = .text key := by
  cases k <;> simp [Value.sameKey, Value.numericKey?]

theorem field?_only (h : key ∈ ["model", "engine", c.name]) :
    Value.field? (only entries c) key = Value.field? entries key := by
  rw [Value.field?, Value.field?, only, List.find?_filter]
  congr 2
  funext e
  rw [Bool.eq_iff_iff, decide_eq_true_iff, and_iff_right_iff_imp]
  intro hkey
  exact List.any_eq_true.2 ⟨key, h, hkey⟩

/-- The other sections are gone. -/
theorem field?_only_eq_none (h : key ∉ ["model", "engine", c.name]) :
    Value.field? (only entries c) key = none := by
  rw [Value.field?, Option.map_eq_none_iff, List.find?_eq_none]
  intro e he hkey
  obtain ⟨other, hother, hsame⟩ := List.any_eq_true.1 (List.mem_filter.1 he).2
  rw [sameKey_text_iff.1 hkey, sameKey_text_iff, Value.text.injEq] at hsame
  exact h (hsame ▸ hother)

/-- A section looks only at its own entry and at those that stand in. -/
theorem runSection_only :
    runSection env path (only entries c) c = runSection env path entries c := by
  have hname : Value.field? (only entries c) c.name = Value.field? entries c.name :=
    field?_only (by simp)
  have hmodel : Value.field? (only entries c) "model" = Value.field? entries "model" :=
    field?_only (by simp)
  have hengine : Value.field? (only entries c) "engine" = Value.field? entries "engine" :=
    field?_only (by simp)
  simp only [runSection, completeSection, engineEntries, hname, hmodel, hengine]

theorem runSection_of_absent (h : hasSection entries c = false) :
    runSection env path entries c = .of [] (.ok []) := by
  rw [hasSection, Option.isSome_eq_false_iff, Option.isNone_iff_eq_none] at h
  rw [runSection, h]

theorem hasSection_only {d : Command} (h : (d == c) = false) :
    hasSection (only entries c) d = false := by
  rw [hasSection, field?_only_eq_none]
  · rfl
  · cases c <;> cases d <;> revert h <;> decide

theorem runSections_eq_concat :
    runSections env path entries = .concat (sectionOrder.map (runSection env path entries)) := by
  rw [runSections, Transcript.foldl_andThen, Transcript.of_nil_andThen]

theorem runSections_only :
    runSections env path (only entries c) = runSection env path entries c := by
  have hself : sectionOrder.filter (· == c) = [c] := by
    cases c <;> rfl
  rw [runSections_eq_concat, ← Transcript.concat_map_filter (p := (· == c)) _
    (fun d hd => runSection_of_absent (hasSection_only hd)), hself, List.map_singleton,
    Transcript.concat_cons, runSection_only]
  exact Transcript.andThen_of_nil _

theorem checkKeys_eq_ok (h : ∀ e ∈ entries, ∃ name ∈ knownKeys, e.1 = .text name) :
    checkKeys path entries = .ok () := by
  simp only [checkKeys]
  rw [List.filter_eq_nil_iff.2]
  · rfl
  · rw [List.forall_mem_map]
    intro e he
    obtain ⟨name, hname, heq⟩ := h e he
    simp [heq, hname]

/-- A configuration with the section alone does what the section does among others. -/
theorem runEntries_only (h : ∀ e ∈ entries, ∃ name ∈ knownKeys, e.1 = .text name) :
    runEntries env path (only entries c) = runSection env path entries c := by
  have hkeys : checkKeys path (only entries c) = .ok () :=
    checkKeys_eq_ok fun e he => h e (List.mem_filter.1 he).1
  rw [runEntries, hkeys]
  exact runSections_only

/-- The sections in a row. -/
theorem runEntries_eq_concat (h : ∀ e ∈ entries, ∃ name ∈ knownKeys, e.1 = .text name) :
    runEntries env path entries = .concat
      ((sectionOrder.filter (hasSection entries)).map fun c =>
        runEntries env path (only entries c)) := by
  have honly : (fun c => runEntries env path (only entries c)) = runSection env path entries :=
    funext fun c => runEntries_only h
  rw [honly, Transcript.concat_map_filter _ fun c hc => runSection_of_absent hc,
    ← runSections_eq_concat, runEntries, checkKeys_eq_ok h]

/-! ## What a section is run with -/

/-- The fields of a mapping. What is blank has none. -/
def fieldsOf? : Value → Option (List (Value × Value))
  | .mapping fields => some fields
  | v => if v.isBlank then some [] else none

/-- The operators of the configuration, as they are given. -/
def engineOf (entries : List (Value × Value)) : Value :=
  (Value.field? entries "engine").getD .null

/-- What stands in for fields that a section does not have: the model and the operators of the
configuration, or nothing if it has none itself. -/
def standIns (entries : List (Value × Value)) : List (String × Value) :=
  let engine := (fieldsOf? (engineOf entries)).getD []
  [("model", (Value.field? entries "model").getD .null),
    ("tnorm", (Value.field? engine "tnorm").getD .null),
    ("snorm", (Value.field? engine "snorm").getD .null)]

/-- The option of a section with these fields: the field, or what stands in if there is none. -/
def optionOf (entries own : List (Value × Value)) (key : String) : Option Value :=
  (Value.field? own key).or (((standIns entries).lookup key).map Value.takenOut)

/-- Whether the option is missing or blank. -/
def lacks (entries own : List (Value × Value)) (key : String) : Bool :=
  ((optionOf entries own key).getD .null).isBlank

/-- The fields of a section together with those that stand in. -/
def completed (entries own : List (Value × Value)) : List (Value × Value) :=
  (standIns entries).foldl (fun fields e => orElse fields e.1 e.2) own

variable {own fields : List (Value × Value)} {v : Value} {name : String}

theorem field?_append_text :
    Value.field? (fields ++ [(.text name, v)]) key
      = (Value.field? fields key).or (if key = name then some v.takenOut else none) := by
  rw [Value.field?, Value.field?, List.find?_append, Option.map_or, List.find?_singleton]
  by_cases heq : key = name
  · simp [sameKey_text_iff, heq]
  · have hne : Value.sameKey (.text name) (.text key) = false := by
      rw [← Bool.not_eq_true, sameKey_text_iff, Value.text.injEq]
      exact Ne.symm heq
    simp [hne, heq]

theorem field?_orElse :
    Value.field? (orElse fields name v) key
      = (Value.field? fields key).or (if key = name then some v.takenOut else none) := by
  unfold orElse
  split
  · next hused =>
      split
      · next heq => rw [heq, hused, Option.some_or]
      · rw [Option.or_none]
  · exact field?_append_text

theorem field?_completed :
    Value.field? (completed entries own) key = optionOf entries own key :=
  lookUp_foldl_fill Value.field? Value.takenOut (fun _ _ _ => field?_orElse) _ own key

/-! ## When a section is refused -/

/-- The section of the command, with the value `v`, is refused with a failure. -/
inductive Refused (path : String) (entries : List (Value × Value)) (c : Command) (v : Value) :
    Failure → Prop where
  | shape (hown : fieldsOf? v = none) :
    Refused path entries c v (.configuration path (.sectionNotAMapping c.name))
  | model {own : List (Value × Value)} (hown : fieldsOf? v = some own)
      (hmodel : lacks entries own "model" = true) :
    Refused path entries c v (.configuration path (.sectionNeedsModel c.name))
  | required {own : List (Value × Value)} (hown : fieldsOf? v = some own)
      (hmodel : lacks entries own "model" = false)
      (hrequired : (requiredKeys c).filter (lacks entries own) ≠ []) :
    Refused path entries c v
      (.configuration path (.sectionNeeds c.name ((requiredKeys c).filter (lacks entries own))))
  | engine {own : List (Value × Value)} (hown : fieldsOf? v = some own)
      (hmodel : lacks entries own "model" = false)
      (hrequired : (requiredKeys c).filter (lacks entries own) = [])
      (hengine : fieldsOf? (engineOf entries) = none) :
    Refused path entries c v (.option .engineKind)

theorem sectionEntries_eq :
    sectionEntries path c v =
      match fieldsOf? v with
      | some own => .ok own
      | none => .error (.configuration path (.sectionNotAMapping c.name)) := by
  unfold sectionEntries fieldsOf?
  cases v <;> try rfl
  all_goals
    simp only
    split <;> rfl

theorem engineEntries_eq :
    engineEntries entries =
      match fieldsOf? (engineOf entries) with
      | some engine => .ok engine
      | none => .error (.option .engineKind) := by
  unfold engineEntries engineOf
  cases Value.field? entries "engine" with
  | none => rfl
  | some v =>
      rw [Option.getD_some]
      unfold fieldsOf?
      cases v <;> try rfl
      all_goals
        simp only
        split <;> rfl

theorem hasField_eq : hasField fields key = !((Value.field? fields key).getD .null).isBlank := by
  unfold hasField
  cases Value.field? fields key <;> rfl

/-- Of what stands in, only the model is there when the fields are checked. -/
theorem hasField_orElse_model (htnorm : key ≠ "tnorm") (hsnorm : key ≠ "snorm") :
    hasField (orElse own "model" ((Value.field? entries "model").getD .null)) key
      = !lacks entries own key := by
  have hstandIn : (standIns entries).lookup key
      = if key = "model" then some ((Value.field? entries "model").getD .null) else none := by
    rw [standIns, List.lookup_cons]
    by_cases heq : key = "model"
    · simp [heq]
    · have hmodel : (key == "model") = false := by simpa using heq
      simp [heq, hmodel, htnorm, hsnorm]
  rw [hasField_eq, field?_orElse, lacks, optionOf, hstandIn]
  split <;> rfl

theorem filter_hasField :
    (requiredKeys c).filter (fun key =>
        !hasField (orElse own "model" ((Value.field? entries "model").getD .null)) key)
      = (requiredKeys c).filter (lacks entries own) := by
  refine List.filter_congr fun key hkey => ?_
  have hother : key ≠ "tnorm" ∧ key ≠ "snorm" := by
    cases c <;> revert hkey <;> simp [requiredKeys]
    rintro rfl
    decide
  rw [hasField_orElse_model hother.1 hother.2, Bool.not_not]

/-- The checks of a section, one after the other. -/
theorem completeSection_eq (hown : fieldsOf? v = some own) :
    completeSection path entries c v =
      if lacks entries own "model" then .error (.configuration path (.sectionNeedsModel c.name))
      else if (requiredKeys c).filter (lacks entries own) = [] then
        if (fieldsOf? (engineOf entries)).isSome then .ok (completed entries own)
        else .error (.option .engineKind)
      else .error (.configuration path
        (.sectionNeeds c.name ((requiredKeys c).filter (lacks entries own)))) := by
  rw [completeSection, sectionEntries_eq, hown]
  simp only [bind, Except.bind, filter_hasField, engineEntries_eq]
  rw [hasField_orElse_model (by decide) (by decide), Bool.not_not]
  split
  · rfl
  · cases hrequired : (requiredKeys c).filter (lacks entries own) with
    | cons key keys => rfl
    | nil =>
        cases hengine : fieldsOf? (engineOf entries) with
        | none => rfl
        | some engine =>
            -- The operators that stand in are looked up in the engine that was just checked.
            rw [completed, standIns, hengine]
            rfl

theorem completeSection_eq_error {e : Failure} (h : Refused path entries c v e) :
    completeSection path entries c v = .error e := by
  cases h with
  | shape hown =>
      rw [completeSection, sectionEntries_eq, hown]
      rfl
  | model hown hmodel => rw [completeSection_eq hown, if_pos hmodel]
  | required hown hmodel hrequired =>
      rw [completeSection_eq hown, if_neg (by simp [hmodel]), if_neg hrequired]
  | engine hown hmodel hrequired hengine =>
      rw [completeSection_eq hown, if_neg (by simp [hmodel]), if_pos hrequired, hengine]
      rfl

theorem not_refused (h : completeSection path entries c v = .ok fields) (e : Failure) :
    ¬ Refused path entries c v e := by
  intro hrefused
  rw [completeSection_eq_error hrefused] at h
  cases h

theorem completeSection_eq_ok (hown : fieldsOf? v = some own)
    (h : ∀ e, ¬ Refused path entries c v e) :
    completeSection path entries c v = .ok (completed entries own) := by
  rw [completeSection_eq hown]
  split
  · next hmodel => exact absurd (.model hown hmodel) (h _)
  · next hmodel =>
      rw [Bool.not_eq_true] at hmodel
      split
      · next hrequired =>
          split
          · rfl
          · next hengine =>
              rw [Option.not_isSome_iff_eq_none] at hengine
              exact absurd (.engine hown hmodel hrequired hengine) (h _)
      · next hrequired => exact absurd (.required hown hmodel hrequired) (h _)

/-! ## Fields as options -/

/-- The texts that no option can have for its name. -/
def reservedNames : List String :=
  ["self", "__class__", "__weakref__", "__dict__"]

/-- The entries with texts for their keys. -/
def underTexts (pairs : List (String × Value)) : List (Value × Value) :=
  pairs.map fun e => (.text e.1, e.2)

/-- The fields stand under different texts, each of which can be the name of an option. -/
def Ordinary (fields : List (Value × Value)) : Prop :=
  ∃ pairs, fields = underTexts pairs ∧ (pairs.map Prod.fst).Nodup ∧
    ∀ e ∈ pairs, e.1 ∉ reservedNames

theorem field?_underTexts_cons {e : String × Value} {rest : List (String × Value)} :
    Value.field? (underTexts (e :: rest)) key
      = if key = e.1 then some e.2.takenOut else Value.field? (underTexts rest) key := by
  simp only [Value.field?, underTexts, List.map_cons, List.find?_cons]
  split
  · next hsame =>
      rw [sameKey_text_iff, Value.text.injEq] at hsame
      rw [if_pos hsame.symm]
      rfl
  · next hother =>
      rw [← Bool.not_eq_true, sameKey_text_iff, Value.text.injEq] at hother
      rw [if_neg (Ne.symm hother)]

theorem field?_underTexts_eq_none_iff {pairs : List (String × Value)} :
    Value.field? (underTexts pairs) key = none ↔ key ∉ pairs.map Prod.fst := by
  induction pairs with
  | nil => exact iff_of_true rfl List.not_mem_nil
  | cons e rest ih =>
      rw [field?_underTexts_cons, List.map_cons, List.mem_cons, not_or, ← ih]
      by_cases heq : key = e.1
      · simp [heq]
      · simp [heq]

theorem ordinary_orElse (h : Ordinary fields) (hname : name ∉ reservedNames) :
    Ordinary (orElse fields name v) := by
  obtain ⟨pairs, rfl, hnodup, hreserved⟩ := h
  unfold orElse
  split
  · exact ⟨pairs, rfl, hnodup, hreserved⟩
  · next hfree =>
      refine ⟨pairs ++ [(name, v)], by simp [underTexts], ?_, ?_⟩
      · rw [List.map_append, List.nodup_append]
        refine ⟨hnodup, by simp, ?_⟩
        rintro n hn m hm rfl
        obtain rfl : n = name := List.mem_singleton.1 hm
        exact field?_underTexts_eq_none_iff.1 hfree hn
      · rw [List.forall_mem_append]
        exact ⟨hreserved, List.forall_mem_singleton.2 hname⟩

theorem ordinary_completed (h : Ordinary own) : Ordinary (completed entries own) := by
  have hnames : ∀ e ∈ standIns entries, e.1 ∉ reservedNames := by
    simp [standIns, reservedNames]
  unfold completed
  revert hnames
  induction standIns entries generalizing own with
  | nil => exact fun _ => h
  | cons e rest ih =>
      intro hnames
      rw [List.forall_mem_cons] at hnames
      exact ih (ordinary_orElse h hnames.1) hnames.2

theorem optionName_eq_ok (h : name ∉ reservedNames) : optionName (.text name) = .ok name := by
  have hself : (name == "self") = false := by
    simpa using fun heq => h (by simp [heq, reservedNames])
  rw [optionName, hself]
  rfl

theorem setOption_eq_ok {options : Options} (h : name ∉ reservedNames) :
    setOption options name v = .ok (options.insert name v) := by
  simp only [reservedNames, List.mem_cons, List.not_mem_nil, or_false, not_or] at h
  simp [setOption, h]

theorem mapM_optionName {pairs : List (String × Value)} (h : ∀ e ∈ pairs, e.1 ∉ reservedNames) :
    ((underTexts pairs).mapM fun (k, v) => do return (← optionName k, v)) = Except.ok pairs := by
  induction pairs with
  | nil => rfl
  | cons e rest ih =>
      rw [List.forall_mem_cons] at h
      have hrest := ih h.2
      rw [underTexts] at hrest ⊢
      rw [List.map_cons, List.mapM_cons, hrest]
      -- All names are checked before the first option is given.
      simp only [optionName_eq_ok h.1]
      rfl

/-- Options that are given one after the other under different names. -/
theorem foldlM_setOption {pairs : List (String × Value)} (hnodup : (pairs.map Prod.fst).Nodup)
    (h : ∀ e ∈ pairs, e.1 ∉ reservedNames) (options : Options) :
    ∃ options' : Options,
      pairs.foldlM (fun options e => setOption options e.1 e.2.takenOut) options = .ok options' ∧
      ∀ key, options'.get? key = (Value.field? (underTexts pairs) key).or (options.get? key) := by
  induction pairs generalizing options with
  | nil => exact ⟨options, rfl, fun key => rfl⟩
  | cons e rest ih =>
      rw [List.forall_mem_cons] at h
      rw [List.map_cons, List.nodup_cons] at hnodup
      obtain ⟨options', hoptions, hget⟩ := ih hnodup.2 h.2 (options.insert e.1 e.2.takenOut)
      refine ⟨options', ?_, fun key => ?_⟩
      · rw [foldlM_cons_eq_ok_iff]
        exact ⟨_, setOption_eq_ok h.1, hoptions⟩
      · rw [hget, Registry.get?_insert, field?_underTexts_cons]
        by_cases heq : key = e.1
        · rw [if_pos heq, if_pos heq, field?_underTexts_eq_none_iff.2 (heq ▸ hnodup.1)]
          rfl
        · rw [if_neg heq, if_neg heq]

/-- Ordinary fields are options, each with the value of its field. -/
theorem optionsOf_eq_ok (h : Ordinary fields) :
    ∃ options : Options, optionsOf fields = .ok options ∧
      ∀ key, options.get? key = Value.field? fields key := by
  obtain ⟨pairs, rfl, hnodup, hreserved⟩ := h
  obtain ⟨options, hoptions, hget⟩ := foldlM_setOption hnodup hreserved ∅
  refine ⟨options, ?_, fun key => ?_⟩
  · rw [optionsOf, mapM_optionName hreserved]
    exact hoptions
  · rw [hget]
    exact Option.or_none

/-! ## The whole run -/

theorem runSection_eq_of_refused {e : Failure} (hv : Value.field? entries c.name = some v)
    (h : Refused path entries c v e) : runSection env path entries c = .of [] (.error e) := by
  simp only [runSection, hv, completeSection_eq_error h]

theorem runSection_eq_of_not_refused (hv : Value.field? entries c.name = some v)
    (hown : fieldsOf? v = some own) (h : ∀ e, ¬ Refused path entries c v e) :
    runSection env path entries c = .of ["[run] " ++ c.name] (do
      let options ← optionsOf (completed entries own)
      c.run env options) := by
  simp only [runSection, hv, completeSection_eq_ok hown h]

/-- **A run is the runs of its sections one after the other, and a section that is not refused runs
its command with its own fields first, and with what the configuration has for the others.** -/
theorem runEntries_sections (env : Environment) (path : String) (entries : List (Value × Value))
    (hkeys : ∀ e ∈ entries, ∃ name ∈ knownKeys, e.1 = .text name) :
    (∀ file bytes, openFile env file = .ok bytes →
      configurationEntries file.plainForm bytes = .ok entries →
      runConfiguration env file = runEntries env file.plainForm entries) ∧
    runEntries env path entries = .concat
      ((sectionOrder.filter (hasSection entries)).map fun c =>
        runEntries env path (only entries c)) ∧
    (∀ c v, Value.field? entries c.name = some v →
      (∀ e, Refused path entries c v e →
        runEntries env path (only entries c) = .of [] (.error e)) ∧
      ∀ own, fieldsOf? v = some own → (∀ e, ¬ Refused path entries c v e) →
        runEntries env path (only entries c) = .of ["[run] " ++ c.name] (do
          let options ← optionsOf (completed entries own)
          c.run env options)) ∧
    (∀ own, Ordinary own → ∃ options : Options, optionsOf (completed entries own) = .ok options ∧
      ∀ key, options.get? key = optionOf entries own key) ∧
    ∀ (c : Command) (options : Options),
      c.run env (options.withDefaults c) = c.run env options := by
  refine ⟨fun file bytes hopen hentries => ?_, runEntries_eq_concat hkeys,
    fun c v hv => ⟨fun e he => ?_, fun own hown haccepted => ?_⟩, fun own hordinary => ?_,
    fun c options => c.run_withDefaults⟩
  · simp only [runConfiguration, loadConfiguration, hopen, hentries, runEntries,
      checkKeys_eq_ok hkeys, bind, Except.bind, pure, Except.pure]
  · rw [runEntries_only hkeys, runSection_eq_of_refused hv he]
  · rw [runEntries_only hkeys, runSection_eq_of_not_refused hv hown haccepted]
  · obtain ⟨options, hoptions, hget⟩ := optionsOf_eq_ok (ordinary_completed hordinary)
    exact ⟨options, hoptions, fun key => (hget key).trans field?_completed⟩

/-- The model of a lamp. -/
def lampText : String :=
  "\n".intercalate ["var A 0 9", "mf A b rshoulder 6 8", "rule c: IF A is b THEN A is b"]

/-- A configuration with two sections, one of which has an operator of its own. -/
def lampEntries : List (Value × Value) :=
  [(.text "show", .mapping [(.text "snorm", .text "prob")]), (.text "model", .text "lamp.fz"),
    (.text "engine", .mapping [(.text "tnorm", .text "prod"), (.text "snorm", .text "bsum")]),
    (.text "validate", .null)]

/-- The same configuration as a file holds it. -/
def lampConfiguration : String :=
  "\x7b\"show\": \x7b\"snorm\": \"prob\"\x7d, \"model\": \"lamp.fz\", "
    ++ "\"engine\": \x7b\"tnorm\": \"prod\", \"snorm\": \"bsum\"\x7d, \"validate\": null\x7d"

/-- The files of the lamp. -/
def lampFiles : Environment where
  contents path := .ok (if path = "lamp.fz" then lampText else lampConfiguration).toUTF8
  terminal := false

theorem loadFile_lampFiles {options : Options}
    (h : options.get? "model" = some (.text "lamp.fz")) :
    loadFile lampFiles options = (ModelFile.load lampText).mapError .load := by
  have hopen : openFile lampFiles (.text "lamp.fz") = .ok lampText.toUTF8 :=
    Overrides.openFile_text (by decide) (by decide) rfl
  exact Overrides.loadFile_eq h hopen

theorem configurationEntries_lampConfiguration :
    configurationEntries "lamp.json" lampConfiguration.toUTF8 = .ok lampEntries := by
  have hpath : isYamlPath "lamp.json" = false := by decide +kernel
  have htext : String.ofList (Text.unifyLineEnds lampConfiguration.toList) = lampConfiguration := by
    decide +kernel
  have hread : Data.Json.read lampConfiguration = .ok (.mapping lampEntries) := by
    -- The characters are spelled out first: the text itself is kept as bytes.
    have hchars : lampConfiguration.toList = _ := String.toList_append
    simp only [String.reduceToList, List.cons_append, List.nil_append] at hchars
    rw [Data.Json.read, hchars]
    rfl
  have hvalue : readValue "lamp.json" lampConfiguration.toUTF8 = .ok (.mapping lampEntries) := by
    rw [readValue, Overrides.decodeText?_toUTF8, htext, hpath]
    simp only [Data.orMalformed, bind, Except.bind, Bool.false_eq_true, if_false, hread]
  rw [configurationEntries, hvalue]

/-- The sections run in the order of the commands, not in that of the keys. The listing has the
s-norm of its section and the t-norm of the configuration; what is counted has those of the
model. -/
theorem runEntries_sections_validate_show :
    let validated := ["[run] validate", "OK: variables=1, labels=1, rules=1",
      "tnorm=min, snorm=max"]
    let shown := ["[run] show", "Variables:", "  A [0.0,9.0] -> labels: b",
      "Rules (tnorm=prod, snorm=prob):", "  c: IF A is b THEN A is b", "      postfix: A is b"]
    runEntries lampFiles "lamp.json" (only lampEntries .validate)
        = { lines := validated, failure := none } ∧
      runEntries lampFiles "lamp.json" (only lampEntries .show)
        = { lines := shown, failure := none } ∧
      runConfiguration lampFiles (.text "lamp.json")
        = { lines := validated ++ shown, failure := none } := by
  intro validated shown
  have hkeys : ∀ e ∈ lampEntries, ∃ name ∈ knownKeys, e.1 = .text name := by
    simp [lampEntries, knownKeys, sectionOrder, Command.name]
  obtain ⟨hfile, hconcat, hsection, -, -⟩ :=
    runEntries_sections lampFiles "lamp.json" lampEntries hkeys
  have hvalidate : runEntries lampFiles "lamp.json" (only lampEntries .validate)
      = { lines := validated, failure := none } := by
    let options : Options :=
      .ofList [("model", .text "lamp.fz"), ("tnorm", .text "prod"), ("snorm", .text "bsum")]
    have hoptions : optionsOf (completed lampEntries []) = .ok options := rfl
    have hlines : Command.validate.run lampFiles options = .ok validated.tail := by
      rw [← toOption_eq_some_iff, Command.run, validate, loadFile_lampFiles rfl]
      decide +kernel
    rw [(hsection .validate .null rfl).2 [] rfl (not_refused rfl), hoptions]
    exact congrArg _ hlines
  have hshow : runEntries lampFiles "lamp.json" (only lampEntries .show)
      = { lines := shown, failure := none } := by
    let options : Options :=
      .ofList [("snorm", .text "prob"), ("model", .text "lamp.fz"), ("tnorm", .text "prod")]
    have hoptions : optionsOf (completed lampEntries [(.text "snorm", .text "prob")])
        = .ok options := rfl
    have hlines : Command.show.run lampFiles options = .ok shown.tail := by
      rw [← toOption_eq_some_iff, Command.run, showModel, loadModel, loadFile_lampFiles rfl]
      decide +kernel
    rw [(hsection .show _ rfl).2 _ rfl (not_refused rfl), hoptions]
    exact congrArg _ hlines
  have hopen : openFile lampFiles (.text "lamp.json") = .ok lampConfiguration.toUTF8 :=
    Overrides.openFile_text (by decide) (by decide) rfl
  have hsections : sectionOrder.filter (hasSection lampEntries) = [.validate, .show] := rfl
  refine ⟨hvalidate, hshow, ?_⟩
  rw [hfile _ _ hopen configurationEntries_lampConfiguration]
  refine hconcat.trans ?_
  rw [hsections, List.map_cons, List.map_singleton, hvalidate, hshow]
  rfl

/-- A section with a blank rule does not print its name, nor what its command would. -/
theorem runEntries_program_blank_rule :
    let env : Environment := { contents := fun _ => .error .notFound, terminal := false }
    let entries : List (Value × Value) :=
      [(.text "model", .text "m"), (.text "postfix", .mapping [(.text "rule", .text "")])]
    runEntries env "c" (only entries .program)
        = .of [] (.error (.configuration "c" (.sectionNeeds "postfix" ["rule"]))) ∧
      ∀ options, runEntries env "c" (only entries .program)
        ≠ .of ["[run] postfix"] (Command.program.run env options) := by
  intro env entries
  have hrefused : runEntries env "c" (only entries .program)
      = .of [] (.error (.configuration "c" (.sectionNeeds "postfix" ["rule"]))) := by
    rfl
  refine ⟨hrefused, fun options => ?_⟩
  rw [hrefused]
  cases Command.program.run env options with
  | ok lines => simp [Transcript.of]
  | error e => simp [Transcript.of]

end FuzzyLogic.CommandLine
