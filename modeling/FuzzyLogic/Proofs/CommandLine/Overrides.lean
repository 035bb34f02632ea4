import FuzzyLogic.CommandLine.Loading
import FuzzyLogic.Proofs.Assignment
import FuzzyLogic.Proofs.ModelFile.Extension
import FuzzyLogic.Proofs.ModelFile.Words
import FuzzyLogic.Proofs.Text.Lines

set_option autoImplicit false

/-! # Options in the place of lines

A command that chooses operators and sets inputs for its model could find the same choices and
inputs on lines at the end of the model. It is shown that it is the same model then, and that it is
refused in the same cases. -/

namespace FuzzyLogic.CommandLine

open Text ModelFile

/-! ## What is overridden -/

/-- The operators and the inputs that a command wants for its model, as they are written. -/
structure Overrides where
  tnorm : Option String
  snorm : Option String
  inputs : List (String × String)

namespace Overrides

variable {o : Overrides}

/-- The lines of a model that say the same. -/
def lines (o : Overrides) : List String :=
  o.tnorm.toList.map ("tnorm " ++ ·) ++ o.snorm.toList.map ("snorm " ++ ·) ++
    o.inputs.map fun (key, value) => "input " ++ key ++ " " ++ value

/-- Everything is written in plain words, and no input is set twice. -/
structure Plain (o : Overrides) : Prop where
  tnorm : ∀ name ∈ o.tnorm, PlainWord name
  snorm : ∀ name ∈ o.snorm, PlainWord name
  inputs : Assignment.PlainWords o.inputs
  keys : (o.inputs.map Prod.fst).Nodup

/-- The options ask for this and nothing else, with the inputs under the key. -/
structure AskedBy (o : Overrides) (options : Options) (key : String) : Prop where
  tnorm : options.value "tnorm" = (o.tnorm.map .text).getD .null
  snorm : options.value "snorm" = (o.snorm.map .text).getD .null
  inputs : options.value key = Assignment.given o.inputs ∨
    o.inputs = [] ∧ options.value key = .null
  clamp : options.isSet "clamp" = false

/-! ## The lines -/

/-- The arguments on the lines, with their kinds. -/
def arguments (o : Overrides) : List (Kind × List String) :=
  o.tnorm.toList.map (fun name => (.norm, [name])) ++
    o.snorm.toList.map (fun name => (.conorm, [name])) ++
    o.inputs.map fun (key, value) => (.input, [key, value])

theorem lines_eq (o : Overrides) : o.lines = o.arguments.map fun a => a.1.line a.2 := by
  simp [lines, arguments, Kind.line, Kind.keyword, Function.comp_def, String.append_assoc]

theorem read_input {key value : String} {x : Float} (hx : Decimal.read? value = some x) :
    Kind.input.read [key, value] = .ok (.setInput key x) := by
  rw [Kind.read]
  exact ofInput_eq_ok_iff.2 ⟨key, value, x, rfl, hx, rfl⟩

namespace Plain

theorem plainWord (h : o.Plain) {a : Kind × List String} (ha : a ∈ o.arguments) :
    ∀ word ∈ a.2, PlainWord word := by
  simp only [arguments, List.mem_append, List.mem_map, Option.mem_toList] at ha
  obtain (⟨name, hname, rfl⟩ | ⟨name, hname, rfl⟩) | ⟨⟨key, value⟩, hinput, rfl⟩ := ha
  · simpa using h.tnorm name hname
  · simpa using h.snorm name hname
  · simpa using h.inputs _ hinput

theorem splitLines_withLines (h : o.Plain) (text : String) :
    splitLines (withLines text o.lines) = splitLines text ++ o.lines := by
  refine Text.splitLines_withLines text ?_
  rw [lines_eq, List.forall_mem_map]
  intro a ha
  exact ⟨Kind.line_ne_empty (h.plainWord ha),
    fun c hc => Kind.isLineBoundary_eq_false_of_mem_line (h.plainWord ha) hc⟩

/-- The lines can be read if the values of all inputs are numbers. -/
theorem readable_lines_iff (h : o.Plain) :
    (∀ line ∈ o.lines, Readable line) ↔
      ∃ pairs, List.Forall₂ Assignment.Reads o.inputs pairs := by
  rw [Assignment.exists_reads_iff, lines_eq, List.forall_mem_map]
  constructor
  · rintro hread ⟨key, value⟩ hinput
    have hmem : (Kind.input, [key, value]) ∈ o.arguments :=
      List.mem_append_right _ (List.mem_map.2 ⟨_, hinput, rfl⟩)
    obtain ⟨directive, hdirective : Directive.ofInput [key, value] = .ok directive⟩ :=
      (Kind.readable_line_iff (h.plainWord hmem)).1 (hread _ hmem)
    obtain ⟨_, _, x, hwords, hx, -⟩ := ofInput_eq_ok_iff.1 hdirective
    cases hwords
    exact ⟨x, hx⟩
  · intro hvalues a ha
    refine (Kind.readable_line_iff (h.plainWord ha)).2 ?_
    simp only [arguments, List.mem_append, List.mem_map, Option.mem_toList] at ha
    obtain (⟨name, -, rfl⟩ | ⟨name, -, rfl⟩) | ⟨⟨key, value⟩, hinput, rfl⟩ := ha
    · exact ⟨.chooseNorm name, rfl⟩
    · exact ⟨.chooseConorm name, rfl⟩
    · obtain ⟨x, hx⟩ := hvalues _ hinput
      exact ⟨.setInput key x, read_input hx⟩

end Plain

/-! ## The directives on the lines -/

/-- What the arguments spell. -/
def directiveOf (a : Kind × List String) : Option Directive :=
  (a.1.read a.2).toOption

theorem filterMap_directiveOf_words {k : Kind} {f : String → Directive}
    (h : ∀ name, k.read [name] = .ok (f name)) (names : List String) :
    (names.map fun name => (k, [name])).filterMap directiveOf = names.map f := by
  simp [List.filterMap_map, Function.comp_def, directiveOf, h, Except.toOption]

theorem filterMap_directiveOf_inputs {inputs : List (String × String)}
    {pairs : List (String × Float)} (h : List.Forall₂ Assignment.Reads inputs pairs) :
    (inputs.map fun (key, value) => (Kind.input, [key, value])).filterMap directiveOf
      = pairs.map fun (name, x) => .setInput name x := by
  induction h with
  | nil => rfl
  | @cons a pair _ _ hpair _ ih =>
      obtain ⟨key, value⟩ := a
      obtain ⟨name, x⟩ := pair
      obtain ⟨rfl, hx⟩ : key = name ∧ Decimal.read? value = some x := hpair
      have hread : directiveOf (.input, [key, value]) = some (.setInput key x) :=
        toOption_eq_some_iff.2 (read_input hx)
      simp only [List.map_cons, List.filterMap_cons, hread, ih]

theorem Plain.filterMap_directiveOn_lines (h : o.Plain) {pairs : List (String × Float)}
    (hpairs : List.Forall₂ Assignment.Reads o.inputs pairs) :
    o.lines.filterMap directiveOn = ModelFile.overrides o.tnorm o.snorm pairs := by
  calc o.lines.filterMap directiveOn
      = o.arguments.filterMap directiveOf := by
        rw [lines_eq, List.filterMap_map]
        exact List.filterMap_congr fun a ha => Kind.directiveOn_line (h.plainWord ha)
    _ = ModelFile.overrides o.tnorm o.snorm pairs := by
        rw [arguments, List.filterMap_append, List.filterMap_append,
          filterMap_directiveOf_words (k := .norm) (f := .chooseNorm) fun _ => rfl,
          filterMap_directiveOf_words (k := .conorm) (f := .chooseConorm) fun _ => rfl,
          filterMap_directiveOf_inputs hpairs, ModelFile.overrides]

/-! ## The options -/

/-- The file at a path, each character of which can stand in one. -/
theorem openFile_text {env : Environment} {path : String} {bytes : ByteArray}
    (hpath : path.toList.all isPathChar = true) (hnull : '\x00' ∉ path.toList)
    (hcontents : env.contents path = .ok bytes) : openFile env (.text path) = .ok bytes := by
  have hcontains : path.contains '\x00' = false := by simpa using hnull
  simp only [openFile, openPath, hpath, hcontains, hcontents, Bool.not_true, Bool.false_eq_true,
    if_false]

theorem decodeText?_toUTF8 (text : String) :
    decodeText? text.toUTF8 = some (String.ofList (unifyLineEnds text.toList)) := by
  have hdecoded : String.fromUTF8? text.toUTF8 = some text := by
    rw [String.toUTF8_eq_toByteArray, String.fromUTF8?, dif_pos text.isValidUTF8]
    rfl
  rw [decodeText?, hdecoded]
  rfl

/-- It does not matter which line ends a file has. -/
theorem loadFile_eq {env : Environment} {options : Options} {file : Data.Value} {text : String}
    (hmodel : options.get? "model" = some file) (hfile : openFile env file = .ok text.toUTF8) :
    loadFile env options = (ModelFile.load text).mapError .load := by
  have hload : ModelFile.load (String.ofList (unifyLineEnds text.toList)) = ModelFile.load text := by
    rw [ModelFile.load, splitLines_unifyLineEnds, ModelFile.load]
  simp only [loadFile, hmodel, hfile, decodeText?_toUTF8, hload, bind, Except.bind, pure,
    Except.pure]
  cases ModelFile.load text <;> rfl

theorem loadFile_eq_ok_iff {env : Environment} {options : Options} {file : Data.Value}
    {text : String} {m : Model Float} (hmodel : options.get? "model" = some file)
    (hfile : openFile env file = .ok text.toUTF8) :
    loadFile env options = .ok m ↔ ModelFile.load text = .ok m := by
  rw [loadFile_eq hmodel hfile]
  cases ModelFile.load text <;> simp [Except.mapError]

theorem onModel_eq_ok_iff {β : Type} {x : Except (ModelError Float) β} {b : β} :
    onModel x = .ok b ↔ x = .ok b := by
  cases x <;> simp [onModel]

theorem onValue_eq_ok_iff {β : Type} {x : Except Assignment.ValueError β} {b : β} :
    onValue x = .ok b ↔ x = .ok b := by
  cases x with
  | ok b => simp [onValue]
  | error e => cases e <;> simp [onValue]

theorem operatorName_eq (name : Option String) :
    operatorName ((name.map .text).getD .null) = .ok name := by
  cases name <;> rfl

theorem AskedBy.applyEngine_eq_ok_iff {options : Options} {key : String}
    (h : o.AskedBy options key) {m t : Model Float} :
    applyEngine m options = .ok t ↔
      ∃ u, m.setEngine o.tnorm none = .ok u ∧ u.setEngine none o.snorm = .ok t := by
  simp only [applyEngine, h.tnorm, h.snorm, operatorName_eq, bind_eq_ok_iff, onModel_eq_ok_iff,
    Except.ok.injEq, exists_eq_left']

theorem setInputs_eq_ok_iff {m t : Model Float} {inputs : List (String × Float)} :
    m.setInputs false inputs = (t, .ok ()) ↔ enterInputs m inputs = .ok t := by
  induction inputs generalizing m with
  | nil => simp [Model.setInputs, enterInputs]
  | cons input rest ih =>
      obtain ⟨name, x⟩ := input
      rw [Model.setInputs]
      unfold enterInputs at ih ⊢
      rw [foldlM_cons_eq_ok_iff]
      cases m.assign false name x with
      | error e => simp
      | ok u => simp [ih]

theorem Plain.applyInputs_eq_ok_iff (hplain : o.Plain) {options : Options} {key : String}
    (h : o.AskedBy options key) {m t : Model Float} :
    applyInputs m options key = .ok t ↔
      ∃ pairs, List.Forall₂ Assignment.Reads o.inputs pairs ∧ enterInputs m pairs = .ok t := by
  have hvalue : Assignment.ofValue (options.value key)
      = Assignment.ofValue (Assignment.given o.inputs) := by
    obtain hgiven | ⟨hnil, hnull⟩ := h.inputs
    · rw [hgiven]
    · rw [hnil, hnull]
      rfl
  have hentries {pairs : List (String × Float)}
      (hpairs : List.Forall₂ Assignment.Reads o.inputs pairs) :
      (Registry.ofList pairs).entries = pairs :=
    Registry.entries_ofList (Assignment.keys_eq_of_reads hpairs ▸ hplain.keys)
  simp only [applyInputs, bind_eq_ok_iff, onValue_eq_ok_iff, hvalue,
    Assignment.ofValue_given_eq_ok_iff hplain.inputs, h.clamp]
  constructor
  · rintro ⟨_, ⟨pairs, hpairs, rfl⟩, ht⟩
    rw [hentries hpairs] at ht
    split at ht
    · next changed hset =>
        obtain rfl := Except.ok.inj ht
        exact ⟨pairs, hpairs, setInputs_eq_ok_iff.1 hset⟩
    · exact absurd ht (by simp)
  · rintro ⟨pairs, hpairs, ht⟩
    refine ⟨_, ⟨pairs, hpairs, rfl⟩, ?_⟩
    rw [hentries hpairs, setInputs_eq_ok_iff.2 ht]

/-! ## The model -/

/-- **Options that choose operators and set inputs do what lines at the end of the model do.** -/
theorem loadModel_eq_ok_iff {env : Environment} {options : Options} {key : String}
    {file : Data.Value} {text : String} (hmodel : options.get? "model" = some file)
    (hfile : openFile env file = .ok text.toUTF8) (hplain : o.Plain) (h : o.AskedBy options key)
    (m : Model Float) :
    loadModel env options key = .ok m ↔ ModelFile.load (withLines text o.lines) = .ok m := by
  simp only [loadModel, bind_eq_ok_iff, loadFile_eq_ok_iff hmodel hfile, h.applyEngine_eq_ok_iff,
    hplain.applyInputs_eq_ok_iff h]
  rw [ModelFile.load_eq_ok_iff, hplain.splitLines_withLines, List.forall_mem_append,
    hplain.readable_lines_iff, List.filterMap_append]
  constructor
  · rintro ⟨t, ht, v, hv, pairs, hpairs, hm⟩
    obtain ⟨hread, hdescribe⟩ := ModelFile.load_eq_ok_iff.1 ht
    refine ⟨⟨hread, pairs, hpairs⟩, ?_⟩
    rw [hplain.filterMap_directiveOn_lines hpairs]
    exact describe_append_overrides_iff.2 ⟨t, v, hdescribe, hv, hm⟩
  · rintro ⟨⟨hread, pairs, hpairs⟩, hdescribe⟩
    rw [hplain.filterMap_directiveOn_lines hpairs] at hdescribe
    obtain ⟨t, v, ht, hv, hm⟩ := describe_append_overrides_iff.1 hdescribe
    exact ⟨t, ModelFile.load_eq_ok_iff.2 ⟨hread, ht⟩, v, hv, pairs, hpairs, hm⟩

/-- A model with a choice and an input of its own. -/
def presetText : String :=
  "\n".intercalate ["var A 0 9", "mf A b rshoulder 6 8", "tnorm min", "input A 7",
    "rule c: IF A is b THEN A is b"]

theorem loadModel_eq_ok_iff_preset :
    let o : Overrides := { tnorm := some "PROD", snorm := none, inputs := [("A", "3")] }
    let env : Environment :=
      { contents := fun _ => .ok presetText.toUTF8, terminal := false }
    let options : Options := .ofList [("model", .text "m"), ("tnorm", .text "PROD"),
      ("at", Assignment.given o.inputs)]
    ∃ m, loadModel env options "at" = .ok m ∧
      ModelFile.load (withLines presetText o.lines) = .ok m ∧
      m.tnorm = "prod" ∧ m.databaseEntries.map (·.2.input == 3) = [true] := by
  intro o env options
  have hplain : o.Plain :=
    { tnorm := by
        have hname : PlainWord "PROD" := by decide
        simpa [o] using hname
      snorm := by simp [o]
      inputs := by
        have hinput : PlainWord "A" ∧ PlainWord "3" := by decide
        simpa [o, Assignment.PlainWords] using hinput
      keys := by simp [o] }
  have hasked : o.AskedBy options "at" :=
    { tnorm := rfl
      snorm := rfl
      inputs := .inl rfl
      clamp := rfl }
  have hfile : openFile env (.text "m") = .ok presetText.toUTF8 :=
    openFile_text (by decide) (by decide) rfl
  have hloaded : (ModelFile.load (withLines presetText o.lines)).toOption.map
      (fun m => (m.tnorm, m.databaseEntries.map (·.2.input == 3)))
        = some ("prod", [true]) := by decide +kernel
  obtain ⟨m, hm, hfields⟩ := Option.map_eq_some_iff.1 hloaded
  simp only [Prod.mk.injEq] at hfields
  rw [toOption_eq_some_iff] at hm
  exact ⟨m, (loadModel_eq_ok_iff rfl hfile hplain hasked m).2 hm, hm, hfields⟩

end Overrides

end FuzzyLogic.CommandLine
