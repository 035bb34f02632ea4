import FuzzyLogic.CommandLine.Arguments

set_option autoImplicit false

/-! # Options that are left out

The command line gives a value to every option that is not written, its default. A section of a
configuration gives no defaults. It makes no difference: a command reads an option that is missing
as it reads the default. -/

namespace FuzzyLogic.CommandLine

/-! ## Filling gaps -/

/-- Entries that are put in one by one where there is none fill the gaps, the first of a name the
gap of that name. -/
theorem lookUp_foldl_fill {σ β γ : Type} (lookUp : σ → String → Option γ) (f : β → γ)
    {step : σ → String × β → σ}
    (h : ∀ s e key, lookUp (step s e) key
      = (lookUp s key).or (if key = e.1 then some (f e.2) else none))
    (entries : List (String × β)) (s : σ) (key : String) :
    lookUp (entries.foldl step s) key = (lookUp s key).or ((entries.lookup key).map f) := by
  induction entries generalizing s with
  | nil => simp
  | cons e rest ih =>
      rw [List.foldl_cons, ih, h, List.lookup_cons, Option.or_assoc]
      by_cases heq : key = e.1
      · simp [heq]
      · have hne : (key == e.1) = false := by simpa using heq
        simp [heq, hne]

/-! ## Defaults -/

/-- The value of an option that is not written on the command line. -/
def OptionKind.unwritten : OptionKind → Data.Value
  | .flag => .bool false
  | .number => .number 0.0
  | _ => .null

/-- What a command takes on the command line. -/
def Command.form : Command → CommandForm
  | .validate => validateForm
  | .show => showForm
  | .fire => fireForm
  | .program => programForm

/-- The defaults of the options that a command can do without. The options that ask for help are
none of its own. -/
def Command.defaults (c : Command) : List (String × Data.Value) :=
  (c.form.options.filter fun o => !o.required && o.name != "help").map fun o =>
    (o.name, o.kind.unwritten)

namespace Options

/-- The options together with the defaults of the command for those that are missing. -/
def withDefaults (options : Options) (c : Command) : Options :=
  c.defaults.foldl
    (fun options e => if options.contains e.1 then options else options.insert e.1 e.2) options

variable {options : Options} {c : Command} {key : String}

/-- One default. -/
theorem get?_withDefault (options : Options) (e : String × Data.Value) (key : String) :
    (if options.contains e.1 then options else options.insert e.1 e.2).get? key
      = (options.get? key).or (if key = e.1 then some e.2 else none) := by
  split
  · next hused =>
      rw [Registry.contains] at hused
      split
      · next heq => rw [heq, Option.or_of_isSome hused]
      · rw [Option.or_none]
  · next hfree =>
      rw [Registry.contains, Bool.not_eq_true, Option.isSome_eq_false_iff,
        Option.isNone_iff_eq_none] at hfree
      rw [Registry.get?_insert]
      split
      · next heq => rw [heq, hfree, Option.none_or]
      · rw [Option.or_none]

theorem get?_withDefaults :
    (options.withDefaults c).get? key = (options.get? key).or (c.defaults.lookup key) := by
  have hfill := lookUp_foldl_fill Registry.get? id get?_withDefault c.defaults options key
  rwa [Option.map_id] at hfill

theorem get?_withDefaults_of_lookup (h : c.defaults.lookup key = none) :
    (options.withDefaults c).get? key = options.get? key := by
  rw [get?_withDefaults, h, Option.or_none]

/-- A default that says nothing is read like a missing option. -/
theorem value_withDefaults (h : (c.defaults.lookup key).getD .null = .null) :
    (options.withDefaults c).value key = options.value key := by
  rw [value, value, get?_withDefaults]
  cases options.get? key with
  | none => rw [Option.none_or, h, Option.getD_none]
  | some v => rfl

/-- A blank default is as good as none where it matters only whether an option is set. -/
theorem isSet_withDefaults (h : ((c.defaults.lookup key).getD .null).isBlank = true) :
    (options.withDefaults c).isSet key = options.isSet key := by
  rw [isSet, isSet, value, value, get?_withDefaults]
  cases options.get? key with
  | none =>
      rw [Option.none_or, h, Option.getD_none]
      rfl
  | some v => rfl

end Options

/-! ## What a command reads of its options -/

variable {env : Environment} {options options' : Options}

theorem loadFile_congr (h : options'.get? "model" = options.get? "model") :
    loadFile env options' = loadFile env options := by
  rw [loadFile, loadFile, h]

/-- Options that lead to the same model at the same inputs. -/
theorem loadModel_congr {key key' : String}
    (hmodel : options'.get? "model" = options.get? "model")
    (htnorm : options'.value "tnorm" = options.value "tnorm")
    (hsnorm : options'.value "snorm" = options.value "snorm")
    (hinputs : options'.value key' = options.value key)
    (hclamp : options'.isSet "clamp" = options.isSet "clamp") :
    loadModel env options' key' = loadModel env options key := by
  simp only [loadModel, applyEngine, applyInputs, loadFile_congr hmodel, htnorm, hsnorm, hinputs,
    hclamp]

open Options

theorem validate_withDefaults :
    validate env (options.withDefaults .validate) = validate env options := by
  rw [validate, validate, loadFile_congr (get?_withDefaults_of_lookup rfl)]

theorem showProgram_withDefaults :
    showProgram env (options.withDefaults .program) = showProgram env options := by
  rw [showProgram, showProgram, loadFile_congr (get?_withDefaults_of_lookup rfl),
    get?_withDefaults_of_lookup rfl]

theorem showModel_withDefaults :
    showModel env (options.withDefaults .show) = showModel env options := by
  have hmodel : loadModel env (options.withDefaults .show) "at" = loadModel env options "at" :=
    loadModel_congr (get?_withDefaults_of_lookup rfl) (value_withDefaults rfl)
      (value_withDefaults rfl) (value_withDefaults rfl) (isSet_withDefaults rfl)
  have hleast : (options.withDefaults .show).get? "min_alpha"
      = (options.get? "min_alpha").or (some (.number 0.0)) := get?_withDefaults
  rw [showModel, showModel, hmodel, hleast, isSet_withDefaults rfl, isSet_withDefaults rfl]
  cases options.get? "min_alpha" with
  | none => rfl
  | some v => rfl

theorem fire_withDefaults : fire env (options.withDefaults .fire) = fire env options := by
  have hmodel : loadModel env (options.withDefaults .fire) "kv" = loadModel env options "kv" :=
    loadModel_congr (get?_withDefaults_of_lookup rfl) (value_withDefaults rfl)
      (value_withDefaults rfl) (value_withDefaults rfl) (isSet_withDefaults rfl)
  have hrule : (options.withDefaults .fire).value "rule" = options.value "rule" :=
    value_withDefaults rfl
  have hjson : (options.withDefaults .fire).isSet "json" = options.isSet "json" :=
    isSet_withDefaults rfl
  have hthreshold : (options.withDefaults .fire).get? "threshold"
      = (options.get? "threshold").or (some (.number 0.0)) := get?_withDefaults
  rw [fire, fire, hmodel, hrule, hjson]
  cases h : options.get? "threshold" with
  | none =>
      have hvalue : (options.withDefaults .fire).value "threshold" = .number 0.0 := by
        rw [value, hthreshold, h]
        rfl
      have hunset : options.isSet "threshold" = false := by
        rw [isSet, value, h]
        rfl
      rw [hvalue, hunset]
      -- The default is the number that is taken when there is none, blank or not.
      cases (options.withDefaults .fire).isSet "threshold" <;> rfl
  | some v =>
      have hvalue : (options.withDefaults .fire).value "threshold" = options.value "threshold" := by
        rw [value, value, hthreshold, h]
        rfl
      have hset : (options.withDefaults .fire).isSet "threshold" = options.isSet "threshold" := by
        rw [isSet, isSet, hvalue]
      rw [hvalue, hset]

/-- **A command does the same with the defaults of the command line and without them.** -/
theorem Command.run_withDefaults (c : Command) :
    c.run env (options.withDefaults c) = c.run env options := by
  cases c with
  | validate => exact validate_withDefaults
  | «show» => exact showModel_withDefaults
  | fire => exact fire_withDefaults
  | program => exact showProgram_withDefaults

end FuzzyLogic.CommandLine
