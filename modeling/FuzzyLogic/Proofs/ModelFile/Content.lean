import FuzzyLogic.Proofs.Model.Listing
import FuzzyLogic.Proofs.ModelFile.Line

set_option autoImplicit false

/-! # What a loaded model contains

A text says line by line what its model contains: a variable for every line that makes one, a rule
for every line that adds one, each in the order of the lines. The inputs and the operators are those
of the last lines about them, wherever these stand. `Content` puts this down without the passes of
loading, and `content_of_load` says that the model of a text has this content. -/

namespace FuzzyLogic.ModelFile

/-! ## The content -/

/-- The name and the range of the variable that the arguments make. -/
def rangeOn : List String → Option (String × Float × Float)
  | [name, lower, upper] => do
    let lower ← Decimal.read? lower
    let upper ← Decimal.read? upper
    return (name, lower, upper)
  | _ => none

/-- The variable and the value of the input that the arguments set. -/
def inputOn : List String → Option (String × Float)
  | [name, x] => (Decimal.read? x).map (name, ·)
  | _ => none

/-- The value in the last pair with the name. -/
def lastValue (inputs : List (String × Float)) (name : String) : Option Float :=
  ((inputs.filter (·.1 = name)).getLast?).map Prod.snd

/-- The value on the last line that sets the input of the variable with the name. -/
def lastInput (text name : String) : Option Float :=
  lastValue ((argumentsOf "input" text).filterMap inputOn) name

/-- The operator that the last arguments choose, or the default if there are none. -/
def lastChoice {κ : Type} (ofName? : String → Option κ) (default : κ)
    (arguments : List (List String)) : Option κ :=
  match arguments.getLast? with
  | none => some default
  | some words => words.head?.bind ofName?

/-- The name of the rule on the `i`-th of the lines that add rules. A rule without a name is
numbered, counted among the rules without a name up to its own line. -/
def ruleName (lines : List (List String)) (i : Nat) (words : List String) : String :=
  if Unnamed words then automaticName ((lines.take (i + 1)).countP Unnamed)
  else Text.trimRightOf ':' (words.headD "")

/-- The text of the rule on a line that adds one. -/
def ruleText (words : List String) : String :=
  " ".intercalate (if Unnamed words then words else words.tail)

/-- The model contains what the lines of the text say. -/
structure Content (text : String) (m : Model Float) : Prop where
  /-- There is one variable for each line that makes one, in the order of the lines. -/
  ranges : (argumentsOf "var" text).map rangeOn
    = m.databaseEntries.map fun (name, v) => some (name, v.lower, v.upper)
  /-- The last input of a variable counts. Without one the input is the lower end of the range. -/
  inputs : ∀ e ∈ m.databaseEntries, e.2.input = (lastInput text e.1).getD e.2.lower
  /-- There is one rule for each line that adds one, in the order of the lines. -/
  rules : m.rules.objects.map (fun r => (r.name, r.text))
    = (argumentsOf "rule" text).mapIdx fun i words =>
        (ruleName (argumentsOf "rule" text) i words, ruleText words)
  rules_keyed : ∀ e ∈ m.rules.entries, e.1 = e.2.name
  /-- Every rule is what its text is compiled to in the model as it is in the end. -/
  programs : ∀ r ∈ m.rules.objects,
    Rule.compile m.scope r.text = .ok { program := r.program, consequent := r.output }
  /-- The last choice of an operator counts for all rules. -/
  norm : ∃ norm, lastChoice TNorm.ofName? .minimum (argumentsOf "tnorm" text) = some norm ∧
    ∀ r ∈ m.rules.objects, r.norm = .stock norm
  conorm : ∃ conorm, lastChoice SNorm.ofName? .maximum (argumentsOf "snorm" text) = some conorm ∧
    ∀ r ∈ m.rules.objects, r.conorm = .stock conorm

/-! ## Lines and directives -/

namespace Directive

/-- The name and the range of the variable that the directive makes. -/
def range? : Directive → Option (String × Float × Float)
  | makeVariable name lower upper => some (name, lower, upper)
  | _ => none

/-- The input that the directive sets. -/
def input? : Directive → Option (String × Float)
  | setInput name x => some (name, x)
  | _ => none

/-- The arguments of a choice of the AND. -/
def normChoice? : Directive → Option (List String)
  | chooseNorm name => some [name]
  | _ => none

/-- The arguments of a choice of the OR. -/
def conormChoice? : Directive → Option (List String)
  | chooseConorm name => some [name]
  | _ => none

end Directive

/-- The directives of the lines of a text. -/
def directivesOf (text : String) : List Directive :=
  (Text.splitLines text).filterMap directiveOn

/-- What `g` reads off the arguments of a kind is what `f` says of the directive that they spell. Of
the directives of other kinds it says nothing. -/
structure Agrees {γ : Type} (k : Kind) (g : List String → Option γ) (f : Directive → Option γ) :
    Prop where
  kind : ∀ directive, directive.kind = k ↔ (f directive).isSome
  read : ∀ words directive, k.read words = .ok directive → g words = f directive

theorem rangeOn_agrees : Agrees .variable rangeOn Directive.range? where
  kind directive := by cases directive <;> simp [Directive.kind, Directive.range?]
  read words directive h := by
    obtain ⟨name, lower, upper, l, u, rfl, hl, hu, rfl⟩ := ofVariable_eq_ok_iff.1 h
    simp [rangeOn, hl, hu, Directive.range?]

theorem inputOn_agrees : Agrees .input inputOn Directive.input? where
  kind directive := by cases directive <;> simp [Directive.kind, Directive.input?]
  read words directive h := by
    obtain ⟨name, value, x, rfl, hx, rfl⟩ := ofInput_eq_ok_iff.1 h
    simp [inputOn, hx, Directive.input?]

theorem normChoice?_agrees : Agrees .norm some Directive.normChoice? where
  kind directive := by cases directive <;> simp [Directive.kind, Directive.normChoice?]
  read words directive h := by
    obtain ⟨name, rfl, rfl⟩ := ofNorm_eq_ok_iff.1 h
    rfl

theorem conormChoice?_agrees : Agrees .conorm some Directive.conormChoice? where
  kind directive := by cases directive <;> simp [Directive.kind, Directive.conormChoice?]
  read words directive h := by
    obtain ⟨name, rfl, rfl⟩ := ofConorm_eq_ok_iff.1 h
    rfl

theorem map_ofKind {γ : Type} {k : Kind} {f : Directive → Option γ}
    (hkind : ∀ directive, directive.kind = k ↔ (f directive).isSome) (directives : List Directive) :
    (ofKind k directives).map f = (directives.filterMap f).map some := by
  induction directives with
  | nil => rfl
  | cons directive rest ih =>
      by_cases h : directive.kind = k
      · obtain ⟨c, hc⟩ := Option.isSome_iff_exists.1 ((hkind directive).1 h)
        simpa [ofKind, h, hc] using ih
      · have hnone : f directive = none := by
          simpa using mt (hkind directive).2 h
        simpa [ofKind, h, hnone] using ih

section

variable {γ : Type} {k : Kind} {g : List String → Option γ} {f : Directive → Option γ}
  {text : String} (hread : ∀ line ∈ Text.splitLines text, Readable line)
include hread

/-- What the lines of a kind say, line by line, is found by going through all directives. -/
theorem Agrees.map_argumentsOf (h : Agrees k g f) :
    (argumentsOf k.keyword text).map g = ((directivesOf text).filterMap f).map some :=
  (map_eq_map_of_ok h.read (map_read_argumentsOn k hread)).trans (map_ofKind h.kind _)

theorem Agrees.filterMap_argumentsOf (h : Agrees k g f) :
    (argumentsOf k.keyword text).filterMap g = (directivesOf text).filterMap f := by
  have hall := congrArg (List.filterMap id) (h.map_argumentsOf hread)
  simpa [List.filterMap_map, Function.comp_def] using hall

theorem Agrees.argumentsOf_eq {f : Directive → Option (List String)} (h : Agrees k some f) :
    argumentsOf k.keyword text = (directivesOf text).filterMap f :=
  List.filterMap_some.symm.trans (h.filterMap_argumentsOf hread)

end

theorem inputsOf_eq_filterMap (directives : List Directive) :
    inputsOf directives = directives.filterMap Directive.input? := by
  induction directives with
  | nil => rfl
  | cons directive rest ih =>
      cases directive with
      | setInput name x => exact congrArg ((name, x) :: ·) ih
      | _ => exact ih

/-! ## The first pass -/

/-- What is known of a variable apart from its labels. -/
def profile (v : LinguisticVariable Float) : String × Float × Float × Float :=
  (v.name, v.lower, v.upper, v.input)

/-- The profile of a new variable. -/
def newProfile : String × Float × Float → String × Float × Float × Float
  | (name, lower, upper) => (name, lower, upper, lower)

/-- What the directives add to the variables of the model. -/
structure Adds (m : Model Float) (directives : List Directive) (t : Model Float) : Prop where
  listed : m.Listed → t.Listed
  profiles : t.pool.toList.map profile
    = m.pool.toList.map profile ++ (directives.filterMap Directive.range?).map newProfile
  rules : m.rules = ∅ → t.rules = ∅

theorem Adds.nil (m : Model Float) : Adds m [] m :=
  ⟨id, by simp, id⟩

theorem Adds.cons {m u t : Model Float} {directive : Directive} {rest : List Directive}
    (h : Adds m [directive] u) (h' : Adds u rest t) : Adds m (directive :: rest) t where
  listed := h'.listed ∘ h.listed
  profiles := by
    rw [h'.profiles, h.profiles, List.append_assoc, ← List.map_append, ← List.filterMap_append,
      List.singleton_append]
  rules := h'.rules ∘ h.rules

theorem adds_of_takeIn {m t : Model Float} {directive : Directive}
    (h : takeIn m directive = .ok t) : Adds m [directive] t := by
  cases directive with
  | makeVariable name lower upper =>
      have hadd := takeIn_makeVariable_eq_ok_iff.1 h
      refine ⟨fun hm => hm.addVariable hadd, ?_, ?_⟩
      · obtain ⟨v, hv, -, rfl⟩ := Model.addVariable_eq_ok_iff.1 hadd
        obtain ⟨-, rfl⟩ := LinguisticVariable.make_eq_ok_iff.1 hv
        simp [Directive.range?, profile, newProfile]
      · obtain ⟨v, -, -, rfl⟩ := Model.addVariable_eq_ok_iff.1 hadd
        exact id
  | makeLabel owner label shape params =>
      obtain ⟨ref, function, -, -, hlabel⟩ := takeIn_makeLabel_eq_ok_iff.1 h
      obtain ⟨v, w, hv, hw, rfl⟩ := Model.addLabel_eq_ok_iff.1 hlabel
      obtain ⟨-, rfl⟩ := LinguisticVariable.withLabel_eq_ok_iff.1 hw
      -- A label is in no profile.
      refine ⟨fun hm => hm.addLabel hlabel, ?_, id⟩
      rw [List.filterMap_cons_none rfl, List.filterMap_nil, List.map_nil, List.append_nil]
      exact Model.map_pool_replace hv rfl
  | chooseNorm name =>
      obtain ⟨norm, -, rfl⟩ := takeIn_chooseNorm_eq_ok_iff.1 h
      refine ⟨fun hm => hm.of_variableNames_eq rfl rfl, by simp [Directive.range?, Model.withNorm],
        fun hm => ?_⟩
      rw [Model.withNorm, hm]
      rfl
  | chooseConorm name =>
      obtain ⟨conorm, -, rfl⟩ := takeIn_chooseConorm_eq_ok_iff.1 h
      refine ⟨fun hm => hm.of_variableNames_eq rfl rfl,
        by simp [Directive.range?, Model.withConorm], fun hm => ?_⟩
      rw [Model.withConorm, hm]
      rfl
  | setInput name x =>
      obtain rfl : m = t := Except.ok.inj h
      exact ⟨id, by simp [Directive.range?], id⟩
  | addRule name text =>
      obtain rfl : m = t := Except.ok.inj h
      exact ⟨id, by simp [Directive.range?], id⟩

theorem adds_of_takeAll {m t : Model Float} {directives : List Directive}
    (h : takeAll m directives = .ok t) : Adds m directives t := by
  induction directives generalizing m with
  | nil =>
      obtain rfl := foldlM_nil_eq_ok_iff.1 h
      exact .nil t
  | cons directive rest ih =>
      obtain ⟨u, hu, hrest⟩ := takeAll_cons_eq_ok_iff.1 h
      exact (adds_of_takeIn hu).cons (ih hrest)

/-! ## The choice of an operator -/

theorem lastChoice_cons {κ : Type} {ofName? : String → Option κ} {default chosen : κ}
    {name : String} {rest : List (List String)} (h : ofName? name = some chosen) :
    lastChoice ofName? default ([name] :: rest) = lastChoice ofName? chosen rest := by
  cases rest with
  | nil => exact h
  | cons words rest => simp [lastChoice, List.getLast?_cons]

/-- What arguments that choose an operator make of the name of the operator in a model. Without them
the name stays. -/
def Chooses {κ : Type} (ofName? : String → Option κ) (toName : κ → String) (before after : String) :
    Option (List String) → Prop
  | none => after = before
  | some words => ∃ name chosen, words = [name] ∧ ofName? name = some chosen ∧ after = toName chosen

theorem chooses_of_takeIn {m t : Model Float} {directive : Directive}
    (h : takeIn m directive = .ok t) :
    Chooses TNorm.ofName? TNorm.name m.tnorm t.tnorm directive.normChoice? ∧
      Chooses SNorm.ofName? SNorm.name m.snorm t.snorm directive.conormChoice? := by
  cases directive with
  | makeVariable name lower upper =>
      obtain ⟨v, -, -, rfl⟩ := Model.addVariable_eq_ok_iff.1 (takeIn_makeVariable_eq_ok_iff.1 h)
      exact ⟨rfl, rfl⟩
  | makeLabel owner label shape params =>
      obtain ⟨ref, function, -, -, hlabel⟩ := takeIn_makeLabel_eq_ok_iff.1 h
      obtain ⟨v, w, -, -, rfl⟩ := Model.addLabel_eq_ok_iff.1 hlabel
      exact ⟨rfl, rfl⟩
  | chooseNorm name =>
      obtain ⟨norm, hnorm, rfl⟩ := takeIn_chooseNorm_eq_ok_iff.1 h
      exact ⟨⟨name, norm, rfl, hnorm, rfl⟩, rfl⟩
  | chooseConorm name =>
      obtain ⟨conorm, hconorm, rfl⟩ := takeIn_chooseConorm_eq_ok_iff.1 h
      exact ⟨rfl, name, conorm, rfl, hconorm, rfl⟩
  | setInput name x =>
      obtain rfl : m = t := Except.ok.inj h
      exact ⟨rfl, rfl⟩
  | addRule name text =>
      obtain rfl : m = t := Except.ok.inj h
      exact ⟨rfl, rfl⟩

/-- In the end the last choice is found in its place of the model. -/
theorem exists_lastChoice {κ : Type} {ofName? : String → Option κ} {toName : κ → String}
    (place : Model Float → String) {choice? : Directive → Option (List String)}
    (hstep : ∀ m t directive, takeIn m directive = .ok t →
      Chooses ofName? toName (place m) (place t) (choice? directive))
    {directives : List Directive} {m t : Model Float} (h : takeAll m directives = .ok t)
    (default : κ) (hm : place m = toName default) :
    ∃ chosen, lastChoice ofName? default (directives.filterMap choice?) = some chosen ∧
      place t = toName chosen := by
  induction directives generalizing m default with
  | nil =>
      obtain rfl := foldlM_nil_eq_ok_iff.1 h
      exact ⟨default, rfl, hm⟩
  | cons directive rest ih =>
      obtain ⟨u, hu, hrest⟩ := takeAll_cons_eq_ok_iff.1 h
      have hchooses := hstep m u directive hu
      cases hc : choice? directive with
      | none =>
          rw [hc] at hchooses
          rw [List.filterMap_cons_none hc]
          exact ih hrest default (Eq.trans hchooses hm)
      | some words =>
          rw [hc] at hchooses
          obtain ⟨name, chosen, rfl, hname, hplace⟩ := hchooses
          rw [List.filterMap_cons_some hc, lastChoice_cons hname]
          exact ih hrest chosen hplace

/-! ## The inputs -/

theorem lastValue_cons (name other : String) (x : Float) (rest : List (String × Float)) :
    lastValue ((name, x) :: rest) other
      = (lastValue rest other).or (if name = other then some x else none) := by
  by_cases h : name = other
  · cases hlast : (rest.filter (·.1 = other)).getLast? <;>
      simp [lastValue, h, hlast, List.getLast?_cons]
  · simp [lastValue, h]

/-- The second pass gives every variable the last of its inputs and changes nothing else. -/
theorem pool_of_enterInputs {inputs : List (String × Float)} {m t : Model Float} (hm : m.Listed)
    (h : enterInputs m inputs = .ok t) :
    t = { m with pool := t.pool } ∧ t.Listed ∧ t.pool.toList
      = m.pool.toList.map fun v => { v with input := (lastValue inputs v.name).getD v.input } := by
  induction inputs generalizing m with
  | nil =>
      obtain rfl := foldlM_nil_eq_ok_iff.1 h
      exact ⟨rfl, hm, by simp [lastValue]⟩
  | cons input rest ih =>
      obtain ⟨name, x⟩ := input
      obtain ⟨u, hu, hrest⟩ := foldlM_cons_eq_ok_iff.1 h
      obtain ⟨hframe, hpool⟩ := hm.toList_pool_assign hu
      obtain ⟨hframe', hlisted, hpool'⟩ := ih (hm.assign hu) hrest
      refine ⟨?_, hlisted, ?_⟩
      · rw [hframe', hframe]
      · rw [hpool', hpool, List.map_map]
        refine List.map_congr_left fun v _ => ?_
        -- The input that is set now is the last one unless the rest sets another.
        by_cases hname : v.name = name
        · subst hname
          cases hlast : lastValue rest v.name <;> simp [lastValue_cons, hlast]
        · simp [lastValue_cons, hname, Ne.symm hname]

/-! ## The rules -/

/-- The directive on a line that adds a rule. -/
def ruleDirective (words : List String) : Directive :=
  .addRule (if Unnamed words then none else some (Text.trimRightOf ':' (words.headD "")))
    (ruleText words)

theorem ruleDirective_of_read {words : List String} {directive : Directive}
    (h : Kind.rule.read words = .ok directive) : ruleDirective words = directive := by
  rw [ofRule_eq_ok h, ruleDirective, ruleText]
  split <;> rfl

/-- Behind `n` rules without a name the numbers go on from `n`. -/
theorem rulesOf_map_ruleDirective (n : Nat) (lines : List (List String)) :
    rulesOf n (lines.map ruleDirective) = lines.mapIdx fun i words =>
      (if Unnamed words then automaticName (n + (lines.take (i + 1)).countP Unnamed)
        else Text.trimRightOf ':' (words.headD ""), ruleText words) := by
  induction lines generalizing n with
  | nil => rfl
  | cons words rest ih =>
      rw [List.map_cons, List.mapIdx_cons, ruleDirective]
      cases hunnamed : Unnamed words with
      | true => simp [rulesOf, ih, hunnamed, Nat.add_assoc, Nat.add_comm 1]
      | false => simp [rulesOf, ih, hunnamed]

/-- The third pass enters one rule after the other, compiled in a model that does not change but for
its rules. -/
theorem exists_rules_of_enterRules {rules : List (String × String)} {m t : Model Float}
    {norm : TNorm} {conorm : SNorm} (hnorm : m.tnorm = norm.name) (hconorm : m.snorm = conorm.name)
    (h : enterRules m rules = .ok t) :
    ∃ rs : List (Rule Float),
      t = { m with rules := ⟨m.rules.entries ++ rs.map fun r => (r.name, r)⟩ } ∧
        rs.map (fun r => (r.name, r.text)) = rules ∧
        ∀ r ∈ rs,
          Rule.compile m.scope r.text = .ok { program := r.program, consequent := r.output } ∧
          r.norm = .stock norm ∧ r.conorm = .stock conorm := by
  induction rules generalizing m with
  | nil =>
      obtain rfl := foldlM_nil_eq_ok_iff.1 h
      exact ⟨[], by simp, rfl, by simp⟩
  | cons rule rest ih =>
      obtain ⟨u, hu, hrest⟩ := foldlM_cons_eq_ok_iff.1 h
      obtain ⟨norm', conorm', r, hnorm', hconorm', hr, hadd⟩ := Model.newRule_eq_ok_iff.1 hu
      rw [hnorm, TNorm.ofName?_name] at hnorm'
      rw [hconorm, SNorm.ofName?_name] at hconorm'
      obtain rfl := Option.some.inj hnorm'
      obtain rfl := Option.some.inj hconorm'
      obtain ⟨hfree, rfl⟩ := Model.addRule_eq_ok_iff.1 hadd
      obtain ⟨rs, rfl, hnames, hrs⟩ := ih (m := { m with rules := m.rules.insert r.name r })
        hnorm hconorm hrest
      refine ⟨r :: rs, ?_, ?_, List.forall_mem_cons.2 ⟨?_, hrs⟩⟩
      · simp [Registry.entries_insert hfree]
      · obtain ⟨c, -, rfl⟩ := Model.compile_eq_ok_iff.1 hr
        rw [List.map_cons, hnames]
      · obtain ⟨c, hc, rfl⟩ := Model.compile_eq_ok_iff.1 hr
        exact ⟨hc, rfl, rfl⟩

theorem rulesOf_directivesOf {text : String}
    (hread : ∀ line ∈ Text.splitLines text, Readable line) :
    rulesOf 0 (directivesOf text) = (argumentsOf "rule" text).mapIdx fun i words =>
      (ruleName (argumentsOf "rule" text) i words, ruleText words) := by
  have hkind : (argumentsOf "rule" text).map ruleDirective
      = (ofKind .rule (directivesOf text)).map id :=
    map_eq_map_of_ok (fun _ _ => ruleDirective_of_read) (map_read_argumentsOn .rule hread)
  have hfrom := rulesOf_map_ruleDirective 0 (argumentsOf "rule" text)
  simp only [Nat.zero_add] at hfrom
  rw [← rulesOf_ofKind, ← List.map_id (ofKind .rule (directivesOf text)), ← hkind, hfrom]
  rfl

/-! ## Loading -/

/-- What the first two passes make of the variables. -/
theorem databaseEntries_of_passes {directives : List Directive} {inputs : List (String × Float)}
    {built t : Model Float} (h : takeAll .initial directives = .ok built)
    (h' : enterInputs built inputs = .ok t) :
    t.databaseEntries.map (fun (name, v) => (name, v.lower, v.upper, v.input))
      = (directives.filterMap Directive.range?).map
          fun (name, lower, upper) => (name, lower, upper, (lastValue inputs name).getD lower) := by
  have hadds := adds_of_takeAll h
  obtain ⟨-, hlisted, hpool⟩ := pool_of_enterInputs (hadds.listed (Model.listed_empty _ _)) h'
  calc t.databaseEntries.map (fun (name, v) => (name, v.lower, v.upper, v.input))
      = t.pool.toList.map profile := by
        rw [hlisted.databaseEntries, List.map_map]
        rfl
    _ = (built.pool.toList.map profile).map fun (name, lower, upper, x) =>
          (name, lower, upper, (lastValue inputs name).getD x) := by
        rw [hpool, List.map_map, List.map_map]
        rfl
    _ = ((directives.filterMap Directive.range?).map newProfile).map fun (name, lower, upper, x) =>
          (name, lower, upper, (lastValue inputs name).getD x) := by
        rw [hadds.profiles]
        rfl
    _ = _ := List.map_map ..

/-- **A loaded model contains what the lines of its text say.** -/
theorem content_of_load {text : String} {m : Model Float} (h : load text = .ok m) :
    Content text m := by
  obtain ⟨hread, built, set, hbuilt, hset, hrules⟩ := load_eq_ok_iff.1 h
  -- What the three passes make of the directives.
  have hadds := adds_of_takeAll hbuilt
  obtain ⟨norm, hnorm, htnorm⟩ := exists_lastChoice Model.tnorm
    (fun _ _ _ h => (chooses_of_takeIn h).1) hbuilt .minimum rfl
  obtain ⟨conorm, hconorm, hsnorm⟩ := exists_lastChoice Model.snorm
    (fun _ _ _ h => (chooses_of_takeIn h).2) hbuilt .maximum rfl
  have hentries := databaseEntries_of_passes hbuilt hset
  obtain ⟨hframe, -, -⟩ := pool_of_enterInputs (hadds.listed (Model.listed_empty _ _)) hset
  have hempty : set.rules = ∅ := by
    rw [hframe]
    exact hadds.rules rfl
  obtain ⟨rs, rfl, hnames, hrs⟩ := exists_rules_of_enterRules (m := set)
    (by rw [hframe, htnorm]) (by rw [hframe, hsnorm]) hrules
  rw [hempty]
  have hobjects : Registry.objects ⟨rs.map fun r => (r.name, r)⟩ = rs :=
    (List.map_map ..).trans (List.map_id _)
  exact
    { ranges := by
        have hranges := congrArg (List.map fun (name, lower, upper, _) => some (name, lower, upper))
          hentries
        rw [List.map_map, List.map_map] at hranges
        exact (rangeOn_agrees.map_argumentsOf hread).trans hranges.symm
      inputs := by
        intro e he
        have hmem : (e.1, e.2.lower, e.2.upper, e.2.input) ∈ set.databaseEntries.map
            (fun (name, v) => (name, v.lower, v.upper, v.input)) := List.mem_map.2 ⟨e, he, rfl⟩
        rw [hentries] at hmem
        obtain ⟨⟨name, lower, upper⟩, -, heq⟩ := List.mem_map.1 hmem
        simp only [Prod.mk.injEq] at heq
        obtain ⟨rfl, rfl, rfl, hinput⟩ := heq
        have hinputs := inputOn_agrees.filterMap_argumentsOf hread
        rw [inputsOf_eq_filterMap, ← directivesOf, ← hinputs] at hinput
        exact hinput.symm
      rules := by
        rw [← rulesOf_directivesOf hread]
        exact (congrArg (List.map _) hobjects).trans hnames
      rules_keyed := by
        intro e he
        obtain ⟨r, -, rfl⟩ := List.mem_map.1 he
        rfl
      programs := fun r hr => (hrs r (hobjects ▸ hr)).1
      norm := by
        have hwords := congrArg (lastChoice TNorm.ofName? .minimum)
          (normChoice?_agrees.argumentsOf_eq hread)
        exact ⟨norm, hwords.trans hnorm, fun r hr => (hrs r (hobjects ▸ hr)).2.1⟩
      conorm := by
        have hwords := congrArg (lastChoice SNorm.ofName? .maximum)
          (conormChoice?_agrees.argumentsOf_eq hread)
        exact ⟨conorm, hwords.trans hconorm, fun r hr => (hrs r (hobjects ▸ hr)).2.2⟩ }

/-- A model whose first rule stands before everything that it depends on. -/
def smallText : String :=
  "\n".intercalate ["rule IF A is b THEN A is b", "var A 0 9", "mf A b rshoulder 6 8", "input A 3",
    "rule c: IF A is b THEN A is b", "tnorm prod", "input A 7"]

theorem content_of_load_smallText :
    ∃ m, load smallText = .ok m ∧ Content smallText m ∧ m.rules.names = ["R1", "c"] ∧
      m.databaseEntries.map (·.2.input == 7) = [true] := by
  have hloaded : (load smallText).toOption.map
      (fun m => (m.rules.names, m.databaseEntries.map (·.2.input == 7)))
        = some (["R1", "c"], [true]) := by decide +kernel
  obtain ⟨m, hm, hfields⟩ := Option.map_eq_some_iff.1 hloaded
  simp only [Prod.mk.injEq] at hfields
  rw [toOption_eq_some_iff] at hm
  exact ⟨m, hm, content_of_load hm, hfields⟩

end FuzzyLogic.ModelFile
