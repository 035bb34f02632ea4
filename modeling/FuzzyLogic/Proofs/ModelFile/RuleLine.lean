import FuzzyLogic.Proofs.ModelFile.Extension
import FuzzyLogic.Proofs.ModelFile.Words
import FuzzyLogic.Proofs.Rule.Step
import FuzzyLogic.Proofs.Rule.Tokenize
import FuzzyLogic.Proofs.Text.Lines

set_option autoImplicit false

/-! # Rules on lines

The text of a rule that stands on a line is split twice. The line is split into words, at spaces and
tabs only, and the words, joined by spaces, are split into tokens, at all blanks and around
parentheses. As long as nothing is quoted, escaped or commented out, the first splitting takes
nothing away from the second. So a line with a rule, put behind the text of a model, gives the model
the rule that its text is compiled to. -/

namespace FuzzyLogic.ModelFile

open Text Rule

/-! ## Words and tokens -/

/-- A character without a use of its own in lines, blanks aside: no mark, no backslash, no number
sign, and no end of a line. -/
def isBare (c : Char) : Bool :=
  !isMark c && c != '\\' && c != '#' && !isLineBoundary c

/-- A text of such characters. -/
def Bare (text : String) : Prop :=
  ∀ c ∈ text.toList, isBare c = true

instance (text : String) : Decidable (Bare text) :=
  decidable_of_iff (text.toList.all isBare = true) List.all_eq_true

theorem isOrdinary_of_isBare {c : Char} (h : isBare c = true) (hc : isSeparator c = false) :
    isOrdinary c = true := by
  simp only [isBare, Bool.and_eq_true, Bool.not_eq_true', bne_iff_ne] at h
  exact isOrdinary_iff.2 ⟨hc, h.1.1.1, h.1.2, h.1.1.2⟩

theorem isLineBoundary_eq_false_of_isBare {c : Char} (h : isBare c = true) :
    isLineBoundary c = false := by
  simp only [isBare, Bool.and_eq_true, Bool.not_eq_true'] at h
  exact h.2

/-- The words of bare characters have together the tokens of these characters, whether the splitter
stands between two words or has read a part of one. -/
theorem exists_wordsFrom_of_bare {cs : List Char} (h : ∀ c ∈ cs, isBare c = true) :
    (∃ words, wordsFrom .between [] cs = .ok words ∧
      words.flatMap (tokenizeFrom []) = tokenizeFrom [] cs) ∧
    ∀ word, ∃ words, wordsFrom .word word cs = .ok words ∧
      words.flatMap (tokenizeFrom []) = tokenizeFrom [] (word.reverse ++ cs) := by
  induction cs with
  | nil => exact ⟨⟨[], rfl, rfl⟩, fun word => ⟨[word.reverse], rfl, by simp⟩⟩
  | cons c rest ih =>
      obtain ⟨hc, hrest⟩ := List.forall_mem_cons.1 h
      obtain ⟨⟨words, hwords, htokens⟩, hword⟩ := ih hrest
      cases hseparator : isSeparator c with
      | true =>
          have hblank := isBlank_of_isSeparator hseparator
          refine ⟨⟨words, ?_, ?_⟩, fun word => ⟨word.reverse :: words, ?_, ?_⟩⟩
          · simpa [wordsFrom, hseparator] using hwords
          · simpa [tokenizeFrom, hblank, closeWord] using htokens
          · simp [wordsFrom, hseparator, hwords, Except.map]
          · rw [List.flatMap_cons, htokens, tokenizeFrom_append_blank hblank]
      | false =>
          have hordinary := isOrdinary_of_isBare hc hseparator
          refine ⟨?_, fun word => ?_⟩
          · obtain ⟨words, hwords, htokens⟩ := hword [c]
            exact ⟨words, (wordsFrom_between_cons hordinary).trans hwords, htokens⟩
          · obtain ⟨words, hwords, htokens⟩ := hword (c :: word)
            exact ⟨words, (wordsFrom_word_cons hordinary).trans hwords, by simpa using htokens⟩

/-- **Splitting a bare text into words keeps its tokens.** -/
theorem exists_lineWords_of_bare {text : String} (h : Bare text) :
    ∃ words, lineWords text = .ok words ∧ words.flatMap tokenize = tokenize text := by
  obtain ⟨⟨words, hwords, htokens⟩, -⟩ := exists_wordsFrom_of_bare h
  refine ⟨words.map String.ofList, by rw [lineWords, hwords]; rfl, ?_⟩
  rw [tokenize, ← htokens, List.map_flatMap, List.flatMap_map]
  simp [tokenize]

/-! ## A line with a rule at the end -/

/-- The name of the next rule without a name. -/
def nextAutomaticName (text : String) : String :=
  automaticName ((argumentsOf "rule" text).countP Unnamed + 1)

/-- The name of the rule on a line with the words, put behind the text. -/
def nextName (text : String) (words : List String) : String :=
  if Unnamed words then nextAutomaticName text else trimRightOf ':' (words.headD "")

theorem ruleName_append {lines more : List (List String)} {i : Nat} (hi : i < lines.length)
    (words : List String) : ruleName (lines ++ more) i words = ruleName lines i words := by
  rw [ruleName, ruleName, List.take_append_of_le_length hi]

theorem ruleName_concat (text : String) (words : List String) :
    ruleName (argumentsOf "rule" text ++ [words]) (argumentsOf "rule" text).length words
      = nextName text words := by
  unfold ruleName nextName
  split
  · next hunnamed => simp [nextAutomaticName, List.take_of_length_le, hunnamed]
  · rfl

section

variable {text line : String} {words : List String}
  (hlines : splitLines (withLines text [line]) = splitLines text ++ [line])
  (hline : Readable line) (hwords : argumentsOn "rule" line = some words)
include hlines hline hwords

/-- The rules of a text with one more line are its own and the one on that line. -/
theorem rulesOf_withLines (hread : ∀ l ∈ splitLines text, Readable l) :
    rulesOf 0 (directivesOf (withLines text [line]))
      = rulesOf 0 (directivesOf text) ++ [(nextName text words, ruleText words)] := by
  have hall : ∀ l ∈ splitLines (withLines text [line]), Readable l := by
    rw [hlines]
    exact List.forall_mem_append.2 ⟨hread, List.forall_mem_singleton.2 hline⟩
  have harguments :
      argumentsOf "rule" (withLines text [line]) = argumentsOf "rule" text ++ [words] := by
    simp [argumentsOf, hlines, hwords]
  have hnames : (argumentsOf "rule" text).mapIdx (fun i words' =>
        (ruleName (argumentsOf "rule" text ++ [words]) i words', ruleText words'))
      = (argumentsOf "rule" text).mapIdx fun i words' =>
        (ruleName (argumentsOf "rule" text) i words', ruleText words') :=
    List.mapIdx_eq_mapIdx_iff.2 fun i hi => by rw [ruleName_append hi]
  rw [rulesOf_directivesOf hall, rulesOf_directivesOf hread, harguments, List.mapIdx_concat, hnames,
    ruleName_concat]

/-- The directive on the line waits for the last pass. -/
theorem exists_directivesOf_withLines :
    ∃ name rule,
      directivesOf (withLines text [line]) = directivesOf text ++ [.addRule name rule] := by
  obtain ⟨directive, hdirective⟩ := hline
  obtain ⟨d, hd, rfl⟩ :=
    map_eq_ok_iff.1 ((ofLine_of_argumentsOn (k := .rule) hwords).symm.trans hdirective)
  have hkind := kind_of_read hd
  cases d with
  | addRule name rule => exact ⟨name, rule, by simp [directivesOf, hlines, directiveOn, hdirective]⟩
  | _ => exact absurd hkind (by simp [Directive.kind])

theorem describe_withLines_iff (hread : ∀ l ∈ splitLines text, Readable l) {m : Model Float} :
    Describe (directivesOf (withLines text [line])) m ↔
      ∃ t, Describe (directivesOf text) t ∧
        t.newRule (nextName text words) (ruleText words) = .ok m := by
  obtain ⟨name, rule, hdirectives⟩ := exists_directivesOf_withLines hlines hline hwords
  have hbuilt (built : Model Float) :
      takeAll .initial (directivesOf (withLines text [line])) = .ok built ↔
        takeAll .initial (directivesOf text) = .ok built := by
    rw [hdirectives, takeAll, foldlM_append_eq_ok_iff]
    constructor
    · rintro ⟨u, hu, hrest⟩
      obtain rfl := Except.ok.inj hrest
      exact hu
    · intro h
      exact ⟨built, h, rfl⟩
  have hinputs :
      inputsOf (directivesOf (withLines text [line])) = inputsOf (directivesOf text) := by
    simp [hdirectives, inputsOf_eq_filterMap, Directive.input?]
  have hrules (set : Model Float) :
      enterRules set (rulesOf 0 (directivesOf (withLines text [line]))) = .ok m ↔
        ∃ t, enterRules set (rulesOf 0 (directivesOf text)) = .ok t ∧
          t.newRule (nextName text words) (ruleText words) = .ok m := by
    rw [rulesOf_withLines hlines hline hwords hread, enterRules, foldlM_append_eq_ok_iff]
    simp [enterRules]
  simp only [Describe, hbuilt, hinputs, hrules]
  constructor
  · rintro ⟨built, set, hbuilt, hset, t, ht, hm⟩
    exact ⟨t, ⟨built, set, hbuilt, hset, ht⟩, hm⟩
  · rintro ⟨t, ⟨built, set, hbuilt, hset, ht⟩, hm⟩
    exact ⟨built, set, hbuilt, hset, t, ht, hm⟩

/-- **A line with a rule behind the text of a model is a new rule of the model.** -/
theorem load_withLines_rule_eq_ok_iff {m : Model Float} :
    load (withLines text [line]) = .ok m ↔
      ∃ t, load text = .ok t ∧ t.newRule (nextName text words) (ruleText words) = .ok m := by
  calc
    _ ↔ (∀ l ∈ splitLines (withLines text [line]), Readable l) ∧
          Describe (directivesOf (withLines text [line])) m := load_eq_ok_iff
    _ ↔ (∀ l ∈ splitLines text, Readable l) ∧ ∃ t, Describe (directivesOf text) t ∧
          t.newRule (nextName text words) (ruleText words) = .ok m := by
        rw [hlines, List.forall_mem_append, List.forall_mem_singleton, and_iff_left hline]
        exact and_congr_right fun hread => describe_withLines_iff hlines hline hwords hread
    _ ↔ _ := by simp only [load_eq_ok_iff, directivesOf, and_assoc, exists_and_left]

end

/-! ## The new rule -/

/-- The model `u` is `m` with a rule of the name more, whose program and whose output are the
compiled ones. -/
def Gains (m : Model Float) (name : String)
    (compiled : Compiled VariableRef (Label Float)) (u : Model Float) : Prop :=
  ∃ r : FuzzyLogic.Rule Float, r.name = name ∧ r.program = compiled.program ∧
    r.output = compiled.consequent ∧ m.rules.contains name = false ∧
    u = { m with rules := m.rules.insert name r }

/-- Compiling looks at the tokens of a text only. -/
theorem exists_newRule_gains {m : Model Float} (hm : Named m) {name text other : String}
    {compiled : Compiled VariableRef (Label Float)} (htokens : tokenize text = tokenize other)
    (hcompiled : Rule.compile m.scope other = .ok compiled)
    (hfree : m.rules.contains name = false) :
    ∃ u, m.newRule name text = .ok u ∧ Gains m name compiled u := by
  obtain ⟨⟨norm, hnorm⟩, conorm, hconorm⟩ := hm
  have hcompile : Rule.compile m.scope text = .ok compiled := by
    rw [Rule.compile, htokens]
    exact hcompiled
  exact ⟨_, Model.newRule_eq_ok_iff.2 ⟨norm, conorm, _, hnorm, hconorm,
    Model.compile_eq_ok_iff.2 ⟨compiled, hcompile, rfl⟩, Model.addRule_eq_ok_iff.2 ⟨hfree, rfl⟩⟩,
    _, rfl, rfl, rfl, hfree, rfl⟩

section

variable {text rest : String} {words : List String} (hrest : Bare rest)
  (hwords : lineWords rest = .ok words)
include hrest

theorem splitLines_withLines_rule :
    splitLines (withLines text ["rule " ++ rest]) = splitLines text ++ ["rule " ++ rest] := by
  refine splitLines_withLines text (List.forall_mem_singleton.2 ⟨by simp, fun c hc => ?_⟩)
  have hrule : Bare "rule " := by decide
  rw [String.toList_append, List.mem_append] at hc
  exact isLineBoundary_eq_false_of_isBare (hc.elim (hrule c) (hrest c))

omit hrest
include hwords

theorem argumentsOn_rule : argumentsOn "rule" ("rule " ++ rest) = some words := by
  have hrule := Kind.plainWord_keyword .rule
  have hline : lineWords ("rule " ++ rest) = (lineWords rest).map ("rule" :: ·) :=
    lineWords_word_append hrule.ne_empty (isOrdinary_of_plainWord hrule) rest
  rw [hwords] at hline
  exact argumentsOn_eq_some_iff.2 ⟨"rule", hline, by decide⟩

theorem readable_rule (htokens : words.flatMap tokenize ≠ []) : Readable ("rule " ++ rest) := by
  rw [Readable, ofLine_of_argumentsOn (k := .rule) (argumentsOn_rule hwords)]
  cases words with
  | nil => exact absurd rfl htokens
  | cons word more =>
      have hnonempty : (tokenize (" ".intercalate (word :: more))).isEmpty = false := by
        rw [tokenize_intercalate]
        simpa using htokens
      simp only [Kind.read, Directive.ofRule, hnonempty, Bool.false_eq_true, if_false]
      split <;> exact ⟨_, rfl⟩

include hrest

/-- The name of the line and the tokens of its text decide what the line gives. -/
theorem exists_load_gains {m : Model Float} {name other : String}
    {compiled : Compiled VariableRef (Label Float)} (hload : load text = .ok m)
    (htokens : words.flatMap tokenize ≠ []) (hname : nextName text words = name)
    (hother : tokenize (ruleText words) = tokenize other)
    (hcompiled : Rule.compile m.scope other = .ok compiled)
    (hfree : m.rules.contains name = false) :
    ∃ u, load (withLines text ["rule " ++ rest]) = .ok u ∧ Gains m name compiled u := by
  obtain ⟨u, hu, hgains⟩ := exists_newRule_gains (named_of_load hload) hother hcompiled hfree
  refine ⟨u, ?_, hgains⟩
  rw [load_withLines_rule_eq_ok_iff (splitLines_withLines_rule hrest) (readable_rule hwords htokens)
    (argumentsOn_rule hwords), hname]
  exact ⟨m, hload, hu⟩

end

/-- A rule line begins with a name unless its first token is the word IF. -/
theorem unnamed_eq (words : List String) :
    Unnamed words = (words.isEmpty || startsWithIf (words.flatMap tokenize)) := by
  rw [Unnamed, tokenize_intercalate]

theorem startsWithIf_append {tokens : List String} (h : tokens ≠ []) (more : List String) :
    startsWithIf (tokens ++ more) = startsWithIf tokens := by
  cases tokens with
  | nil => exact absurd rfl h
  | cons token rest => rfl

section

variable {text t : String} {m : Model Float} {compiled : Compiled VariableRef (Label Float)}
  (hload : load text = .ok m) (ht : Bare t) (hcompiled : Rule.compile m.scope t = .ok compiled)
include hload ht hcompiled

theorem exists_load_unnamed (hfree : m.rules.contains (nextAutomaticName text) = false) :
    ∃ u, load (withLines text ["rule " ++ t]) = .ok u ∧
      Gains m (nextAutomaticName text) compiled u := by
  obtain ⟨words, hwords, htokens⟩ := exists_lineWords_of_bare ht
  have hif : startsWithIf (tokenize t) = true := by
    obtain ⟨ifWord, rest, c, htokenize, hword, -, -⟩ := compileTokens_eq_ok_iff.1 hcompiled
    rw [htokenize, startsWithIf_cons, hword]
  have hne : tokenize t ≠ [] := by
    intro hnil
    rw [hnil] at hif
    exact absurd hif (by decide)
  have hunnamed : Unnamed words = true := by rw [unnamed_eq, htokens, hif, Bool.or_true]
  refine exists_load_gains ht hwords hload (htokens ▸ hne) ?_ ?_ hcompiled hfree
  · rw [nextName, if_pos hunnamed]
  · rw [ruleText, if_pos hunnamed, tokenize_intercalate, htokens]

theorem exists_load_named {n : String} (hn : Bare n)
    (hseparator : ∀ c ∈ n.toList, isSeparator c = false) (hne : tokenize n ≠ [])
    (hif : startsWithIf (tokenize n) = false)
    (hfree : m.rules.contains (trimRightOf ':' n) = false) :
    ∃ u, load (withLines text ["rule " ++ n ++ " " ++ t]) = .ok u ∧
      Gains m (trimRightOf ':' n) compiled u := by
  obtain ⟨words, hwords, htokens⟩ := exists_lineWords_of_bare ht
  have hbare : Bare (n ++ " " ++ t) := by
    have hspace : Bare " " := by decide
    intro c hc
    simp only [String.toList_append, List.mem_append] at hc
    obtain (hc | hc) | hc := hc
    · exact hn c hc
    · exact hspace c hc
    · exact ht c hc
  have hnempty : n ≠ "" := by
    rintro rfl
    exact hne rfl
  have hline : lineWords (n ++ " " ++ t) = .ok (n :: words) := by
    rw [lineWords_word_append hnempty fun c hc =>
      isOrdinary_of_isBare (hn c hc) (hseparator c hc), hwords]
    rfl
  have hunnamed : Unnamed (n :: words) = false := by
    rw [unnamed_eq, List.flatMap_cons, startsWithIf_append hne, hif]
    rfl
  have hassoc : "rule " ++ n ++ " " ++ t = "rule " ++ (n ++ " " ++ t) := by
    simp only [String.append_assoc]
  rw [hassoc]
  refine exists_load_gains hbare hline hload ?_ ?_ ?_ hcompiled hfree
  · simp [hne]
  · simp [nextName, hunnamed]
  · simp [ruleText, hunnamed, tokenize_intercalate, htokens]

end

/-- **A rule line means what its text means.** Put behind a text that is loaded, the line of a rule
that is compiled with the names of the model gives the model this very rule: under the next
automatic name, or, if the line has a name that does not begin like the text of a rule, under this
one without the colons at its end. It does not matter which blanks the text has and where they stand
at its parentheses. -/
theorem load_rule_line {text t : String} {m : Model Float}
    {compiled : Compiled VariableRef (Label Float)} (hload : load text = .ok m) (ht : Bare t)
    (hcompiled : Rule.compile m.scope t = .ok compiled) :
    (m.rules.contains (nextAutomaticName text) = false →
      ∃ u, load (withLines text ["rule " ++ t]) = .ok u ∧
        Gains m (nextAutomaticName text) compiled u) ∧
    ∀ n, Bare n → (∀ c ∈ n.toList, isSeparator c = false) → tokenize n ≠ [] →
      startsWithIf (tokenize n) = false → m.rules.contains (trimRightOf ':' n) = false →
      ∃ u, load (withLines text ["rule " ++ n ++ " " ++ t]) = .ok u ∧
        Gains m (trimRightOf ':' n) compiled u :=
  ⟨exists_load_unnamed hload ht hcompiled, fun _ => exists_load_named hload ht hcompiled⟩

/-- With an ideographic space, a no-break space and words that touch parentheses. -/
theorem load_rule_line_blanks :
    ∃ m compiled,
      load "var A 0 9\nrule IF A is b THEN A is b\nmf A b rshoulder 6 8" = .ok m ∧
      Rule.compile m.scope "IF(A\u3000is b)THEN\u00a0A is b" = .ok compiled ∧
      (∃ u, load (withLines "var A 0 9\nrule IF A is b THEN A is b\nmf A b rshoulder 6 8"
          ["rule IF(A\u3000is b)THEN\u00a0A is b"]) = .ok u ∧ Gains m "R2" compiled u) ∧
      ∃ u, load (withLines "var A 0 9\nrule IF A is b THEN A is b\nmf A b rshoulder 6 8"
          ["rule warm:: IF(A\u3000is b)THEN\u00a0A is b"]) = .ok u ∧ Gains m "warm" compiled u := by
  let text := "var A 0 9\nrule IF A is b THEN A is b\nmf A b rshoulder 6 8"
  let t := "IF(A\u3000is b)THEN\u00a0A is b"
  have hfields : (load text).toOption.map (fun m => ((Rule.compile m.scope t).toOption.isSome,
      m.rules.contains "R2", m.rules.contains "warm")) = some (true, false, false) := by
    decide +kernel
  obtain ⟨m, hm, hfields⟩ := Option.map_eq_some_iff.1 hfields
  simp only [Prod.mk.injEq] at hfields
  obtain ⟨hcompiled, hautomatic, hnamed⟩ := hfields
  obtain ⟨compiled, hcompiled⟩ := Option.isSome_iff_exists.1 hcompiled
  rw [toOption_eq_some_iff] at hm hcompiled
  have hnext : nextAutomaticName text = "R2" := by decide +kernel
  have hname : trimRightOf ':' "warm::" = "warm" := by decide +kernel
  have hload := load_rule_line hm (by decide) hcompiled
  rw [hnext] at hload
  refine ⟨m, compiled, hm, hcompiled, hload.1 hautomatic, ?_⟩
  have hseparator : "warm::".toList.all (fun c => !isSeparator c) = true := by decide
  have hline := hload.2 "warm::" (by decide) (by simpa using hseparator) (by decide) (by decide)
    (by rw [hname]; exact hnamed)
  rw [hname] at hline
  exact hline

end FuzzyLogic.ModelFile
