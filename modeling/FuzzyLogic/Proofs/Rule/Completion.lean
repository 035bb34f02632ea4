import FuzzyLogic.Proofs.Rule.Acceptance
import FuzzyLogic.Proofs.Rule.Tokenize

set_option autoImplicit false

/-! # Completing a rule

The compiler reports an error at the first token that no rule can have in its place: as long as it
reads on, what it has read is the beginning of a rule. For this every configuration of a run has to
be completed: the clause that is begun gets its missing parts, the open parentheses are closed, and
the consequent is added. All that is needed is that some variable can be named and that every such
variable has a label that can be named. -/

namespace FuzzyLogic.Rule

variable {V L : Type}

/-! ## Names that a rule can use -/

/-- The name is one token, and as the subject of a clause it is the variable's. -/
structure Scope.NamesVariable (scope : Scope V L) (name : String) (v : V) : Prop where
  token : tokenize name = [name]
  free : capitals name ∉ subjectReserved
  lookup_eq : scope.lookup name = some v

/-- The name is one token, and as a label in a clause about the variable it is the label's. -/
structure Scope.NamesLabel (scope : Scope V L) (v : V) (name : String) (l : L) : Prop where
  token : tokenize name = [name]
  free : capitals name ∉ labelReserved
  labelOf_eq : scope.labelOf v name = some l

/-- There is a variable that a rule can name, and every one has a label that a rule can name. -/
structure Scope.Nameable (scope : Scope V L) : Prop where
  variable_named : ∃ name v, scope.NamesVariable name v
  label_named : ∀ name v, scope.NamesVariable name v → ∃ label l, scope.NamesLabel v label l

/-- The text of the tokens can be continued to a rule that is compiled. -/
def Completable (scope : Scope V L) (tokens : List String) : Prop :=
  ∃ us, (∀ u ∈ us, tokenize u = [u]) ∧
    ∃ r, compile scope (" ".intercalate (tokens ++ us)) = .ok r

/-! ## Completing a configuration -/

namespace Configuration

/-- Some tokens lead from the configuration to one with a consequent. -/
def Completes (scope : Scope V L) (c : Configuration V L) : Prop :=
  ∃ us, (∀ u ∈ us, tokenize u = [u]) ∧
    ∃ d, readAll scope c us = .ok d ∧ d.consequent.isSome

variable {scope : Scope V L}

theorem Completes.of_consequent {c : Configuration V L} (h : c.consequent.isSome) :
    Completes scope c :=
  ⟨[], by simp, c, rfl, h⟩

theorem Step.completes {c d : Configuration V L} {token : String} (hstep : Step scope c token d)
    (htoken : tokenize token = [token]) (h : Completes scope d) : Completes scope c := by
  obtain ⟨us, hus, e, hread, hsome⟩ := h
  refine ⟨token :: us, List.forall_mem_cons.2 ⟨htoken, hus⟩, e, ?_, hsome⟩
  rw [hstep.readAll_cons, hread]

/-- Whatever stands behind a complete clause can be completed. Behind THEN the clause is the
consequent. -/
def CompletesBehindClause (scope : Scope V L) (after : Bool) : Prop :=
  ∀ d : Configuration V L, d.expecting = .operator → d.afterThen = after →
    (after = true → d.consequent.isSome) → Completes scope d

theorem completes_of_label {c : Configuration V L} {v : V} {label : String} {l : L}
    (hexp : c.expecting = .label v) (hl : scope.NamesLabel v label l)
    (hnext : CompletesBehindClause scope c.afterThen) : Completes scope c := by
  cases hafter : c.afterThen with
  | true =>
      have hstep : Step scope c label _ := .consequent hl.free hexp hl.labelOf_eq hafter
      exact hstep.completes hl.token (hnext _ rfl rfl fun _ => rfl)
  | false =>
      have hstep : Step scope c label _ := .operand hl.free hexp hl.labelOf_eq hafter
      exact hstep.completes hl.token (hnext _ rfl rfl fun h => absurd h (by simp [hafter]))

theorem completes_of_isWord {c : Configuration V L} {v : V} {label : String} {l : L}
    (hexp : c.expecting = .isWord v) (hl : scope.NamesLabel v label l)
    (hnext : CompletesBehindClause scope c.afterThen) : Completes scope c := by
  have hstep : Step scope c "IS" _ := .isWord (by decide) hexp
  exact hstep.completes (by decide) (completes_of_label rfl hl hnext)

theorem completes_of_subject (hnames : scope.Nameable) {c : Configuration V L}
    (hexp : c.expecting = .subject) (hnext : CompletesBehindClause scope c.afterThen) :
    Completes scope c := by
  obtain ⟨name, v, hv⟩ := hnames.variable_named
  obtain ⟨label, l, hl⟩ := hnames.label_named name v hv
  have hstep : Step scope c name _ := .subject hv.free hexp hv.lookup_eq
  exact hstep.completes hv.token (completes_of_isWord rfl hl hnext)

/-- Behind THEN a complete clause completes the rule. -/
theorem completesBehindClause_true : CompletesBehindClause scope true :=
  fun _ _ _ h => .of_consequent (h rfl)

/-- Before THEN a complete clause is followed by the closing parentheses, THEN and the consequent.
The induction is on the number of open parentheses. -/
theorem completesBehindClause_false (hnames : scope.Nameable) :
    CompletesBehindClause scope false := by
  intro d hexp hbefore _
  induction hn : d.stack.count .parenthesis generalizing d with
  | zero =>
      have hstep : Step scope d "THEN" _ :=
        .thenWord (by decide) hbefore hexp (List.count_eq_zero.1 hn)
      exact hstep.completes (by decide)
        (completes_of_subject hnames rfl completesBehindClause_true)
  | succ n ih =>
      have hmem : .parenthesis ∈ d.stack := List.count_pos_iff.1 (by omega)
      obtain ⟨ops, below, hstack⟩ := exists_of_parenthesis_mem hmem
      let e : Configuration V L :=
        { d with stack := below, program := d.program ++ operatorCode ops }
      have hstep : Step scope d ")" e := .closing rfl hbefore hexp hstack
      rw [hstack, count_pendingOperators_append, List.count_cons_self] at hn
      exact hstep.completes (by decide) (ih e hexp hbefore (by simp) (Nat.succ.inj hn))

theorem completesBehindClause (hnames : scope.Nameable) (after : Bool) :
    CompletesBehindClause scope after := by
  cases after with
  | true => exact completesBehindClause_true
  | false => exact completesBehindClause_false hnames

/-- A clause that is begun can be completed, since its subject was read as one token. -/
theorem completes_of_clauseBegun (hnames : scope.Nameable) {c : Configuration V L}
    {complete : List String → Prop} {us : List String}
    (h : ClauseBegun scope complete c.expecting us) (hus : ∀ u ∈ us, tokenize u = [u])
    (hcomplete : complete us → c.afterThen = true → c.consequent.isSome) : Completes scope c := by
  have hnext : CompletesBehindClause scope c.afterThen :=
    completesBehindClause hnames c.afterThen
  cases hexp : c.expecting with
  | subject => exact completes_of_subject hnames hexp hnext
  | isWord v =>
      rw [hexp] at h
      cases h with
      -- The subject was read, so it names a variable, and this one has a label.
      | @isWord subject _ hword hv =>
          obtain ⟨label, l, hl⟩ := hnames.label_named subject v ⟨hus subject (by simp), hword, hv⟩
          exact completes_of_isWord hexp hl hnext
  | label v =>
      rw [hexp] at h
      cases h with
      | @label subject _ _ hsubject hv =>
          obtain ⟨label, l, hl⟩ :=
            hnames.label_named subject v ⟨hus subject (by simp), hsubject, hv⟩
          exact completes_of_label hexp hl hnext
  | operator =>
      rw [hexp] at h
      exact hnext c hexp rfl (hcomplete h.complete)

/-- Every configuration of a run over tokens can be completed. -/
theorem completes_of_readAll (hnames : scope.Nameable) {c : Configuration V L} {ts : List String}
    (hts : ∀ t ∈ ts, tokenize t = [t]) (h : readAll scope .start ts = .ok c) :
    Completes scope c := by
  cases Grammatical.readAll h with
  | antecedent hbefore _ _ hbegun =>
      refine completes_of_clauseBegun hnames hbegun (fun u hu => hts u ?_) ?_
      · exact List.mem_append_right _ hu
      · exact fun _ hafter => absurd hafter (by simp [hbefore])
  | consequent _ _ _ _ hbegun =>
      refine completes_of_clauseBegun hnames hbegun (fun u hu => hts u ?_) (fun h => h.elim)
      exact List.mem_append_right _ (List.mem_cons_of_mem _ hu)
  | complete _ _ hsome => exact .of_consequent (by simp [hsome])

end Configuration

/-! ## Prefixes of rules -/

/-- The text of tokens is compiled as these tokens. -/
theorem compile_intercalate {scope : Scope V L} {tokens : List String}
    (h : ∀ t ∈ tokens, tokenize t = [t]) :
    compile scope (" ".intercalate tokens) = compileTokens scope tokens := by
  rw [compile, tokenize_intercalate_tokens h]

theorem completable_iff_readAll {scope : Scope V L} (hnames : scope.Nameable) {ifWord : String}
    {rest : List String} (hif : capitals ifWord = "IF")
    (htokens : ∀ t ∈ ifWord :: rest, tokenize t = [t]) :
    Completable scope (ifWord :: rest) ↔ ∃ c, Configuration.readAll scope .start rest = .ok c := by
  have hall {us : List String} (hus : ∀ u ∈ us, tokenize u = [u]) :
      compile scope (" ".intercalate (ifWord :: rest ++ us))
        = compileTokens scope (ifWord :: (rest ++ us)) :=
    compile_intercalate fun t ht => (List.mem_append.1 ht).elim (htokens t) (hus t)
  constructor
  · rintro ⟨us, hus, r, hr⟩
    rw [hall hus] at hr
    obtain ⟨_, _, d, heq, -, hread, -⟩ := compileTokens_eq_ok_iff.1 hr
    obtain ⟨-, rfl⟩ := List.cons.inj heq
    obtain ⟨c, hc, -⟩ := foldlM_append_eq_ok_iff.1 hread
    exact ⟨c, hc⟩
  · rintro ⟨c, hc⟩
    obtain ⟨us, hus, d, hread, hsome⟩ := Configuration.completes_of_readAll hnames
      (fun t ht => htokens t (List.mem_cons_of_mem _ ht)) hc
    obtain ⟨b, hb⟩ := Option.isSome_iff_exists.1 hsome
    let r : Compiled V L :=
      { program := d.program ++ d.stack.filterMap Pending.instruction?, consequent := b }
    have hfinish : d.finish = .ok r := by simp [r, Configuration.finish, hb]
    have hread' : Configuration.readAll scope .start (rest ++ us) = .ok d := by
      rw [Configuration.readAll_append hc, hread]
    have hcompile : compileTokens scope (ifWord :: (rest ++ us)) = .ok r :=
      compileTokens_eq_ok_iff.2 ⟨ifWord, rest ++ us, d, rfl, hif, hread', hfinish⟩
    exact ⟨us, hus, r, (hall hus).trans hcompile⟩

/-- **The compiler reads on exactly as long as what it has read begins a rule.** So a token at which
it reports an error is the first that no rule has there: without the token the text can still be
completed, with it it cannot. -/
theorem readAll_succeeds_iff_completable {scope : Scope V L} (hnames : scope.Nameable)
    {ifWord : String} {rest : List String} (hif : capitals ifWord = "IF")
    (htokens : ∀ t ∈ ifWord :: rest, tokenize t = [t]) :
    ((∃ c, Configuration.readAll scope .start rest = .ok c)
        ↔ Completable scope (ifWord :: rest)) ∧
      ∀ (token : String) (c : Configuration V L) (e : Error), tokenize token = [token] →
        Configuration.readAll scope .start rest = .ok c → c.read scope token = .error e →
        Completable scope (ifWord :: rest) ∧ ¬ Completable scope (ifWord :: rest ++ [token]) := by
  refine ⟨(completable_iff_readAll hnames hif htokens).symm, ?_⟩
  intro token c e htoken hread herror
  refine ⟨(completable_iff_readAll hnames hif htokens).2 ⟨c, hread⟩, fun hcompletable => ?_⟩
  have htokens' : ∀ t ∈ ifWord :: (rest ++ [token]), tokenize t = [t] := by
    intro t ht
    rw [← List.cons_append, List.mem_append] at ht
    rcases ht with h | h
    · exact htokens t h
    · rw [List.mem_singleton.1 h]
      exact htoken
  obtain ⟨d, hd⟩ := (completable_iff_readAll hnames hif htokens').1 hcompletable
  rw [Configuration.readAll_append hread] at hd
  obtain ⟨_, hstep, -⟩ := Configuration.exists_step_of_readAll_cons hd
  rw [hstep.read_eq] at herror
  exact absurd herror (by simp)

/-- A rule can name the variables of the boiler and their labels. -/
theorem boiler_nameable : Model.boiler.scope.Nameable where
  variable_named := ⟨"Heat", _, by decide, by decide, rfl⟩
  label_named := by
    intro name v h
    have hlookup : List.lookup name [("Heat", (⟨0, "Heat"⟩ : VariableRef)), ("Flow", ⟨1, "Flow"⟩)]
        = some v := h.lookup_eq
    by_cases hheat : name = "Heat"
    · subst hheat
      cases hlookup
      exact ⟨"high", _, by decide, by decide, rfl⟩
    by_cases hflow : name = "Flow"
    · subst hflow
      cases hlookup
      exact ⟨"low", _, by decide, by decide, rfl⟩
    · simp [List.lookup_cons, beq_false_of_ne hheat, beq_false_of_ne hflow] at hlookup

theorem readAll_succeeds_iff_completable_boiler :
    Completable Model.boiler.scope ["If", "Heat", "is", "high", "and", "("] ∧
      ¬ Completable Model.boiler.scope ["If", "Heat", "is", "high", "and", "(", ")"] := by
  have htokens : ∀ t ∈ ["If", "Heat", "is", "high", "and", "("], tokenize t = [t] := by decide
  have h := readAll_succeeds_iff_completable boiler_nameable (by decide) htokens
  exact h.2 ")" _ _ (by decide) rfl rfl

end FuzzyLogic.Rule
