import FuzzyLogic.Proofs.Evaluation
import FuzzyLogic.Proofs.Rule.Grammar
import FuzzyLogic.Proofs.Rule.Step

set_option autoImplicit false

/-! # Compiling what the grammar derives

Every rule that the grammar derives is compiled, and to the program of its tree. The compiler sees
a chain of terms from the left, with the operators that are still open on its stack; inside one pair
of parentheses these are ANDs on top of ORs. The invariant of a chain, `Antecedent.Spelled.readAll`,
says how the rest of the chain completes the program from any such stack. -/

namespace FuzzyLogic.Rule

variable {V L : Type}

open FuzzyLogic.Rule.Configuration

/-! ## Open chains -/

/-- The operators that are open inside one pair of parentheses, the last one first. -/
def chainOperators (ands ors : Nat) : List Operator :=
  List.replicate ands .and ++ List.replicate ors .or

/-- A stack on which a pair of parentheses, or the whole antecedent, begins. -/
def IsBase (below : List Pending) : Prop :=
  below = [] ∨ ∃ rest, below = .parenthesis :: rest

theorem Pending.priority_le_and (q : Pending) : q.priority ≤ Operator.and.priority := by
  rcases q with ⟨_ | _⟩ | _ <;> decide

/-- AND closes nothing. -/
theorem step_and {scope : Scope V L} {c : Configuration V L} {word : String} {ands ors : Nat}
    {below : List Pending} (hword : capitals word = "AND") (hbefore : c.afterThen = false)
    (hexp : c.expecting = .operator)
    (hstack : c.stack = pendingOperators (chainOperators ands ors) ++ below) :
    Step scope c word { c with
      stack := pendingOperators (chainOperators (ands + 1) ors) ++ below
      expecting := .subject } := by
  have hcut : c.stack = pendingOperators []
      ++ (pendingOperators (chainOperators ands ors) ++ below) := hstack
  have h : Step scope c word _ :=
    .operator (o := .and) hword hbefore hexp hcut (by simp) (fun q _ => q.priority_le_and)
  simpa [operatorCode, chainOperators, pendingOperators, List.replicate_succ] using h

/-- OR closes the open ANDs. -/
theorem step_or {scope : Scope V L} {c : Configuration V L} {word : String} {ands ors : Nat}
    {below : List Pending} (hword : capitals word = "OR") (hbefore : c.afterThen = false)
    (hexp : c.expecting = .operator)
    (hstack : c.stack = pendingOperators (chainOperators ands ors) ++ below)
    (hbase : IsBase below) :
    Step scope c word { c with
      stack := pendingOperators (chainOperators 0 (ors + 1)) ++ below
      program := c.program ++ operatorCode (List.replicate ands .and)
      expecting := .subject } := by
  have hcut : c.stack = pendingOperators (List.replicate ands .and)
      ++ (pendingOperators (List.replicate ors .or) ++ below) := by
    rw [hstack]
    simp [chainOperators, pendingOperators]
  -- On top there is now an OR or the base, and OR closes neither.
  have hhead : ∀ q ∈ (pendingOperators (List.replicate ors .or) ++ below).head?,
      q.priority ≤ Operator.or.priority := by
    cases ors with
    | zero =>
        rcases hbase with rfl | ⟨rest, rfl⟩
        · simp [pendingOperators]
        · simp [pendingOperators, Pending.priority]
    | succ n => simp [pendingOperators, List.replicate_succ, Pending.priority]
  have hops : ∀ q ∈ List.replicate ands Operator.and, Operator.or.priority < q.priority := by
    intro q hq
    rw [(List.mem_replicate.1 hq).2]
    decide
  have h : Step scope c word _ := .operator (o := .or) hword hbefore hexp hcut hops hhead
  simpa [chainOperators, pendingOperators, List.replicate_succ] using h

/-! ## Reading terms -/

/-- The first two tokens of a clause fix its subject. -/
theorem readAll_subject_word {scope : Scope V L} {subject word label : String} {b : Clause V L}
    (hnames : scope.Names subject label b) (hword : capitals word = "IS") (c : Configuration V L)
    (hexp : c.expecting = .subject) :
    Configuration.readAll scope c [subject, word, label]
      = Configuration.readAll scope { c with expecting := .label b.subject } [label] := by
  have hsubject : Step scope c subject { c with expecting := .isWord b.subject } :=
    .subject hnames.subject_free hexp hnames.lookup_eq
  have his : Step scope { c with expecting := .isWord b.subject } word
      { c with expecting := .label b.subject } := .isWord hword rfl
  rw [hsubject.readAll_cons, his.readAll_cons]

/-- Behind THEN a clause becomes the consequent. -/
theorem readAll_consequent {scope : Scope V L} {subject word label : String} {b : Clause V L}
    (hnames : scope.Names subject label b) (hword : capitals word = "IS") (c : Configuration V L)
    (hexp : c.expecting = .subject) (hafter : c.afterThen = true) :
    Configuration.readAll scope c [subject, word, label]
      = .ok { c with consequent := some b, expecting := .operator } := by
  have hlabel : Step scope { c with expecting := .label b.subject } label
      { c with consequent := some b, expecting := .operator } :=
    .consequent hnames.label_free rfl hnames.labelOf_eq hafter
  rw [readAll_subject_word hnames hword c hexp, hlabel.readAll_cons, readAll_nil]

mutual

/-- A term adds the program of its tree and leaves the stack alone. -/
theorem Term.Spelled.readAll {scope : Scope V L} {t : Term (Clause V L)} {ts : List String}
    (h : t.Spelled scope.Names ts) (c : Configuration V L) (hexp : c.expecting = .subject)
    (hbefore : c.afterThen = false) :
    Configuration.readAll scope c ts
      = .ok { c with program := c.program ++ t.tree.postorder, expecting := .operator } := by
  cases h with
  | @clause subject word label b hnames hword =>
      have hlabel : Step scope { c with expecting := .label b.subject } label
          { c with program := c.program ++ [.operand b], expecting := .operator } :=
        .operand hnames.label_free rfl hnames.labelOf_eq hbefore
      rw [readAll_subject_word hnames hword c hexp, hlabel.readAll_cons, readAll_nil]
      rfl
  | @group a ts ha =>
      have hopen : Step scope c "(" { c with stack := .parenthesis :: c.stack } :=
        .opening rfl hbefore hexp
      -- Inside of the parentheses no operator is open yet.
      obtain ⟨ops, program, hread, hprogram⟩ := ha.readAll
        { c with stack := .parenthesis :: c.stack } 0 0 (.parenthesis :: c.stack) hexp hbefore rfl
        (Or.inr ⟨c.stack, rfl⟩)
      have hclose : Step scope
          { c with
            stack := pendingOperators ops ++ .parenthesis :: c.stack
            program
            expecting := .operator } ")"
          { c with program := program ++ operatorCode ops, expecting := .operator } :=
        .closing rfl hbefore rfl rfl
      rw [List.cons_append, hopen.readAll_cons, readAll_append hread, hclose.readAll_cons,
        readAll_nil]
      simp only [hprogram, Term.tree_group, Antecedent.postorder_tree]
      simp [operatorCode]

/-- An antecedent that is read behind `ands` open ANDs and `ors` open ORs completes their
program. -/
theorem Antecedent.Spelled.readAll {scope : Scope V L} {a : Antecedent (Clause V L)}
    {ts : List String} (h : a.Spelled scope.Names ts) (c : Configuration V L) (ands ors : Nat)
    (below : List Pending) (hexp : c.expecting = .subject) (hbefore : c.afterThen = false)
    (hstack : c.stack = pendingOperators (chainOperators ands ors) ++ below)
    (hbase : IsBase below) :
    ∃ ops program,
      Configuration.readAll scope c ts
          = .ok { c with stack := pendingOperators ops ++ below, program, expecting := .operator }
        ∧ program ++ operatorCode ops
          = c.program ++ a.conjunction.postorder ++ operatorCode (List.replicate ands .and)
            ++ alternativesCode a.alternatives ++ operatorCode (List.replicate ors .or) := by
  cases h with
  | @last t ts ht =>
      refine ⟨chainOperators ands ors, c.program ++ t.tree.postorder, ?_, ?_⟩
      · rw [ht.readAll c hexp hbefore, ← hstack]
      · simp [Antecedent.conjunction, Antecedent.alternatives, alternativesCode, chainOperators,
          operatorCode]
  | @join t ts us word o rest ht hword hrest =>
      have hterm := ht.readAll c hexp hbefore
      let d : Configuration V L :=
        { c with program := c.program ++ t.tree.postorder, expecting := .operator }
      cases o with
      | and =>
          -- The first term waits for the rest, so one more AND is open.
          obtain ⟨ops, program, hread, hprogram⟩ := hrest.readAll
            { c with
              stack := pendingOperators (chainOperators (ands + 1) ors) ++ below
              program := c.program ++ t.tree.postorder
              expecting := .subject }
            (ands + 1) ors below rfl hbefore rfl hbase
          have hand : Step scope d word _ := step_and hword hbefore rfl hstack
          refine ⟨ops, program, ?_, ?_⟩
          · rw [readAll_append hterm, hand.readAll_cons, hread]
          · rw [hprogram]
            simp [Antecedent.conjunction, Antecedent.alternatives, Tree.postorder, operatorCode,
              List.replicate_succ]
      | or =>
          -- The open ANDs have all their operands, and the rest is behind one more OR.
          obtain ⟨ops, program, hread, hprogram⟩ := hrest.readAll
            { c with
              stack := pendingOperators (chainOperators 0 (ors + 1)) ++ below
              program := c.program ++ t.tree.postorder ++ operatorCode (List.replicate ands .and)
              expecting := .subject }
            0 (ors + 1) below rfl hbefore rfl hbase
          have hor : Step scope d word _ := step_or hword hbefore rfl hstack hbase
          refine ⟨ops, program, ?_, ?_⟩
          · rw [readAll_append hterm, hor.readAll_cons, hread]
          · rw [hprogram]
            simp [Antecedent.conjunction, Antecedent.alternatives, alternativesCode,
              postorder_disjunction, operatorCode, List.replicate_succ]

end

/-! ## Whole rules -/

/-- Behind the whole antecedent the operators that are still open complete the program of its
tree. -/
theorem readAll_antecedent {scope : Scope V L} {a : Antecedent (Clause V L)} {ts : List String}
    (h : a.Spelled scope.Names ts) :
    ∃ ops program,
      Configuration.readAll scope .start ts
          = .ok { (Configuration.start : Configuration V L) with
              stack := pendingOperators ops, program, expecting := .operator }
        ∧ program ++ operatorCode ops = a.tree.postorder := by
  obtain ⟨ops, program, hread, hprogram⟩ := h.readAll .start 0 0 [] rfl rfl rfl (Or.inl rfl)
  refine ⟨ops, program, by simpa using hread, ?_⟩
  rw [hprogram, Antecedent.postorder_tree]
  simp [Configuration.start, operatorCode]

/-- Behind an antecedent without an open parenthesis, THEN and a clause complete a rule. The
operators that are still open end its program. -/
theorem compileTokens_of_readAll {scope : Scope V L} {ifWord thenWord : String}
    {ts us : List String} {b : Clause V L} {c : Configuration V L} (hif : capitals ifWord = "IF")
    (hthen : capitals thenWord = "THEN") (hcons : Term.Spelled scope.Names (.clause b) us)
    (hread : Configuration.readAll scope .start ts = .ok c) (hbefore : c.afterThen = false)
    (hexp : c.expecting = .operator) (hstack : .parenthesis ∉ c.stack) :
    compileTokens scope (ifWord :: ts ++ thenWord :: us)
      = .ok { program := c.program ++ c.stack.filterMap Pending.instruction?, consequent := b } := by
  obtain @⟨subject, word, label, _, hnames, hword⟩ := hcons
  have hclosed : Step scope c thenWord { c with afterThen := true, expecting := .subject } :=
    .thenWord hthen hbefore hexp hstack
  have hall : Configuration.readAll scope .start (ts ++ thenWord :: [subject, word, label])
      = .ok { c with afterThen := true, consequent := some b, expecting := .operator } := by
    rw [readAll_append hread, hclosed.readAll_cons, readAll_consequent hnames hword _ rfl rfl]
  exact compileTokens_eq_ok_iff.2 ⟨ifWord, _, _, rfl, hif, hall, rfl⟩

/-- **What the grammar derives is compiled, and to the program of its tree.** -/
theorem compileTokens_of_spelled {scope : Scope V L} {a : Antecedent (Clause V L)}
    {b : Clause V L} {tokens : List String} (h : RuleSpelled scope.Names a b tokens) :
    compileTokens scope tokens = .ok { program := a.tree.postorder, consequent := b } := by
  obtain @⟨ifWord, thenWord, ts, us, hif, hante, hthen, hcons⟩ := h
  obtain ⟨ops, program, hread, hprogram⟩ := readAll_antecedent hante
  have hstack : .parenthesis ∉ pendingOperators ops := by simp [pendingOperators]
  rw [compileTokens_of_readAll hif hthen hcons hread rfl rfl hstack]
  simp [filterMap_pendingOperators, hprogram]

end FuzzyLogic.Rule

namespace FuzzyLogic.Model

variable {α : Type} [Scalar α]

/-! ## Rules of a model -/

/-- **A rule that the grammar derives is compiled to the program of its tree, and fires with the
value of the tree.** The rule may be bound to any operators, and `now` is any later state of the
model. The strength is the value of the tree with these operators at the degrees of `now`, and never
the fault of a program that does not fit its stack; it is there whenever the operators are total and
the clauses have degrees. -/
theorem compile_of_spelled (m : Model α) (name text : String) (norm : Binding TNorm α)
    (conorm : Binding SNorm α) {a : Rule.Antecedent (ModelClause α)} {b : ModelClause α}
    (h : Rule.RuleSpelled m.scope.Names a b (Rule.tokenize text)) :
    ∃ r, m.compile name text norm conorm = .ok r ∧ r.program = a.tree.postorder ∧ r.output = b ∧
      ∀ now : Model α,
        now.strength r = a.tree.value ⟨norm.applyNorm, conorm.applyConorm⟩ now.degree
          ∧ WellFormedResult (now.strength r)
          ∧ ∀ (conj disj : α → α → α) (degree : ModelClause α → α),
              (∀ x y, norm.applyNorm x y = .ok (conj x y)) →
              (∀ x y, conorm.applyConorm x y = .ok (disj x y)) →
              (∀ c ∈ a.tree.leaves, now.degree c = .ok (degree c)) →
              now.strength r = .ok (a.tree.fold conj disj degree) := by
  have hcompile :
      Rule.compile m.scope text = .ok { program := a.tree.postorder, consequent := b } :=
    Rule.compileTokens_of_spelled h
  let r : Rule α := { name, text, program := a.tree.postorder, output := b, norm, conorm }
  have hvalue (now : Model α) : now.strength r = a.tree.value r.connectives now.degree :=
    Tree.evaluate_postorder r.connectives now.degree a.tree
  refine ⟨r, by rw [compile, hcompile], rfl, rfl, fun now => ⟨hvalue now, ?_, ?_⟩⟩
  · rw [hvalue]
    exact Tree.wellFormed_value r.wellFormed_connectives now.wellFormed_degree a.tree
  · intro conj disj degree hconj hdisj hdegree
    rw [hvalue]
    exact Tree.value_eq_fold hconj hdisj a.tree hdegree

/-- A model of a boiler, with the two labels that its rules use. -/
def boiler : Model Float :=
  { pool := #[
      { name := "Heat", lower := 0, upper := 90, input := 20
        labels := ⟨[("high", ⟨0, "high", .rightShoulder 60 80⟩)]⟩ },
      { name := "Flow", lower := 0, upper := 5, input := 1
        labels := ⟨[("low", ⟨1, "low", .leftShoulder 1 2⟩)]⟩ }]
    labelCount := 2
    database := ⟨[("Heat", ⟨0, "Heat"⟩), ("Flow", ⟨1, "Flow"⟩)]⟩
    rules := ∅
    tnorm := "min"
    snorm := "max" }

/-- The clause `Heat is high`. -/
def boilerHot : ModelClause Float :=
  ⟨⟨0, "Heat"⟩, ⟨0, "high", .rightShoulder 60 80⟩⟩

/-- The clause `Flow is low`. -/
def boilerDry : ModelClause Float :=
  ⟨⟨1, "Flow"⟩, ⟨1, "low", .leftShoulder 1 2⟩⟩

theorem boilerHot_named : boiler.scope.Names "Heat" "high" boilerHot :=
  ⟨by decide, by decide, rfl, rfl⟩

theorem boilerDry_named : boiler.scope.Names "Flow" "low" boilerDry :=
  ⟨by decide, by decide, rfl, rfl⟩

theorem compile_of_spelled_boiler :
    ∃ r, boiler.compile "R" "if Heat is high or (Flow IS low) and Heat is high THEN Flow is low"
          (.custom fun x y => x - y) (.stock .maximum) = .ok r
      ∧ r.program = [.operand boilerHot, .operand boilerDry, .operand boilerHot, .operator .and,
          .operator .or]
      ∧ r.output = boilerDry
      ∧ boiler.strength r = .ok 1 := by
  have hhot : (Rule.Term.clause boilerHot).Spelled boiler.scope.Names ["Heat", "is", "high"] :=
    .clause boilerHot_named (by decide)
  have hdry : (Rule.Term.clause boilerDry).Spelled boiler.scope.Names ["Flow", "IS", "low"] :=
    .clause boilerDry_named (by decide)
  have hcons : (Rule.Term.clause boilerDry).Spelled boiler.scope.Names ["Flow", "is", "low"] :=
    .clause boilerDry_named (by decide)
  have hante : (Rule.Antecedent.join (.clause boilerHot) .or
      (.join (.group (.last (.clause boilerDry))) .and (.last (.clause boilerHot)))).Spelled
        boiler.scope.Names ["Heat", "is", "high", "or", "(", "Flow", "IS", "low", ")", "and",
          "Heat", "is", "high"] :=
    .join hhot (by decide) (.join (.group (.last hdry)) (by decide) (.last hhot))
  have h := compile_of_spelled boiler "R"
    "if Heat is high or (Flow IS low) and Heat is high THEN Flow is low"
    (.custom fun x y => x - y) (.stock .maximum)
    (Rule.RuleSpelled.rule (by decide) hante (by decide) hcons)
  obtain ⟨r, hr, hprogram, houtput, hstrength⟩ := h
  have hdegree : ∀ c ∈ [boilerHot, boilerDry, boilerHot],
      boiler.degree c = .ok (if c.label.id = 0 then 0 else 1) := by
    simp only [List.forall_mem_cons]
    exact ⟨rfl, rfl, rfl, by simp⟩
  refine ⟨r, hr, hprogram, houtput, ?_⟩
  obtain ⟨-, -, hvalue⟩ := hstrength boiler
  rw [hvalue (fun x y => x - y) Scalar.greater _ (fun _ _ => rfl) (fun _ _ => rfl) hdegree]
  rfl

end FuzzyLogic.Model
