import FuzzyLogic.Proofs.Failure
import FuzzyLogic.Proofs.Rule.Parentheses

set_option autoImplicit false

/-! # Names that mean nothing

In a text that is a rule but for its names, the names are all that can be wrong. The clauses are
read from the left, the consequent last, and in each of them the variable is looked up before the
label. So the first clause that means nothing is what is reported, and if there is none the text is
compiled. -/

namespace FuzzyLogic.Rule

variable {V L : Type}

open FuzzyLogic.Rule.Configuration

/-! ## Clauses as they are written -/

/-- The two names of a clause as they are written. -/
@[ext] structure Naming where
  subject : String
  label : String
  deriving Repr, DecidableEq

/-- The tokens may stand for a variable and a label, whether or not there are such. -/
structure Naming.Written (subject label : String) (n : Naming) : Prop where
  subject_free : capitals subject ∉ subjectReserved
  label_free : capitals label ∉ labelReserved
  eq : n = ⟨subject, label⟩

/-- The clause that two names make up: first the variable has to be there, then its label. -/
def Scope.resolve (scope : Scope V L) (n : Naming) : Except Error (Clause V L) :=
  match scope.lookup n.subject with
  | none => .error (.unknownVariable n.subject)
  | some v =>
    match scope.labelOf v n.label with
    | none => .error (.unknownLabel (scope.nameOf v) n.label)
    | some l => .ok ⟨v, l⟩

section

variable {scope : Scope V L}

theorem Scope.resolve_eq_ok_iff {n : Naming} {b : Clause V L} :
    scope.resolve n = .ok b ↔
      scope.lookup n.subject = some b.subject ∧ scope.labelOf b.subject n.label = some b.label := by
  obtain ⟨v, l⟩ := b
  unfold resolve
  split
  · next hv => simp [hv]
  · next u hu =>
      split
      · next hl =>
          simp only [hu, reduceCtorEq, Option.some.injEq, false_iff, not_and]
          rintro rfl
          simp [hl]
      · next k hk =>
          simp only [hu, Except.ok.injEq, Clause.mk.injEq, Option.some.injEq]
          constructor
          · rintro ⟨rfl, rfl⟩
            exact ⟨rfl, hk⟩
          · rintro ⟨rfl, hl⟩
            exact ⟨rfl, Option.some.inj (hk.symm.trans hl)⟩

theorem Naming.Written.names {subject label : String} {n : Naming} {b : Clause V L}
    (h : Written subject label n) (hb : scope.resolve n = .ok b) : scope.Names subject label b := by
  obtain ⟨hsubject, hlabel, rfl⟩ := h
  obtain ⟨hv, hl⟩ := Scope.resolve_eq_ok_iff.1 hb
  exact ⟨hsubject, hlabel, hv, hl⟩

/-! ## Reading a clause -/

theorem read_subject_none {c : Configuration V L} {token : String}
    (hfree : capitals token ∉ subjectReserved) (hexp : c.expecting = .subject)
    (hnone : scope.lookup token = none) : c.read scope token = .error (.unknownVariable token) := by
  rw [Configuration.read, TokenKind.ofToken_eq_name_iff.2 hfree]
  simp [readWord, hexp, hnone]

theorem read_label_none {c : Configuration V L} {v : V} {token : String}
    (hfree : capitals token ∉ labelReserved) (hexp : c.expecting = .label v)
    (hnone : scope.labelOf v token = none) :
    c.read scope token = .error (.unknownLabel (scope.nameOf v) token) := by
  rw [Configuration.read]
  rcases TokenKind.not_mem_labelReserved_iff.1 hfree with hk | hk | hk <;>
    simp [hk, readWord, hexp, hnone]

/-- A clause that means nothing is reported where it stands, in the antecedent and behind THEN. -/
theorem readAll_clause_of_error {c : Configuration V L} {subject word label : String} {n : Naming}
    {e : Error} (hn : Naming.Written subject label n) (hword : capitals word = "IS")
    (hexp : c.expecting = .subject) (he : scope.resolve n = .error e) :
    readAll scope c [subject, word, label] = .error e := by
  obtain ⟨hsubject, hlabel, rfl⟩ := hn
  unfold Scope.resolve at he
  split at he
  · next hv =>
      obtain rfl := Except.error.inj he
      exact readAll_cons_of_error (read_subject_none hsubject hexp hv) _
  · next v hv =>
      split at he
      · next hl =>
          obtain rfl := Except.error.inj he
          have hstep : Step scope c subject { c with expecting := .isWord v } :=
            .subject hsubject hexp hv
          have his : Step scope { c with expecting := .isWord v } word
              { c with expecting := .label v } := .isWord hword rfl
          rw [hstep.readAll_cons, his.readAll_cons]
          exact readAll_cons_of_error (read_label_none hlabel rfl hl) _
      · exact absurd he (by simp)

/-- The compiler makes of the tokens of a clause what `meaning` says: a clause of the scope, or an
error where the clause stands. -/
structure Scope.Reads {β : Type} (scope : Scope V L) (names : String → String → β → Prop)
    (meaning : β → Except Error (Clause V L)) : Prop where
  named {subject label : String} {b : β} {clause : Clause V L} (h : names subject label b)
    (hb : meaning b = .ok clause) : scope.Names subject label clause
  reported {subject word label : String} {b : β} {e : Error} {c : Configuration V L}
    (h : names subject label b) (hword : capitals word = "IS") (hexp : c.expecting = .subject)
    (he : meaning b = .error e) : readAll scope c [subject, word, label] = .error e

theorem Naming.Written.reads : scope.Reads Naming.Written scope.resolve where
  named h hb := h.names hb
  reported h hword hexp he := readAll_clause_of_error h hword hexp he

/-! ## Reading an antecedent -/

theorem operands_append (program program' : Program (Clause V L)) :
    Program.operands (program ++ program') = program.operands ++ program'.operands :=
  List.filterMap_append

theorem operands_operatorCode (ops : List Operator) :
    (operatorCode ops : Program (Clause V L)).operands = [] := by
  simp [Program.operands, operatorCode]

/-- Parentheses, operators and THEN add no clause. -/
theorem Configuration.Step.operands_eq {c d : Configuration V L} {token : String}
    (h : Step scope c token d) (hreserved : capitals token ∈ labelReserved) :
    d.program.operands = c.program.operands := by
  cases h with
  | closing => rw [operands_append, operands_operatorCode, List.append_nil]
  | operator => rw [operands_append, operands_operatorCode, List.append_nil]
  | operand hword => exact absurd hreserved hword
  | _ => rfl

/-- What the compiler makes of a part of an antecedent behind `c`, where `n` parentheses are open:
it adds the clauses that the names of the part make up, or reports the first that they do not. -/
def Configuration.Resolves (c : Configuration V L) (n : Nat)
    (result : Except Error (Configuration V L)) : Except Error (List (Clause V L)) → Prop
  | .ok clauses => ∃ d, result = .ok d ∧ d.At .behind n ∧
      d.program.operands = c.program.operands ++ clauses
  | .error e => result = .error e

variable {β : Type} {names : String → String → β → Prop} {meaning : β → Except Error (Clause V L)}

mutual

theorem Term.Spelled.resolves {t : Term β} {ts : List String} (h : t.Spelled names ts)
    (hreads : scope.Reads names meaning) {c : Configuration V L} {n : Nat} (hc : c.At .before n) :
    c.Resolves n (readAll scope c ts) (t.clauses.mapM meaning) := by
  cases h with
  | @clause subject word label b hnames hword =>
      rw [Term.clauses, List.mapM_cons, List.mapM_nil]
      cases hb : meaning b with
      | error e => exact hreads.reported hnames hword hc.expecting hb
      | ok clause =>
          have hspelled := Term.Spelled.clause (hreads.named hnames hb) hword
          have hread := hspelled.readAll c hc.expecting hc.antecedent
          exact ⟨_, hread, ⟨hc.antecedent, rfl, hc.count⟩, operands_append _ _⟩
  | @group a ts ha =>
      obtain ⟨d, hopen, hd⟩ := hc.opening
      have hinner := ha.resolves hreads hd
      rw [Term.clauses, List.cons_append, hopen.readAll_cons]
      cases hclauses : a.clauses.mapM meaning with
      | error e =>
          rw [hclauses] at hinner
          exact readAll_append_of_error hinner _
      | ok clauses =>
          rw [hclauses] at hinner
          obtain ⟨f, hread, hf, hoperands⟩ := hinner
          obtain ⟨g, hclose, hg⟩ := hf.closing
          refine ⟨g, ?_, hg, ?_⟩
          · rw [readAll_append hread, hclose.readAll_cons, readAll_nil]
          · rw [hclose.operands_eq (by decide), hoperands, hopen.operands_eq (by decide)]

/-- **The names of an antecedent are looked up in the order of the text.** -/
theorem Antecedent.Spelled.resolves {a : Antecedent β} {ts : List String} (h : a.Spelled names ts)
    (hreads : scope.Reads names meaning) {c : Configuration V L} {n : Nat} (hc : c.At .before n) :
    c.Resolves n (readAll scope c ts) (a.clauses.mapM meaning) := by
  cases h with
  | last ht => exact ht.resolves hreads hc
  | @join t ts us word o rest ht hword hrest =>
      have hterm := ht.resolves hreads hc
      rw [Antecedent.clauses, List.mapM_append]
      cases hclauses : t.clauses.mapM meaning with
      | error e =>
          rw [hclauses] at hterm
          exact readAll_append_of_error hterm _
      | ok clauses =>
          rw [hclauses] at hterm
          obtain ⟨d, hread, hd, hoperands⟩ := hterm
          obtain ⟨f, hjoin, hf⟩ := hd.join hword
          have hothers := hrest.resolves hreads hf
          rw [readAll_append hread, hjoin.readAll_cons]
          cases hmore : rest.clauses.mapM meaning with
          | error e =>
              rw [hmore] at hothers
              exact hothers
          | ok more =>
              rw [hmore] at hothers
              obtain ⟨g, hread', hg, hoperands'⟩ := hothers
              refine ⟨g, hread', hg, ?_⟩
              have hreserved : capitals word ∈ labelReserved := by
                rw [hword]
                cases o <;> decide
              rw [hoperands', hjoin.operands_eq hreserved, hoperands, List.append_assoc]

end

/-! ## Whole rules -/

/-- The clauses of a compiled rule, the consequent last. -/
def Compiled.clauses (r : Compiled V L) : List (Clause V L) :=
  r.program.operands ++ [r.consequent]

theorem operands_pending (stack : List Pending) :
    Program.operands (stack.filterMap Pending.instruction? : Program (Clause V L)) = [] := by
  refine List.filterMap_eq_nil_iff.2 fun i hi => ?_
  obtain ⟨p, -, hp⟩ := List.mem_filterMap.1 hi
  cases p with
  | operator o =>
      obtain rfl := Option.some.inj hp
      rfl
  | parenthesis => exact absurd hp (by simp [Pending.instruction?])

theorem Configuration.At.thenWord {c : Configuration V L} {thenWord : String}
    (h : c.At .behind 0) (hthen : capitals thenWord = "THEN") :
    Step scope c thenWord { c with afterThen := true, expecting := .subject } :=
  .thenWord hthen h.antecedent h.expecting (List.count_eq_zero.1 h.count)

/-- The compiler does to a rule what taking its clauses for their meaning from the left does. -/
theorem compileTokens_of_reads {a : Antecedent β} {b : β} {tokens : List String}
    (hreads : scope.Reads names meaning) (h : RuleSpelled names a b tokens) :
    (compileTokens scope tokens).map Compiled.clauses = (a.clauses ++ [b]).mapM meaning := by
  obtain @⟨ifWord, thenWord, ts, us, hif, hante, hthen, hcons⟩ := h
  obtain @⟨subject, word, label, _, hnames, hword⟩ := hcons
  have hhas : hasThen (ts ++ thenWord :: [subject, word, label]) = true :=
    hasThen_eq_true_iff.2 ⟨thenWord, by simp, hthen⟩
  have hresolves : Configuration.start.Resolves 0 (readAll scope .start ts)
      (a.clauses.mapM meaning) := hante.resolves hreads ⟨rfl, rfl, rfl⟩
  rw [List.mapM_append, List.mapM_cons, List.mapM_nil]
  cases hclauses : a.clauses.mapM meaning with
  | error e =>
      rw [hclauses] at hresolves
      rw [List.cons_append,
        compileTokens_eq_error hif hhas (readAll_append_of_error hresolves _)]
      rfl
  | ok clauses =>
      rw [hclauses] at hresolves
      obtain ⟨c, hread, hc, hoperands⟩ := hresolves
      cases hb : meaning b with
      | error e =>
          have hrest : readAll scope .start (ts ++ thenWord :: [subject, word, label])
              = .error e := by
            rw [readAll_append hread, (hc.thenWord hthen).readAll_cons]
            exact hreads.reported hnames hword rfl hb
          rw [List.cons_append, compileTokens_eq_error hif hhas hrest]
          rfl
      | ok clause =>
          have hclause := Term.Spelled.clause (hreads.named hnames hb) hword
          have hprogram := compileTokens_of_readAll hif hthen hclause hread hc.antecedent
            hc.expecting (List.count_eq_zero.1 hc.count)
          rw [hprogram]
          have hstart : c.program.operands = clauses := hoperands
          simp [Except.map, Compiled.clauses, operands_append, operands_pending, hstart, bind,
            Except.bind, pure, Except.pure]

/-- Names that may stand for a clause are looked up from the left. -/
theorem compileTokens_of_written {a : Antecedent Naming} {b : Naming} {tokens : List String}
    (h : RuleSpelled Naming.Written a b tokens) :
    (compileTokens scope tokens).map Compiled.clauses
      = (a.clauses ++ [b]).mapM scope.resolve :=
  compileTokens_of_reads Naming.Written.reads h

end

end FuzzyLogic.Rule

namespace FuzzyLogic.Model

open FuzzyLogic.Rule

variable {α : Type}

/-- **A rule that is grammatical fails at its first name that means nothing.** The text is a rule
of the grammar in which the names may be anything that is not reserved. If all clauses mean
something, the consequent among them, the rule is compiled to these clauses. If not, the first that
does not is reported, and the error holds the whole text. -/
theorem compile_fails_first_name (m : Model α) (name text : String) (norm : Binding TNorm α)
    (conorm : Binding SNorm α) {a : Antecedent Naming} {b : Naming}
    (h : RuleSpelled Naming.Written a b (tokenize text)) :
    ((∃ r, m.compile name text norm conorm = .ok r) ↔
        ∀ n ∈ a.clauses ++ [b], ∃ c, m.scope.resolve n = .ok c) ∧
      (∀ r, m.compile name text norm conorm = .ok r →
        (a.clauses ++ [b]).map m.scope.resolve = (r.program.operands ++ [r.output]).map .ok) ∧
      ∀ e, m.compile name text norm conorm = .error e ↔
        ∃ before n after f, a.clauses ++ [b] = before ++ n :: after ∧
          (∀ k ∈ before, ∃ c, m.scope.resolve k = .ok c) ∧
          m.scope.resolve n = .error f ∧ e = .rule f text := by
  have hresult : (Rule.compile m.scope text).map Compiled.clauses
      = (a.clauses ++ [b]).mapM m.scope.resolve := compileTokens_of_written h
  unfold compile
  cases hcompile : Rule.compile m.scope text with
  | ok c =>
      rw [hcompile] at hresult
      have hclauses : (a.clauses ++ [b]).mapM m.scope.resolve = .ok c.clauses := hresult.symm
      refine ⟨⟨fun _ => exists_listMapM_eq_ok_iff.1 ⟨_, hclauses⟩, fun _ => ⟨_, rfl⟩⟩, ?_, ?_⟩
      · rintro r hr
        obtain rfl := Except.ok.inj hr
        exact listMapM_eq_ok_iff.1 hclauses
      · refine fun e => ⟨fun he => absurd he (by simp), ?_⟩
        rintro ⟨before, n, after, f, heq, hbefore, hn, -⟩
        have herror := listMapM_eq_error_iff.2 ⟨before, n, after, heq, hbefore, hn⟩
        exact absurd (hclauses.symm.trans herror) (by simp)
  | error f =>
      rw [hcompile] at hresult
      have herror : (a.clauses ++ [b]).mapM m.scope.resolve = .error f := hresult.symm
      refine ⟨⟨fun ⟨r, hr⟩ => absurd hr (by simp), fun hall => ?_⟩,
        fun r hr => absurd hr (by simp), fun e => ?_⟩
      · obtain ⟨cs, hcs⟩ := exists_listMapM_eq_ok_iff.2 hall
        exact absurd (hcs.symm.trans herror) (by simp)
      · constructor
        · rintro he
          obtain rfl := Except.error.inj he
          obtain ⟨before, n, after, heq, hbefore, hn⟩ := listMapM_eq_error_iff.1 herror
          exact ⟨before, n, after, f, heq, hbefore, hn, rfl⟩
        · rintro ⟨before, n, after, g, heq, hbefore, hn, rfl⟩
          have hg := listMapM_eq_error_iff.2 ⟨before, n, after, heq, hbefore, hn⟩
          obtain rfl := Except.error.inj (herror.symm.trans hg)
          rfl

/-- Nothing is wrong with the first clause. Behind the variable that is not there, two labels are
not there either. -/
theorem compile_fails_first_name_boiler :
    boiler.compile "R" "IF Heat is high OR (Steam is dry AND Heat is tepid) THEN Flow is wet"
        (.stock .minimum) (.stock .maximum)
      = .error (.rule (.unknownVariable "Steam")
          "IF Heat is high OR (Steam is dry AND Heat is tepid) THEN Flow is wet") := by
  have hterm (subject label : String) (hsubject : capitals subject ∉ subjectReserved)
      (hlabel : capitals label ∉ labelReserved) :
      (Term.clause (Naming.mk subject label)).Spelled Naming.Written [subject, "is", label] :=
    .clause ⟨hsubject, hlabel, rfl⟩ (by decide)
  have hgroup : (Term.group (.join (.clause ⟨"Steam", "dry"⟩) .and
      (.last (.clause ⟨"Heat", "tepid"⟩)))).Spelled Naming.Written
        ["(", "Steam", "is", "dry", "AND", "Heat", "is", "tepid", ")"] :=
    .group (.join (hterm "Steam" "dry" (by decide) (by decide)) (by decide)
      (.last (hterm "Heat" "tepid" (by decide) (by decide))))
  have hante : (Antecedent.join (.clause ⟨"Heat", "high"⟩) .or
      (.last (.group (.join (.clause ⟨"Steam", "dry"⟩) .and
        (.last (.clause ⟨"Heat", "tepid"⟩)))))).Spelled Naming.Written
        ["Heat", "is", "high", "OR", "(", "Steam", "is", "dry", "AND", "Heat", "is", "tepid",
          ")"] :=
    .join (hterm "Heat" "high" (by decide) (by decide)) (by decide) (.last hgroup)
  have hcons := hterm "Flow" "wet" (by decide) (by decide)
  have hrule : RuleSpelled Naming.Written _ _
      ("IF" :: ["Heat", "is", "high", "OR", "(", "Steam", "is", "dry", "AND", "Heat", "is", "tepid",
        ")"] ++ "THEN" :: ["Flow", "is", "wet"]) :=
    .rule (by decide) hante (by decide) hcons
  have h := compile_fails_first_name boiler "R"
    "IF Heat is high OR (Steam is dry AND Heat is tepid) THEN Flow is wet"
    (.stock .minimum) (.stock .maximum) hrule
  refine (h.2.2 _).2 ⟨[⟨"Heat", "high"⟩], ⟨"Steam", "dry"⟩, [⟨"Heat", "tepid"⟩, ⟨"Flow", "wet"⟩], _,
    rfl, ?_, rfl, rfl⟩
  intro k hk
  obtain rfl := List.mem_singleton.1 hk
  exact ⟨boilerHot, rfl⟩

end FuzzyLogic.Model
