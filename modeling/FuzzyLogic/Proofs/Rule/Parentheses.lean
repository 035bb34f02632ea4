import FuzzyLogic.Proofs.Rule.Acceptance
import FuzzyLogic.Proofs.Rule.Tokenize

set_option autoImplicit false

/-! # Parentheses that do not match

The compiler counts no parentheses. Whether one is open it sees from its stack, where the operators
stand as well, and these are taken off by several rules. As long as parentheses open before clauses
and close behind clauses only, the parentheses on the stack are all the same as many as are open
among the tokens, whatever operators there are. So a chain of clauses with such parentheses is
compiled exactly if they match, and if they do not, this is what is reported. -/

namespace FuzzyLogic.Rule

variable {V L : Type}

open FuzzyLogic.Rule.Configuration

/-! ## Counting -/

/-- The parentheses match: no beginning of the tokens closes more than it opens, and all tokens
together close as many as they open. -/
def Balanced (tokens : List String) : Prop :=
  (∀ front, front <+: tokens → front.count ")" ≤ front.count "(") ∧
    tokens.count "(" = tokens.count ")"

/-- The number of parentheses that are open behind the tokens, if `n` are open before them. There is
none if one is closed that is not open. -/
def openBehind (n : Nat) : List String → Option Nat
  | [] => some n
  | token :: rest =>
    if token = "(" then openBehind (n + 1) rest
    else if token = ")" then
      match n with
      | 0 => none
      | n + 1 => openBehind n rest
    else openBehind n rest

section

variable {n : Nat} {token : String} {rest : List String}

theorem openBehind_opening : openBehind n ("(" :: rest) = openBehind (n + 1) rest := by
  simp [openBehind]

theorem openBehind_closing_zero : openBehind 0 (")" :: rest) = none := by
  simp [openBehind]

theorem openBehind_closing_succ : openBehind (n + 1) (")" :: rest) = openBehind n rest := by
  simp [openBehind]

theorem openBehind_word (h : token ≠ "(" ∧ token ≠ ")") :
    openBehind n (token :: rest) = openBehind n rest := by
  simp [openBehind, h]

theorem openBehind_words {words : List String}
    (h : ∀ word ∈ words, word ≠ "(" ∧ word ≠ ")") :
    openBehind n (words ++ rest) = openBehind n rest := by
  induction words with
  | nil => rfl
  | cons word words ih =>
      obtain ⟨hword, hwords⟩ := List.forall_mem_cons.1 h
      rw [List.cons_append, openBehind_word hword, ih hwords]

end

theorem forall_prefix_cons_iff {token : String} {rest : List String} {p : List String → Prop} :
    (∀ front, front <+: token :: rest → p front) ↔
      p [] ∧ ∀ front, front <+: rest → p (token :: front) := by
  simp only [List.prefix_cons_iff]
  constructor
  · intro h
    exact ⟨h [] (.inl rfl), fun front hfront => h _ (.inr ⟨front, rfl, hfront⟩)⟩
  · rintro ⟨hnil, hcons⟩ front (rfl | ⟨tail, rfl, htail⟩)
    · exact hnil
    · exact hcons tail htail

theorem openBehind_eq_some_iff {n k : Nat} {tokens : List String} :
    openBehind n tokens = some k ↔
      (∀ front, front <+: tokens → front.count ")" ≤ n + front.count "(") ∧
        n + tokens.count "(" = k + tokens.count ")" := by
  induction tokens generalizing n with
  | nil => simp [openBehind]
  | cons token rest ih =>
      rw [forall_prefix_cons_iff]
      by_cases ho : token = "("
      · subst ho
        rw [openBehind_opening, ih]
        simp [Nat.add_assoc, Nat.add_comm 1]
      · by_cases hc : token = ")"
        · subst hc
          cases n with
          | zero =>
              -- The first token alone closes more than it opens.
              rw [openBehind_closing_zero]
              simp only [reduceCtorEq, false_iff]
              rintro ⟨⟨-, hfront⟩, -⟩
              exact absurd (hfront [] List.nil_prefix) (by simp)
          | succ n =>
              rw [openBehind_closing_succ, ih]
              simp [Nat.add_right_comm n 1, ← Nat.add_assoc]
        · rw [openBehind_word ⟨ho, hc⟩, ih]
          simp [List.count_cons_of_ne ho, List.count_cons_of_ne hc]

theorem balanced_iff {tokens : List String} : Balanced tokens ↔ openBehind 0 tokens = some 0 := by
  rw [openBehind_eq_some_iff]
  simp [Balanced]

instance (tokens : List String) : Decidable (Balanced tokens) :=
  decidable_of_iff _ balanced_iff.symm

/-- It is not enough to close as many as are opened. -/
example : ¬Balanced [")", "Heat", "is", "high", "("] := by decide

/-! ## Chains of clauses -/

/-- Where one stands in a chain of clauses: before a clause or behind one. -/
inductive Place where
  | before
  | behind

/-- The tokens from a place to the end of a chain of clauses with parentheses. Without them the
tokens are clauses joined by operators. Every opening parenthesis stands before another one or before
the subject of a clause, and every closing one behind another one or behind the label of a clause,
but they need not match. -/
inductive Fenced (scope : Scope V L) : Place → List String → Prop
  | opening {ts : List String} (h : Fenced scope .before ts) : Fenced scope .before ("(" :: ts)
  | clause {subject word label : String} {b : Clause V L} {ts : List String}
      (hnames : scope.Names subject label b) (hword : capitals word = "IS")
      (h : Fenced scope .behind ts) : Fenced scope .before (subject :: word :: label :: ts)
  | closing {ts : List String} (h : Fenced scope .behind ts) : Fenced scope .behind (")" :: ts)
  | join {word : String} {o : Operator} {ts : List String} (hword : capitals word = o.name)
      (h : Fenced scope .before ts) : Fenced scope .behind (word :: ts)
  | nil : Fenced scope .behind []

/-! ## Steps -/

/-- What the compiler waits for at a place. -/
def Place.expecting : Place → Expecting V
  | before => .subject
  | behind => .operator

namespace Configuration

/-- The compiler stands in an antecedent at the place, and `n` parentheses are open. -/
structure At (c : Configuration V L) (place : Place) (n : Nat) : Prop where
  antecedent : c.afterThen = false
  expecting : c.expecting = place.expecting
  count : c.stack.count .parenthesis = n

section

variable {scope : Scope V L} {c : Configuration V L} {n : Nat}

theorem At.opening (h : c.At .before n) : ∃ d, Step scope c "(" d ∧ d.At .before (n + 1) :=
  ⟨_, .opening rfl h.antecedent h.expecting,
    ⟨h.antecedent, h.expecting, by rw [List.count_cons_self, h.count]⟩⟩

theorem At.closing (h : c.At .behind (n + 1)) : ∃ d, Step scope c ")" d ∧ d.At .behind n := by
  have hmem : .parenthesis ∈ c.stack := List.count_pos_iff.1 (by rw [h.count]; omega)
  obtain ⟨ops, below, hstack⟩ := exists_of_parenthesis_mem hmem
  have hcount := h.count
  rw [hstack, count_pendingOperators_append, List.count_cons_self] at hcount
  exact ⟨_, .closing rfl h.antecedent h.expecting hstack,
    ⟨h.antecedent, h.expecting, Nat.succ.inj hcount⟩⟩

theorem At.join {word : String} {o : Operator} (h : c.At .behind n)
    (hword : capitals word = o.name) : ∃ d, Step scope c word d ∧ d.At .before n := by
  obtain ⟨ops, below, hstack, hops, hbelow⟩ := exists_cut o c.stack
  have hcount := h.count
  rw [hstack, count_pendingOperators_append] at hcount
  exact ⟨_, .operator hword h.antecedent h.expecting hstack hops hbelow,
    ⟨h.antecedent, rfl, by simpa using hcount⟩⟩

theorem At.clause {subject word label : String} {b : Clause V L} (h : c.At .before n)
    (hnames : scope.Names subject label b) (hword : capitals word = "IS") :
    ∃ d, readAll scope c [subject, word, label] = .ok d ∧ d.At .behind n :=
  ⟨_, (Term.Spelled.clause hnames hword).readAll c h.expecting h.antecedent,
    ⟨h.antecedent, rfl, h.count⟩⟩

/-- A parenthesis that is not open cannot be closed, whatever else the stack holds. -/
theorem At.read_closing_zero (h : c.At .behind 0) :
    c.read scope ")" = .error .unbalancedParenthesis := by
  have hstack : .parenthesis ∉ c.stack := List.count_eq_zero.1 h.count
  have hkind : TokenKind.ofToken ")" = .closing := rfl
  simp [read, hkind, readClosing, hstack]

/-- An open parenthesis is missed when THEN is read. -/
theorem At.read_thenWord_succ {thenWord : String} (h : c.At .behind (n + 1))
    (hthen : capitals thenWord = "THEN") :
    c.read scope thenWord = .error .unbalancedParenthesis := by
  have hstack : .parenthesis ∈ c.stack := List.count_pos_iff.1 (by rw [h.count]; omega)
  have hexp : c.expecting = .operator := h.expecting
  rw [read, TokenKind.ofToken_eq_keyword_iff (k := .thenWord).2 hthen]
  simp [readThen, h.antecedent, hexp, hstack]

end

end Configuration

/-! ## Runs -/

section

variable {scope : Scope V L}

/-- No parenthesis is a part of a clause. -/
theorem Scope.Names.ne_parenthesis {subject word label : String} {b : Clause V L}
    (hnames : scope.Names subject label b) (hword : capitals word = "IS") :
    ∀ token ∈ [subject, word, label], token ≠ "(" ∧ token ≠ ")" := by
  simp only [List.forall_mem_cons]
  exact ⟨ne_parenthesis_of_free (by decide) hnames.subject_free,
    ne_parenthesis_of_keyword (k := .isWord) hword,
    ne_parenthesis_of_free (by decide) hnames.label_free, by simp⟩

/-- What the compiler has made of tokens behind which so many parentheses are open. -/
def Verdict (result : Except Error (Configuration V L)) : Option Nat → Prop
  | some n => ∃ d, result = .ok d ∧ d.At .behind n
  | none => result = .error .unbalancedParenthesis

/-- **The parentheses on the stack are those that are open among the tokens.** -/
theorem Fenced.verdict {place : Place} {ts : List String} (h : Fenced scope place ts)
    {c : Configuration V L} {n : Nat} (hc : c.At place n) :
    Verdict (Configuration.readAll scope c ts) (openBehind n ts) := by
  induction h generalizing c n with
  | opening h ih =>
      obtain ⟨d, hd, hat⟩ := hc.opening
      rw [hd.readAll_cons, openBehind_opening]
      exact ih hat
  | @clause subject word label b ts hnames hword h ih =>
      obtain ⟨d, hd, hat⟩ := hc.clause hnames hword
      have hrest : Configuration.readAll scope c (subject :: word :: label :: ts)
          = Configuration.readAll scope d ts := readAll_append hd
      have hopen : openBehind n (subject :: word :: label :: ts) = openBehind n ts :=
        openBehind_words (hnames.ne_parenthesis hword)
      rw [hrest, hopen]
      exact ih hat
  | closing h ih =>
      cases n with
      | zero =>
          rw [readAll_cons_of_error hc.read_closing_zero, openBehind_closing_zero]
          rfl
      | succ n =>
          obtain ⟨d, hd, hat⟩ := hc.closing
          rw [hd.readAll_cons, openBehind_closing_succ]
          exact ih hat
  | @join word o ts hword h ih =>
      obtain ⟨d, hd, hat⟩ := hc.join hword
      rw [hd.readAll_cons, openBehind_word (ne_parenthesis_of_keyword (k := .operator o) hword)]
      exact ih hat
  | nil => exact ⟨c, rfl, hc⟩

end

/-! ## Whole rules -/

section

variable {scope : Scope V L}

theorem compileTokens_eq_error {ifWord : String} {rest : List String} {e : Error}
    (hif : capitals ifWord = "IF") (hthen : hasThen rest = true)
    (h : Configuration.readAll scope .start rest = .error e) :
    compileTokens scope (ifWord :: rest) = .error e := by
  rw [compileTokens, List.drop_one, List.tail_cons, startsWithIf_cons.2 hif, hthen, h]
  rfl

/-- A chain with parentheses before THEN and a clause behind it are a rule exactly if the
parentheses match, and nothing else can be wrong with them. -/
theorem compileTokens_of_fenced {ifWord thenWord : String} {ts us : List String} {b : Clause V L}
    (hif : capitals ifWord = "IF") (hthen : capitals thenWord = "THEN")
    (hts : Fenced scope .before ts) (hcons : Term.Spelled scope.Names (.clause b) us) :
    (Balanced ts → ∃ r, compileTokens scope (ifWord :: ts ++ thenWord :: us) = .ok r) ∧
      (¬Balanced ts →
        compileTokens scope (ifWord :: ts ++ thenWord :: us) = .error .unbalancedParenthesis) := by
  have hhas : hasThen (ts ++ thenWord :: us) = true :=
    hasThen_eq_true_iff.2 ⟨thenWord, by simp, hthen⟩
  have hverdict := hts.verdict (c := .start) (n := 0) ⟨rfl, rfl, rfl⟩
  rw [balanced_iff]
  cases hopen : openBehind 0 ts with
  | none =>
      rw [hopen] at hverdict
      exact ⟨fun h => absurd h (by simp),
        fun _ => compileTokens_eq_error hif hhas (readAll_append_of_error hverdict _)⟩
  | some n =>
      rw [hopen] at hverdict
      obtain ⟨d, hd, hat⟩ := hverdict
      cases n with
      | zero =>
          have hok := compileTokens_of_readAll hif hthen hcons hd hat.antecedent hat.expecting
            (List.count_eq_zero.1 hat.count)
          exact ⟨fun _ => ⟨_, hok⟩, fun h => absurd rfl h⟩
      | succ n =>
          have hread : Configuration.readAll scope .start (ts ++ thenWord :: us)
              = .error .unbalancedParenthesis :=
            (readAll_append hd).trans (readAll_cons_of_error (hat.read_thenWord_succ hthen) us)
          exact ⟨fun h => absurd h (by simp), fun _ => compileTokens_eq_error hif hhas hread⟩

/-! ## A parenthesis less -/

mutual

/-- A term is a part of a chain in which all parentheses stand where they may. -/
theorem Term.Spelled.fenced {t : Term (Clause V L)} {ts us : List String}
    (h : t.Spelled scope.Names ts) (hus : Fenced scope .behind us) :
    Fenced scope .before (ts ++ us) := by
  cases h with
  | clause hnames hword => exact .clause hnames hword hus
  | @group a ts ha =>
      have hgroup : Fenced scope .before (ts ++ ")" :: us) := ha.fenced (.closing hus)
      simpa using Fenced.opening hgroup

theorem Antecedent.Spelled.fenced {a : Antecedent (Clause V L)} {ts us : List String}
    (h : a.Spelled scope.Names ts) (hus : Fenced scope .behind us) :
    Fenced scope .before (ts ++ us) := by
  cases h with
  | last ht => exact ht.fenced hus
  | @join t ts vs word o rest ht hword hrest =>
      rw [List.append_assoc, List.cons_append]
      exact ht.fenced (.join hword (hrest.fenced hus))

end

/-- The token is a parenthesis. -/
def IsParenthesis (token : String) : Prop :=
  token = "(" ∨ token = ")"

theorem IsParenthesis.notMem {p : String} (hp : IsParenthesis p) {words : List String}
    (h : ∀ word ∈ words, word ≠ "(" ∧ word ≠ ")") : p ∉ words :=
  fun hmem => hp.elim (h p hmem).1 (h p hmem).2

/-- What is not among the first words stands behind them. -/
theorem exists_append_of_notMem (words : List String) {rest ts us : List String} {p : String}
    (hp : p ∉ words) (h : words ++ rest = ts ++ p :: us) :
    ∃ more, ts = words ++ more ∧ rest = more ++ p :: us := by
  obtain ⟨more, hts, hrest⟩ | ⟨more, hwords, hus⟩ := List.append_eq_append_iff.1 h
  · exact ⟨more, hts, hrest⟩
  · cases more with
    | nil => exact ⟨[], by simpa using hwords.symm, hus.symm⟩
    | cons token more =>
        obtain ⟨rfl, rfl⟩ := List.cons.inj hus
        exact absurd (by simp [hwords]) hp

/-- Without one of its parentheses a chain is still one. -/
theorem Fenced.delete {place : Place} {tokens ts us : List String} {p : String}
    (h : Fenced scope place tokens) (hp : IsParenthesis p) (hdelete : tokens = ts ++ p :: us) :
    Fenced scope place (ts ++ us) := by
  induction h generalizing ts with
  | opening h ih =>
      cases ts with
      | nil =>
          obtain ⟨rfl, rfl⟩ := List.cons.inj hdelete
          exact h
      | cons token ts =>
          obtain ⟨rfl, hrest⟩ := List.cons.inj hdelete
          exact .opening (ih hrest)
  | @clause subject word label b rest hnames his h ih =>
      obtain ⟨more, rfl, hrest⟩ :=
        exists_append_of_notMem [subject, word, label] (hp.notMem (hnames.ne_parenthesis his))
          hdelete
      exact .clause hnames his (ih hrest)
  | closing h ih =>
      cases ts with
      | nil =>
          obtain ⟨rfl, rfl⟩ := List.cons.inj hdelete
          exact h
      | cons token ts =>
          obtain ⟨rfl, hrest⟩ := List.cons.inj hdelete
          exact .closing (ih hrest)
  | @join word o rest hjoin h ih =>
      have hne := ne_parenthesis_of_keyword (k := .operator o) hjoin
      obtain ⟨more, rfl, hrest⟩ :=
        exists_append_of_notMem [word] (hp.notMem (by simpa using hne)) hdelete
      exact .join hjoin (ih hrest)
  | nil => exact absurd hdelete (by simp)

/-- Without one of its parentheses a balanced list is not balanced. -/
theorem Balanced.not_delete {ts us : List String} {p : String} (hp : IsParenthesis p)
    (h : Balanced (ts ++ p :: us)) : ¬Balanced (ts ++ us) := by
  intro hless
  have hall := h.2
  have hfew := hless.2
  simp only [List.count_append] at hall hfew
  obtain rfl | rfl := hp
  · rw [List.count_cons_self, List.count_cons_of_ne (by decide)] at hall
    omega
  · rw [List.count_cons_self, List.count_cons_of_ne (by decide)] at hall
    omega

/-- What is not among the last words stands before them. -/
theorem exists_append_of_notMem_right {words front ts us : List String} {p : String}
    (hp : p ∉ words) (h : front ++ words = ts ++ p :: us) :
    ∃ more, front = ts ++ p :: more ∧ us = more ++ words := by
  obtain ⟨more, -, hwords⟩ | ⟨more, hfront, hus⟩ := List.append_eq_append_iff.1 h
  · exact absurd (by simp [hwords]) hp
  · cases more with
    | nil =>
        have hhead : words = p :: us := by simpa using hus.symm
        exact absurd (by simp [hhead]) hp
    | cons token more =>
        obtain ⟨rfl, rfl⟩ := List.cons.inj hus
        exact ⟨more, hfront, rfl⟩

/-- Where a parenthesis stands in a rule: before THEN. -/
theorem RuleSpelled.exists_antecedent {a : Antecedent (Clause V L)} {b : Clause V L}
    {before after : List String} {p : String} (hp : IsParenthesis p)
    (h : RuleSpelled scope.Names a b (before ++ p :: after)) :
    ∃ ifWord thenWord ts us vs, before = ifWord :: ts ∧ after = us ++ thenWord :: vs ∧
      capitals ifWord = "IF" ∧ capitals thenWord = "THEN" ∧
      a.Spelled scope.Names (ts ++ p :: us) ∧ Term.Spelled scope.Names (.clause b) vs := by
  generalize htokens : before ++ p :: after = tokens at h
  obtain @⟨ifWord, thenWord, ts, vs, hif, hante, hthen, hcons⟩ := h
  have hvs : ∀ word ∈ vs, word ≠ "(" ∧ word ≠ ")" := by
    cases hcons with
    | clause hnames his => exact hnames.ne_parenthesis his
  have hnif := ne_parenthesis_of_keyword (k := .ifWord) hif
  have hnthen := ne_parenthesis_of_keyword (k := .thenWord) hthen
  obtain ⟨more, rfl, hrest⟩ :=
    exists_append_of_notMem [ifWord] (hp.notMem (by simpa using hnif)) htokens.symm
  obtain ⟨us, rfl, rfl⟩ :=
    exists_append_of_notMem_right (hp.notMem (List.forall_mem_cons.2 ⟨hnthen, hvs⟩)) hrest
  exact ⟨ifWord, thenWord, more, us, vs, rfl, rfl, hif, hthen, hante, hcons⟩

/-- Without one of its parentheses a rule is not balanced, and this is reported. -/
theorem compileTokens_delete {before after : List String} {p : String} {r : Compiled V L}
    (hp : IsParenthesis p) (h : compileTokens scope (before ++ p :: after) = .ok r) :
    compileTokens scope (before ++ after) = .error .unbalancedParenthesis := by
  obtain ⟨a, hspelled, -⟩ := spelled_of_compileTokens h
  obtain ⟨ifWord, thenWord, ts, us, vs, rfl, rfl, hif, hthen, hante, hcons⟩ :=
    hspelled.exists_antecedent hp
  have hfenced : Fenced scope .before (ts ++ p :: us ++ []) := hante.fenced .nil
  rw [List.append_nil] at hfenced
  -- The whole rule is compiled, so its parentheses match.
  have hbalanced : Balanced (ts ++ p :: us) := by
    refine Decidable.byContradiction fun hnot => ?_
    have herror := (compileTokens_of_fenced hif hthen hfenced hcons).2 hnot
    simp only [List.cons_append, List.append_assoc] at h herror
    exact absurd (h.symm.trans herror) (by simp)
  have herror := (compileTokens_of_fenced hif hthen (hfenced.delete hp rfl) hcons).2
    (hbalanced.not_delete hp)
  simpa using herror

end

/-- **The verdict on parentheses.** A rule whose antecedent is a chain of clauses with parentheses
that open before clauses and close behind clauses is compiled exactly if the parentheses match, and
that they do not is the only thing that is reported otherwise. So it is in particular when a
parenthesis is taken out of a rule that is compiled, unless two words become one by that; with a
blank in its place they never do. -/
theorem compile_verdict (scope : Scope V L) :
    (∀ (text ifWord thenWord : String) (ts us : List String) (b : Clause V L),
      tokenize text = ifWord :: ts ++ thenWord :: us → capitals ifWord = "IF" →
      capitals thenWord = "THEN" → Fenced scope .before ts →
      Term.Spelled scope.Names (.clause b) us →
      ((∃ r, compile scope text = .ok r) ↔ Balanced ts) ∧
        (¬Balanced ts → compile scope text = .error .unbalancedParenthesis)) ∧
    ∀ (before p after other : String) (r : Compiled V L),
      compile scope (before ++ p ++ after) = .ok r → IsParenthesis p →
      tokenize other = tokenize before ++ tokenize after →
      compile scope other = .error .unbalancedParenthesis := by
  refine ⟨fun text ifWord thenWord ts us b htext hif hthen hts hus => ?_,
    fun before p after other r hr hp hother => ?_⟩
  · obtain ⟨hok, herror⟩ := compileTokens_of_fenced hif hthen hts hus
    rw [compile, htext]
    refine ⟨⟨fun ⟨r, hr⟩ => Decidable.byContradiction fun hnot => ?_, hok⟩, herror⟩
    exact absurd (hr.symm.trans (herror hnot)) (by simp)
  · rw [compile, tokenize_append_parenthesis hp] at hr
    rw [compile, hother]
    exact compileTokens_delete hp hr

theorem compile_verdict_boiler :
    (∃ r, compile Model.boiler.scope "IF ((Heat is high) or Flow is low) THEN Flow is low"
        = .ok r) ∧
      compile Model.boiler.scope "IF ((Heat is high) or Flow is low THEN Flow is low"
        = .error .unbalancedParenthesis ∧
      compile Model.boiler.scope "IF (Heat is high) or Flow is low) THEN Flow is low"
        = .error .unbalancedParenthesis := by
  have hhot := Model.boilerHot_named
  have hdry := Model.boilerDry_named
  have his : capitals "is" = "IS" := by decide
  have hor : capitals "or" = Operator.or.name := by decide
  have hif : capitals "IF" = "IF" := by decide
  have hthen : capitals "THEN" = "THEN" := by decide
  have hcons : (Term.clause Model.boilerDry).Spelled Model.boiler.scope.Names
      ["Flow", "is", "low"] := .clause hdry his
  obtain ⟨hverdict, hdelete⟩ := compile_verdict Model.boiler.scope
  have hok := (hverdict "IF ((Heat is high) or Flow is low) THEN Flow is low" "IF" "THEN"
    ["(", "(", "Heat", "is", "high", ")", "or", "Flow", "is", "low", ")"] _ _ (by decide +kernel)
    hif hthen
    (.opening (.opening (.clause hhot his
      (.closing (.join hor (.clause hdry his (.closing .nil)))))))
    hcons).1.2 (by decide)
  have hopen := (hverdict "IF ((Heat is high) or Flow is low THEN Flow is low" "IF" "THEN"
    ["(", "(", "Heat", "is", "high", ")", "or", "Flow", "is", "low"] _ _ (by decide +kernel)
    hif hthen
    (.opening (.opening (.clause hhot his
      (.closing (.join hor (.clause hdry his .nil))))))
    hcons).2 (by decide)
  refine ⟨hok, hopen, ?_⟩
  obtain ⟨r, hr⟩ := hok
  exact hdelete "IF (" "(" "Heat is high) or Flow is low) THEN Flow is low" _ r hr (.inl rfl)
    (by decide +kernel)

end FuzzyLogic.Rule
