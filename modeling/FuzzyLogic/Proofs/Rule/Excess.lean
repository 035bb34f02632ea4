import FuzzyLogic.Proofs.Rule.Parentheses
import FuzzyLogic.Proofs.Rule.Registers

set_option autoImplicit false

/-! # What follows a complete rule

A rule ends with its consequent, and then nothing may follow. Whatever rule it is and whatever comes
later, the first token behind it is the one that is reported, and its kind alone decides how: all
that the compiler still knows is that it is behind a clause, behind THEN and outside of
parentheses. -/

namespace FuzzyLogic.Rule

variable {V L : Type} {scope : Scope V L}

namespace Configuration

/-- The compiler stands behind a complete rule. -/
structure Complete (c : Configuration V L) : Prop where
  after : c.afterThen = true
  expecting : c.expecting = .operator
  closed : .parenthesis ∉ c.stack

variable {c : Configuration V L} {token : String}

/-- A run that ends with a consequent ends behind a complete rule. -/
theorem complete_of_readAll {tokens : List String} {r : Compiled V L}
    (h : readAll scope .start tokens = .ok c) (hfinish : c.finish = .ok r) : c.Complete := by
  have hclosed := (thenClosed_of_readAll h).closed
  cases Grammatical.readAll h with
  | complete hafter hexp => exact ⟨hafter, hexp, hclosed hafter⟩
  | antecedent _ hnone => simp [finish, hnone] at hfinish
  | consequent _ hnone => simp [finish, hnone] at hfinish

namespace Complete

theorem read_thenWord (h : c.Complete) (hword : capitals token = "THEN") :
    c.read scope token = .error (.unexpectedToken token .operator) := by
  rw [read, TokenKind.ofToken_eq_keyword_iff (k := .thenWord).2 hword]
  simp [readThen, unexpected, h.after, h.expecting, Expecting.kind]

theorem read_opening (h : c.Complete) :
    c.read scope "(" = .error (.consequentMustBeVariable "(") := by
  rw [read, TokenKind.ofToken_eq_opening_iff.2 rfl]
  simp [readOpening, h.after]

/-- No parenthesis is open behind a rule. -/
theorem read_closing (h : c.Complete) : c.read scope ")" = .error .unbalancedParenthesis := by
  rw [read, TokenKind.ofToken_eq_closing_iff.2 rfl]
  simp [readClosing, h.closed]

theorem read_operator {o : Operator} (h : c.Complete) (hword : capitals token = o.name) :
    c.read scope token = .error (.consequentMustBeVariable token) := by
  rw [read, TokenKind.ofToken_eq_keyword_iff (k := .operator o).2 hword]
  simp [readOperator, h.after]

/-- The words IF and IS are no different from names here. -/
theorem read_word (h : c.Complete) (hword : capitals token ∉ labelReserved) :
    c.read scope token = .error (.consequentMustBeSingleClause token) := by
  rw [read]
  rcases TokenKind.not_mem_labelReserved_iff.1 hword with hk | hk | hk <;>
    simp [hk, readWord, h.after, h.expecting]

end Complete

end Configuration

open FuzzyLogic.Rule.Configuration

theorem hasThen_of_compileTokens {ifWord : String} {rest : List String} {r : Compiled V L}
    (h : compileTokens scope (ifWord :: rest) = .ok r) : hasThen rest = true := by
  unfold compileTokens at h
  split at h
  · exact absurd h (by simp)
  · split at h
    · exact absurd h (by simp)
    · next hthen => simpa using hthen

/-- Behind the tokens of a rule the next token is the last that is read. -/
theorem compileTokens_append_of_error {tokens rest : List String} {token : String}
    {r : Compiled V L} {e : Error} (hr : compileTokens scope tokens = .ok r)
    (he : ∀ c : Configuration V L, c.Complete → c.read scope token = .error e) :
    compileTokens scope (tokens ++ token :: rest) = .error e := by
  obtain ⟨ifWord, front, c, rfl, hif, hread, hfinish⟩ := compileTokens_eq_ok_iff.1 hr
  have herror : readAll scope .start (front ++ token :: rest) = .error e := by
    rw [readAll_append hread]
    exact readAll_cons_of_error (he c (complete_of_readAll hread hfinish)) rest
  have hthen : hasThen (front ++ token :: rest) = true := by
    rw [hasThen, List.any_append, ← hasThen, hasThen_of_compileTokens hr, Bool.true_or]
  exact compileTokens_eq_error hif hthen herror

/-- **The first token behind a rule is reported, as its kind demands.** A second THEN is unexpected
where an operator could stand; an operator or a parenthesis that opens would go on with the
consequent, which is one variable only; a parenthesis that closes has nothing to close; and
everything else, the words IF and IS among it, is too much for a single clause. -/
theorem compile_of_excess {text other token : String} {rest : List String} {r : Compiled V L}
    (hr : compile scope text = .ok r) (hother : tokenize other = tokenize text ++ token :: rest) :
    (capitals token = "THEN" →
        compile scope other = .error (.unexpectedToken token .operator)) ∧
      (token = "(" ∨ capitals token = "AND" ∨ capitals token = "OR" →
        compile scope other = .error (.consequentMustBeVariable token)) ∧
      (token = ")" → compile scope other = .error .unbalancedParenthesis) ∧
      (capitals token ∉ labelReserved →
        compile scope other = .error (.consequentMustBeSingleClause token)) := by
  have herror {e : Error}
      (he : ∀ c : Configuration V L, c.Complete → c.read scope token = .error e) :
      compile scope other = .error e := by
    rw [compile, hother]
    exact compileTokens_append_of_error hr he
  refine ⟨fun hword => herror fun c hc => hc.read_thenWord hword, ?_, ?_,
    fun hword => herror fun c hc => hc.read_word hword⟩
  · rintro (rfl | hword | hword)
    · exact herror fun c hc => hc.read_opening
    · exact herror fun c hc => hc.read_operator (o := .and) hword
    · exact herror fun c hc => hc.read_operator (o := .or) hword
  · rintro rfl
    exact herror fun c hc => hc.read_closing

/-- One rule, and behind it, with more to come, a token of each kind. -/
theorem compile_of_excess_boiler :
    (∃ r, compile Model.boiler.scope "IF Heat is high THEN Flow is low" = .ok r) ∧
      compile Model.boiler.scope "IF Heat is high THEN Flow is low Then (x"
        = .error (.unexpectedToken "Then" .operator) ∧
      compile Model.boiler.scope "IF Heat is high THEN Flow is low(x)"
        = .error (.consequentMustBeVariable "(") ∧
      compile Model.boiler.scope "IF Heat is high THEN Flow is low or THEN"
        = .error (.consequentMustBeVariable "or") ∧
      compile Model.boiler.scope "IF Heat is high THEN Flow is low)"
        = .error .unbalancedParenthesis ∧
      compile Model.boiler.scope "IF Heat is high THEN Flow is low Heat is high"
        = .error (.consequentMustBeSingleClause "Heat") := by
  obtain ⟨r, hr⟩ : ∃ r, compile Model.boiler.scope "IF Heat is high THEN Flow is low" = .ok r :=
    ⟨_, rfl⟩
  have hthen : tokenize "IF Heat is high THEN Flow is low Then (x"
      = tokenize "IF Heat is high THEN Flow is low" ++ "Then" :: ["(", "x"] := by decide +kernel
  have hopening : tokenize "IF Heat is high THEN Flow is low(x)"
      = tokenize "IF Heat is high THEN Flow is low" ++ "(" :: ["x", ")"] := by decide +kernel
  have hor : tokenize "IF Heat is high THEN Flow is low or THEN"
      = tokenize "IF Heat is high THEN Flow is low" ++ "or" :: ["THEN"] := by decide +kernel
  have hclosing : tokenize "IF Heat is high THEN Flow is low)"
      = tokenize "IF Heat is high THEN Flow is low" ++ ")" :: [] := by decide +kernel
  have hname : tokenize "IF Heat is high THEN Flow is low Heat is high"
      = tokenize "IF Heat is high THEN Flow is low" ++ "Heat" :: ["is", "high"] := by
    decide +kernel
  exact ⟨⟨r, hr⟩, (compile_of_excess hr hthen).1 (by decide),
    (compile_of_excess hr hopening).2.1 (.inl rfl),
    (compile_of_excess hr hor).2.1 (.inr (.inr (by decide))),
    (compile_of_excess hr hclosing).2.2.1 rfl, (compile_of_excess hr hname).2.2.2 (by decide)⟩

/-- The word IF behind a rule is not called unexpected. -/
theorem compile_excess_ifWord :
    (compile Model.boiler.scope "IF Heat is high THEN Flow is low").toOption.isSome = true ∧
      compile Model.boiler.scope "IF Heat is high THEN Flow is low IF"
        = .error (.consequentMustBeSingleClause "IF") ∧
      compile Model.boiler.scope "IF Heat is high THEN Flow is low IF"
        ≠ .error (.unexpectedToken "IF" .operator) := by
  have herror : compile Model.boiler.scope "IF Heat is high THEN Flow is low IF"
      = .error (.consequentMustBeSingleClause "IF") := rfl
  refine ⟨rfl, herror, ?_⟩
  rw [herror]
  simp

end FuzzyLogic.Rule
