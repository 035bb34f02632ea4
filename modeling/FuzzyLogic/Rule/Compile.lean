import FuzzyLogic.Program
import FuzzyLogic.Rule.Error
import FuzzyLogic.Rule.Token

set_option autoImplicit false

/-! # Compiling a rule

A rule reads `IF antecedent THEN clause`. An antecedent is a sequence of terms joined by AND and
OR, a term is a clause or an antecedent in parentheses, and a clause reads `subject IS label`.

The compiler goes through the tokens once. Its configuration says what is expected next, which
operators and parentheses are still open, and what the program is so far. An operator closes the
open operators that bind tighter than it does, so AND binds tighter than OR and equal operators
group to the right. The compiler knows the variables and labels only through a `Scope`. -/

namespace FuzzyLogic.Rule

/-- The names that a rule may use: variables of type `V`, with labels of type `L`. -/
structure Scope (V L : Type) where
  lookup : String → Option V
  labelOf : V → String → Option L
  nameOf : V → String

/-- The statement `subject IS label`. -/
structure Clause (V L : Type) where
  subject : V
  label : L
  deriving Repr, DecidableEq

/-- What the compiler waits for. Inside a clause it remembers the clause's subject. -/
inductive Expecting (V : Type) where
  | subject
  | isWord (v : V)
  | label (v : V)
  | operator

/-- The expectation as it is reported. -/
def Expecting.kind {V : Type} : Expecting V → Expectation
  | subject => .subject
  | isWord _ => .isWord
  | label _ => .label
  | operator => .operator

/-- What is open: an operator that waits for its right operand, or a parenthesis. -/
inductive Pending where
  | operator (o : Operator)
  | parenthesis
  deriving Repr, DecidableEq

/-- A parenthesis binds less than every operator, so no operator closes it. -/
def Pending.priority : Pending → Nat
  | operator o => o.priority
  | parenthesis => 0

/-- The step that an operator on the stack becomes in the program. -/
def Pending.instruction? {β : Type} : Pending → Option (Instruction β)
  | operator o => some (.operator o)
  | parenthesis => none

/-- The compiler between two tokens. The stack has its top first. -/
structure Configuration (V L : Type) where
  expecting : Expecting V
  afterThen : Bool
  stack : List Pending
  program : Program (Clause V L)
  consequent : Option (Clause V L)

/-- A rule as the compiler leaves it. -/
structure Compiled (V L : Type) where
  program : Program (Clause V L)
  consequent : Clause V L

section

variable {V L : Type}

/-- The configuration behind the word IF. -/
def Configuration.start : Configuration V L :=
  { expecting := .subject, afterThen := false, stack := [], program := [], consequent := none }

/-- Moves the topmost open things that satisfy `p` into the program. -/
def Configuration.closeWhile (c : Configuration V L) (p : Pending → Bool) : Configuration V L :=
  { c with
    stack := c.stack.dropWhile p
    program := c.program ++ (c.stack.takeWhile p).filterMap Pending.instruction? }

/-- The error for a token that does not fit the expectation. -/
def Configuration.unexpected (c : Configuration V L) (token : String) : Error :=
  .unexpectedToken token c.expecting.kind

/-! ## The steps -/

/-- The word THEN ends the antecedent. -/
def Configuration.readThen (c : Configuration V L) (token : String) :
    Except Error (Configuration V L) :=
  if c.afterThen then .error (c.unexpected token)
  else
    match c.expecting with
    | .subject => .error (if c.program.isEmpty then .emptyAntecedent else c.unexpected token)
    | .operator =>
      if c.stack.contains .parenthesis then .error .unbalancedParenthesis
      else .ok { c with afterThen := true, expecting := .subject }
    | _ => .error (c.unexpected token)

/-- A parenthesis opens where a term may begin. -/
def Configuration.readOpening (c : Configuration V L) (token : String) :
    Except Error (Configuration V L) :=
  if c.afterThen then .error (.consequentMustBeVariable token)
  else
    match c.expecting with
    | .subject => .ok { c with stack := .parenthesis :: c.stack }
    | _ => .error (c.unexpected token)

/-- A parenthesis closes behind a term, together with all operators opened inside it. -/
def Configuration.readClosing (c : Configuration V L) (token : String) :
    Except Error (Configuration V L) :=
  if !c.stack.contains .parenthesis then .error .unbalancedParenthesis
  else if c.afterThen then .error (.consequentMustBeVariable token)
  else
    match c.expecting with
    | .operator =>
      let closed := c.closeWhile (· != .parenthesis)
      .ok { closed with stack := closed.stack.drop 1 }
    | _ => .error (c.unexpected token)

/-- An operator closes the tighter ones before it and waits for its right operand. -/
def Configuration.readOperator (c : Configuration V L) (token : String) (o : Operator) :
    Except Error (Configuration V L) :=
  if c.afterThen then .error (.consequentMustBeVariable token)
  else
    match c.expecting with
    | .operator =>
      let closed := c.closeWhile (o.priority < ·.priority)
      .ok { closed with stack := .operator o :: closed.stack, expecting := .subject }
    | _ => .error (c.unexpected token)

/-- Every other token is a part of a clause. In the place of a label the words IF and IS are
names. -/
def Configuration.readWord (scope : Scope V L) (c : Configuration V L) (token : String)
    (keyword : Option Keyword) : Except Error (Configuration V L) :=
  match c.expecting with
  | .isWord v =>
    if keyword = some .isWord then .ok { c with expecting := .label v }
    else .error (c.unexpected token)
  | .label v =>
    match scope.labelOf v token with
    | none => .error (.unknownLabel (scope.nameOf v) token)
    | some l =>
      if c.afterThen then
        .ok { c with consequent := some ⟨v, l⟩, expecting := .operator }
      else
        .ok { c with program := c.program ++ [.operand ⟨v, l⟩], expecting := .operator }
  | .subject =>
    if keyword.isSome then .error (c.unexpected token)
    else
      match scope.lookup token with
      | none => .error (.unknownVariable token)
      | some v => .ok { c with expecting := .isWord v }
  | .operator =>
    .error (if c.afterThen then .consequentMustBeSingleClause token else c.unexpected token)

/-- One token. -/
def Configuration.read (scope : Scope V L) (c : Configuration V L) (token : String) :
    Except Error (Configuration V L) :=
  match TokenKind.ofToken token with
  | .keyword .thenWord => c.readThen token
  | .opening => c.readOpening token
  | .closing => c.readClosing token
  | .keyword (.operator o) => c.readOperator token o
  | .keyword k => c.readWord scope token (some k)
  | .name => c.readWord scope token none

/-- All tokens in turn. -/
def Configuration.readAll (scope : Scope V L) (c : Configuration V L) (tokens : List String) :
    Except Error (Configuration V L) :=
  tokens.foldlM (Configuration.read scope) c

/-- At the end of the text the consequent has to be there; the operators that are still open end
the program. -/
def Configuration.finish (c : Configuration V L) : Except Error (Compiled V L) :=
  match c.consequent with
  | none => .error .missingConsequent
  | some consequent =>
    .ok { program := c.program ++ c.stack.filterMap Pending.instruction?, consequent }

/-! ## The whole rule -/

/-- Whether the word THEN is among the tokens. -/
def hasThen (tokens : List String) : Bool :=
  tokens.any fun token => TokenKind.ofToken token == .keyword .thenWord

/-- Compiles the tokens of a rule. -/
def compileTokens (scope : Scope V L) (tokens : List String) : Except Error (Compiled V L) :=
  if !startsWithIf tokens then .error .missingIf
  else if !hasThen (tokens.drop 1) then .error .missingThen
  else do
    let c ← Configuration.readAll scope .start (tokens.drop 1)
    c.finish

/-- Compiles the text of a rule. -/
def compile (scope : Scope V L) (text : String) : Except Error (Compiled V L) :=
  compileTokens scope (tokenize text)

end

end FuzzyLogic.Rule
