import FuzzyLogic.Model.Basic
import FuzzyLogic.Proofs.Failure
import FuzzyLogic.Proofs.Rule.Step

set_option autoImplicit false

/-! # The compiler with plain registers

A `Configuration` is never without the subject of the clause that it is in, and it takes things off
its stack with functions that every stack admits. A compiler with plain registers is not so safe. It
keeps the variable that was looked up last in a register, which is empty at first and never cleared,
and it takes the top off its stack whether or not there is one. Here is that compiler, with the
places where it would break down. It makes of every text exactly what the compiler makes of it, so
it never does. -/

namespace FuzzyLogic.Rule

variable {V L : Type}

/-! ## The registers -/

/-- How the compiler would break down. -/
inductive Breakdown where
  /-- A label is to be looked up, and no variable has been. -/
  | noVariable
  /-- The top of an empty stack is asked for. -/
  | emptyStack
  /-- A parenthesis is moved into the program. -/
  | strayParenthesis
  deriving Repr, DecidableEq

/-- Why the compiler stops: it refuses the rule, or it breaks down. -/
inductive Stop where
  | refused (e : Error)
  | broken (b : Breakdown)
  deriving Repr, DecidableEq

/-- What the compiler holds between two tokens. The stack has its top first. -/
structure Registers (V L : Type) where
  state : Expectation
  /-- The variable that was looked up last. -/
  found : Option V
  afterThen : Bool
  stack : List Pending
  program : Program (Clause V L)
  consequent : Option (Clause V L)

/-! ## Moving things off the stack -/

section

variable {β : Type}

/-- What becomes of something that is taken off the stack. -/
def Pending.moved : Pending → Except Stop (Instruction β)
  | operator o => .ok (.operator o)
  | parenthesis => .error (.broken .strayParenthesis)

/-- Moves what is on the stack into the program until a parenthesis is on top, and drops it. Nothing
asks whether there is one. -/
def moveToParenthesis (program : Program β) : List Pending → Except Stop (List Pending × Program β)
  | [] => .error (.broken .emptyStack)
  | .parenthesis :: below => .ok (below, program)
  | .operator o :: below => moveToParenthesis (program ++ [.operator o]) below

/-- Moves what binds tighter than an operator into the program as long as there is something on the
stack. -/
def moveTighter (o : Operator) (program : Program β) :
    List Pending → Except Stop (List Pending × Program β)
  | [] => .ok ([], program)
  | p :: below =>
    if o.priority < p.priority then do
      let step ← p.moved
      moveTighter o (program ++ [step]) below
    else .ok (p :: below, program)

/-- Moves everything into the program. -/
def moveAll (program : Program β) : List Pending → Except Stop (Program β)
  | [] => .ok program
  | p :: below => do
    let step ← p.moved
    moveAll (program ++ [step]) below

theorem moveToParenthesis_eq (program : Program β) (ops : List Operator) (below : List Pending) :
    moveToParenthesis program (pendingOperators ops ++ .parenthesis :: below)
      = .ok (below, program ++ operatorCode ops) := by
  induction ops generalizing program with
  | nil => simp [pendingOperators, operatorCode, moveToParenthesis]
  | cons o ops ih =>
      have h := ih (program ++ [.operator o])
      simpa [pendingOperators, operatorCode, moveToParenthesis] using h

/-- Without a parenthesis on the stack it would end in a breakdown. -/
example (program : Program β) :
    moveToParenthesis program [.operator .and] = .error (.broken .emptyStack) := rfl

theorem moveTighter_eq {o : Operator} (program : Program β) {ops : List Operator}
    {below : List Pending} (hops : ∀ q ∈ ops, o.priority < q.priority)
    (hbelow : ∀ q ∈ below.head?, q.priority ≤ o.priority) :
    moveTighter o program (pendingOperators ops ++ below)
      = .ok (below, program ++ operatorCode ops) := by
  induction ops generalizing program with
  | nil =>
      cases below with
      | nil => simp [pendingOperators, operatorCode, moveTighter]
      | cons p below =>
          have hp : ¬o.priority < p.priority := Nat.not_lt.2 (hbelow p rfl)
          simp [pendingOperators, operatorCode, moveTighter, hp]
  | cons q ops ih =>
      obtain ⟨hq, hrest⟩ := List.forall_mem_cons.1 hops
      have hpriority : o.priority < (Pending.operator q).priority := hq
      have h := ih (program ++ [.operator q]) hrest
      rw [pendingOperators, List.map_cons, List.cons_append, moveTighter, if_pos hpriority]
      simpa [pendingOperators, operatorCode, Pending.moved, bind, Except.bind] using h

theorem moveAll_eq (program : Program β) {stack : List Pending} (h : .parenthesis ∉ stack) :
    moveAll program stack = .ok (program ++ stack.filterMap Pending.instruction?) := by
  induction stack generalizing program with
  | nil => simp [moveAll]
  | cons p below ih =>
      obtain ⟨hp, hbelow⟩ := List.ne_and_not_mem_of_not_mem_cons h
      cases p with
      | operator o =>
          have hrest := ih (program ++ [.operator o]) hbelow
          simpa [moveAll, Pending.moved, Pending.instruction?, bind, Except.bind] using hrest
      | parenthesis => exact absurd rfl hp

end

/-! ## Reading -/

namespace Registers

/-- The error for a token that does not fit the state. -/
def unexpected (s : Registers V L) (token : String) : Stop :=
  .refused (.unexpectedToken token s.state)

def readThen (s : Registers V L) (token : String) : Except Stop (Registers V L) :=
  if s.afterThen then .error (s.unexpected token)
  else if s.program.isEmpty && s.state = .subject then .error (.refused .emptyAntecedent)
  else if s.state ≠ .operator then .error (s.unexpected token)
  else if .parenthesis ∈ s.stack then .error (.refused .unbalancedParenthesis)
  else .ok { s with afterThen := true, state := .subject }

def readOpening (s : Registers V L) (token : String) : Except Stop (Registers V L) :=
  if s.afterThen then .error (.refused (.consequentMustBeVariable token))
  else if s.state ≠ .subject then .error (s.unexpected token)
  else .ok { s with stack := .parenthesis :: s.stack }

def readClosing (s : Registers V L) (token : String) : Except Stop (Registers V L) :=
  if .parenthesis ∉ s.stack then .error (.refused .unbalancedParenthesis)
  else if s.afterThen then .error (.refused (.consequentMustBeVariable token))
  else if s.state ≠ .operator then .error (s.unexpected token)
  else do
    let (stack, program) ← moveToParenthesis s.program s.stack
    return { s with stack, program }

def readOperator (s : Registers V L) (token : String) (o : Operator) :
    Except Stop (Registers V L) :=
  if s.afterThen then .error (.refused (.consequentMustBeVariable token))
  else if s.state ≠ .operator then .error (s.unexpected token)
  else do
    let (stack, program) ← moveTighter o s.program s.stack
    return { s with stack := .operator o :: stack, program, state := .subject }

def readWord (scope : Scope V L) (s : Registers V L) (token : String)
    (keyword : Option Keyword) : Except Stop (Registers V L) :=
  match s.state with
  | .isWord =>
    if keyword ≠ some .isWord then .error (s.unexpected token)
    else .ok { s with state := .label }
  | .label =>
    match s.found with
    | none => .error (.broken .noVariable)
    | some v =>
      match scope.labelOf v token with
      | none => .error (.refused (.unknownLabel (scope.nameOf v) token))
      | some l =>
        if s.afterThen then .ok { s with consequent := some ⟨v, l⟩, state := .operator }
        else .ok { s with program := s.program ++ [.operand ⟨v, l⟩], state := .operator }
  | .subject =>
    if keyword.isSome then .error (s.unexpected token)
    else
      match scope.lookup token with
      | none => .error (.refused (.unknownVariable token))
      | some v => .ok { s with found := some v, state := .isWord }
  | .operator =>
    if s.afterThen then .error (.refused (.consequentMustBeSingleClause token))
    else .error (s.unexpected token)

/-- One token. -/
def read (scope : Scope V L) (s : Registers V L) (token : String) : Except Stop (Registers V L) :=
  match TokenKind.ofToken token with
  | .keyword .thenWord => s.readThen token
  | .opening => s.readOpening token
  | .closing => s.readClosing token
  | .keyword (.operator o) => s.readOperator token o
  | .keyword k => s.readWord scope token (some k)
  | .name => s.readWord scope token none

/-- All tokens in turn. -/
def readAll (scope : Scope V L) (s : Registers V L) (tokens : List String) :
    Except Stop (Registers V L) :=
  tokens.foldlM (read scope) s

def finish (s : Registers V L) : Except Stop (Compiled V L) :=
  match s.consequent with
  | none => .error (.refused .missingConsequent)
  | some consequent => do
    let program ← moveAll s.program s.stack
    return { program, consequent }

/-- The registers behind the word IF. -/
def start : Registers V L :=
  { state := .subject, found := none, afterThen := false, stack := [], program := []
    consequent := none }

/-- Compiles the tokens of a rule. -/
def compileTokens (scope : Scope V L) (tokens : List String) : Except Stop (Compiled V L) :=
  if !startsWithIf tokens then .error (.refused .missingIf)
  else if !hasThen (tokens.drop 1) then .error (.refused .missingThen)
  else do
    let s ← readAll scope .start (tokens.drop 1)
    s.finish

/-- Compiles the text of a rule. -/
def compile (scope : Scope V L) (text : String) : Except Stop (Compiled V L) :=
  compileTokens scope (tokenize text)

end Registers

/-! ## What the registers show -/

/-- The subject of the clause that the compiler is in. -/
def Expecting.subject? : Expecting V → Option V
  | isWord v => some v
  | label v => some v
  | _ => none

/-- The registers that hold what the configuration does. -/
def Configuration.registers (c : Configuration V L) (found : Option V) : Registers V L :=
  { state := c.expecting.kind, found, afterThen := c.afterThen, stack := c.stack
    program := c.program, consequent := c.consequent }

/-- Both go on and hold the same, or both refuse the rule for the same reason. The register of
variables holds the subject of the clause that the compiler is in; outside of clauses it may hold
anything. -/
inductive Agree : Except Stop (Registers V L) → Except Error (Configuration V L) → Prop
  | ok {c : Configuration V L} {found : Option V}
      (hfound : ∀ v ∈ c.expecting.subject?, found = some v) :
      Agree (.ok (c.registers found)) (.ok c)
  | refused (e : Error) : Agree (.error (.refused e)) (.error e)

/-- Outside of clauses the register of variables is not looked at. -/
theorem Agree.outside {c : Configuration V L} (found : Option V)
    (h : c.expecting.subject? = none) : Agree (.ok (c.registers found)) (.ok c) :=
  .ok fun v hv => absurd (h.symm.trans hv) (by simp)

section

variable {scope : Scope V L} (c : Configuration V L) {found : Option V} (token : String)

theorem agree_readThen : Agree ((c.registers found).readThen token) (c.readThen token) := by
  unfold Registers.readThen Configuration.readThen
  obtain ⟨expecting, afterThen, stack, program, consequent⟩ := c
  cases afterThen with
  | true => exact .refused _
  | false =>
      cases expecting with
      | subject => cases program <;> exact .refused _
      | isWord v => simpa [Configuration.registers, Expecting.kind] using .refused _
      | label v => simpa [Configuration.registers, Expecting.kind] using .refused _
      | operator =>
          by_cases hopen : .parenthesis ∈ stack
          · simpa [Configuration.registers, Expecting.kind, hopen] using .refused _
          · have hgo := Agree.outside (c := ⟨.subject, true, stack, program, consequent⟩) found rfl
            simpa [Configuration.registers, Expecting.kind, hopen] using hgo

theorem agree_readOpening :
    Agree ((c.registers found).readOpening token) (c.readOpening token) := by
  unfold Registers.readOpening Configuration.readOpening
  obtain ⟨expecting, afterThen, stack, program, consequent⟩ := c
  cases afterThen with
  | true => exact .refused _
  | false =>
      cases expecting with
      | subject =>
          exact .outside (c := ⟨.subject, false, .parenthesis :: stack, program, consequent⟩) _ rfl
      | isWord v => exact .refused _
      | label v => exact .refused _
      | operator => exact .refused _

theorem agree_readClosing :
    Agree ((c.registers found).readClosing token) (c.readClosing token) := by
  unfold Registers.readClosing Configuration.readClosing
  obtain ⟨expecting, afterThen, stack, program, consequent⟩ := c
  by_cases hopen : .parenthesis ∈ stack
  · cases afterThen with
    | true => simpa [Configuration.registers, hopen] using .refused _
    | false =>
        cases expecting with
        | subject => simpa [Configuration.registers, hopen] using .refused _
        | isWord v => simpa [Configuration.registers, hopen] using .refused _
        | label v => simpa [Configuration.registers, hopen] using .refused _
        | operator =>
            -- The test has found a parenthesis, so the moving ends at one.
            obtain ⟨ops, below, rfl⟩ := exists_of_parenthesis_mem hopen
            have hgo := Agree.outside
              (c := ⟨.operator, false, below, program ++ operatorCode ops, consequent⟩) found rfl
            have hclose := closeWhile_of_stack_eq (p := (· != .parenthesis))
              (c := ⟨.operator, false, pendingOperators ops ++ .parenthesis :: below, program,
                consequent⟩) rfl (by simp) (by simp)
            simpa [Configuration.registers, Expecting.kind, moveToParenthesis_eq, hclose, bind,
              Except.bind, pure, Except.pure] using hgo
  · simpa [Configuration.registers, hopen] using .refused _

theorem agree_readOperator (o : Operator) :
    Agree ((c.registers found).readOperator token o) (c.readOperator token o) := by
  unfold Registers.readOperator Configuration.readOperator
  obtain ⟨expecting, afterThen, stack, program, consequent⟩ := c
  cases afterThen with
  | true => exact .refused _
  | false =>
      cases expecting with
      | subject => exact .refused _
      | isWord v => exact .refused _
      | label v => exact .refused _
      | operator =>
          obtain ⟨ops, below, rfl, hops, hbelow⟩ := Configuration.exists_cut o stack
          have hgo := Agree.outside
            (c := ⟨.subject, false, .operator o :: below, program ++ operatorCode ops, consequent⟩)
            found rfl
          have hclose := closeWhile_of_stack_eq (p := (o.priority < ·.priority))
            (c := ⟨.operator, false, pendingOperators ops ++ below, program, consequent⟩) rfl
            (fun q hq => decide_eq_true (hops q hq)) (by simpa using hbelow)
          have hmove := moveTighter_eq program hops hbelow
          simpa [Configuration.registers, Expecting.kind, hmove, hclose, bind, Except.bind, pure,
            Except.pure] using hgo

theorem agree_readWord (hfound : ∀ v ∈ c.expecting.subject?, found = some v)
    (keyword : Option Keyword) :
    Agree ((c.registers found).readWord scope token keyword) (c.readWord scope token keyword) := by
  unfold Registers.readWord Configuration.readWord
  obtain ⟨expecting, afterThen, stack, program, consequent⟩ := c
  cases expecting with
  | isWord v =>
      by_cases hk : keyword = some .isWord
      · have hgo := Agree.ok (c := ⟨.label v, afterThen, stack, program, consequent⟩) hfound
        simpa [Configuration.registers, Expecting.kind, hk] using hgo
      · simpa [Configuration.registers, Expecting.kind, hk] using .refused _
  | label v =>
      -- The register holds the variable that the clause began with.
      obtain rfl := hfound v rfl
      cases hl : scope.labelOf v token with
      | none => simpa [Configuration.registers, Expecting.kind, hl] using .refused _
      | some l =>
          cases afterThen with
          | true =>
              have hgo := Agree.outside
                (c := ⟨.operator, true, stack, program, some ⟨v, l⟩⟩) (some v) rfl
              simpa [Configuration.registers, Expecting.kind, hl] using hgo
          | false =>
              have hgo := Agree.outside
                (c := ⟨.operator, false, stack, program ++ [.operand ⟨v, l⟩], consequent⟩)
                (some v) rfl
              simpa [Configuration.registers, Expecting.kind, hl] using hgo
  | subject =>
      cases hk : keyword.isSome with
      | true => simpa [Configuration.registers, Expecting.kind, hk] using .refused _
      | false =>
          cases hv : scope.lookup token with
          | none => simpa [Configuration.registers, Expecting.kind, hk, hv] using .refused _
          | some v =>
              have hheld : ∀ u ∈ (Expecting.isWord v).subject?, some v = some u := fun u h => h
              have hgo := Agree.ok (c := ⟨.isWord v, afterThen, stack, program, consequent⟩) hheld
              simpa [Configuration.registers, Expecting.kind, hk, hv] using hgo
  | operator => cases afterThen <;> exact .refused _

/-- Reading a token, both go on together or stop together. -/
theorem agree_read (hfound : ∀ v ∈ c.expecting.subject?, found = some v) :
    Agree ((c.registers found).read scope token) (c.read scope token) := by
  unfold Registers.read Configuration.read
  cases TokenKind.ofToken token with
  | opening => exact agree_readOpening c token
  | closing => exact agree_readClosing c token
  | name => exact agree_readWord c token hfound none
  | keyword k =>
      cases k with
      | thenWord => exact agree_readThen c token
      | operator o => exact agree_readOperator c token o
      | ifWord => exact agree_readWord c token hfound _
      | isWord => exact agree_readWord c token hfound _

end

/-- Whatever the tokens, both go on together to the end or stop at the same token. -/
theorem agree_readAll {scope : Scope V L} {c : Configuration V L} {found : Option V}
    (hfound : ∀ v ∈ c.expecting.subject?, found = some v) (tokens : List String) :
    Agree (Registers.readAll scope (c.registers found) tokens)
      (Configuration.readAll scope c tokens) := by
  induction tokens generalizing c found with
  | nil => exact .ok hfound
  | cons token rest ih =>
      have hread : Agree ((c.registers found).read scope token) (c.read scope token) :=
        agree_read c token hfound
      unfold Registers.readAll Configuration.readAll
      rw [List.foldlM_cons, List.foldlM_cons]
      generalize (c.registers found).read scope token = x at hread ⊢
      generalize c.read scope token = y at hread ⊢
      cases hread with
      | ok hnext => exact ih hnext
      | refused e => exact .refused e

/-! ## Behind THEN -/

/-- Behind THEN no parenthesis is open, and a consequent is there only. -/
structure Configuration.ThenClosed (c : Configuration V L) : Prop where
  closed : c.afterThen = true → .parenthesis ∉ c.stack
  consequent : c.consequent.isSome → c.afterThen = true

namespace Configuration

variable {scope : Scope V L} {c d : Configuration V L} {token : String}

theorem ThenClosed.step (h : c.ThenClosed) (hstep : Step scope c token d) : d.ThenClosed := by
  -- Parentheses come onto the stack and go off it before THEN only.
  have hvacuous (stack : List Pending) (hbefore : c.afterThen = false) :
      c.afterThen = true → .parenthesis ∉ stack :=
    fun hafter => absurd (hbefore.symm.trans hafter) (by simp)
  cases hstep with
  | thenWord _ _ _ hstack => exact ⟨fun _ => hstack, fun _ => rfl⟩
  | opening _ hbefore => exact ⟨hvacuous _ hbefore, h.consequent⟩
  | closing _ hbefore => exact ⟨hvacuous _ hbefore, h.consequent⟩
  | operator _ hbefore => exact ⟨hvacuous _ hbefore, h.consequent⟩
  | consequent _ _ _ hafter => exact ⟨h.closed, fun _ => hafter⟩
  | _ => exact ⟨h.closed, h.consequent⟩

theorem thenClosed_of_readAll {tokens : List String} (h : readAll scope .start tokens = .ok c) :
    c.ThenClosed := by
  have hstart : (start : Configuration V L).ThenClosed :=
    ⟨by simp [start], by simp [start]⟩
  exact readAll_invariant ThenClosed (fun _ _ _ h hstep => h.step hstep) hstart h

theorem readThen_ne (t : String) : c.readThen token ≠ .error (.consequentMustBeVariable t) := by
  unfold readThen
  cases c.afterThen with
  | true => simp [unexpected]
  | false =>
      cases c.expecting with
      | subject => cases hempty : c.program.isEmpty <;> simp [unexpected]
      | operator => cases hopen : c.stack.contains .parenthesis <;> simp
      | _ => simp [unexpected]

theorem readWord_ne (keyword : Option Keyword) (t : String) :
    c.readWord scope token keyword ≠ .error (.consequentMustBeVariable t) := by
  unfold readWord
  split
  · split <;> simp [unexpected]
  · split
    · simp
    · split <;> simp
  · split
    · simp [unexpected]
    · split <;> simp
  · split <;> simp [unexpected]

theorem eq_of_readOpening {t : String}
    (h : c.readOpening token = .error (.consequentMustBeVariable t)) : t = token := by
  unfold readOpening at h
  split at h
  · simpa using h.symm
  · split at h
    · exact absurd h (by simp)
    · exact absurd h (by simp [unexpected])

theorem eq_of_readOperator {o : Operator} {t : String}
    (h : c.readOperator token o = .error (.consequentMustBeVariable t)) : t = token := by
  unfold readOperator at h
  split at h
  · simpa using h.symm
  · split at h
    · exact absurd h (by simp)
    · exact absurd h (by simp [unexpected])

theorem open_of_readClosing {t : String}
    (h : c.readClosing token = .error (.consequentMustBeVariable t)) :
    c.afterThen = true ∧ .parenthesis ∈ c.stack := by
  unfold readClosing at h
  split at h
  · exact absurd h (by simp)
  · next hopen =>
      split at h
      · next hafter => exact ⟨hafter, by simpa using hopen⟩
      · split at h
        · exact absurd h (by simp)
        · exact absurd h (by simp [unexpected])

/-- A parenthesis that closes is never reported in the place of the variable behind THEN: there it
lacks its other half. -/
theorem ThenClosed.ne_closing (h : c.ThenClosed) {t : String}
    (hread : c.read scope token = .error (.consequentMustBeVariable t)) : t ≠ ")" := by
  unfold read at hread
  split at hread
  · exact absurd hread (readThen_ne t)
  · next hk =>
      rw [eq_of_readOpening hread, TokenKind.ofToken_eq_opening_iff.1 hk]
      decide
  · obtain ⟨hafter, hopen⟩ := open_of_readClosing hread
    exact absurd hopen (h.closed hafter)
  · next o hk =>
      rw [eq_of_readOperator hread]
      exact (ne_parenthesis_of_keyword (TokenKind.ofToken_eq_keyword_iff.1 hk)).2
  · exact absurd hread (readWord_ne _ t)
  · exact absurd hread (readWord_ne _ t)

end Configuration

theorem Registers.finish_registers {c : Configuration V L} (h : c.ThenClosed) (found : Option V) :
    (c.registers found).finish = c.finish.mapError .refused := by
  obtain ⟨expecting, afterThen, stack, program, consequent⟩ := c
  cases consequent with
  | none => rfl
  | some b =>
      have hstack : .parenthesis ∉ stack := h.closed (h.consequent rfl)
      simp [finish, Configuration.finish, Configuration.registers, moveAll_eq program hstack, bind,
        Except.bind, pure, Except.pure, Except.mapError]

/-- From the beginning of a rule both go on together. -/
theorem agree_start (scope : Scope V L) (tokens : List String) :
    Agree (Registers.readAll scope .start tokens) (Configuration.readAll scope .start tokens) :=
  agree_readAll (c := .start) (fun v hv => absurd hv (Option.not_mem_none v)) tokens

/-- The compiler with plain registers is the compiler. -/
theorem Registers.compileTokens_eq (scope : Scope V L) (tokens : List String) :
    Registers.compileTokens scope tokens = (Rule.compileTokens scope tokens).mapError .refused := by
  unfold Registers.compileTokens Rule.compileTokens
  cases startsWithIf tokens with
  | false => rfl
  | true =>
      cases hasThen (tokens.drop 1) with
      | false => rfl
      | true =>
          have hagree := agree_start scope (tokens.drop 1)
          cases hread : Configuration.readAll scope .start (tokens.drop 1) with
          | error e =>
              rw [hread] at hagree
              generalize Registers.readAll scope .start (tokens.drop 1) = x at hagree ⊢
              cases hagree
              rfl
          | ok c =>
              have hclosed := Configuration.thenClosed_of_readAll hread
              rw [hread] at hagree
              generalize Registers.readAll scope .start (tokens.drop 1) = x at hagree ⊢
              cases hagree with
              | @ok _ found _ => exact finish_registers hclosed found

/-- The register of variables is full where a label is looked up, and behind THEN no parenthesis is
on the stack. -/
theorem Registers.safe_of_readAll {scope : Scope V L} {tokens : List String} {s : Registers V L}
    (h : Registers.readAll scope .start tokens = .ok s) :
    (s.state = .label → s.found.isSome) ∧ (s.afterThen = true → .parenthesis ∉ s.stack) := by
  have hagree := agree_start scope tokens
  rw [h] at hagree
  generalize hread : Configuration.readAll scope .start tokens = y at hagree
  cases hagree with
  | @ok c found hfound =>
      refine ⟨fun hstate => ?_, (Configuration.thenClosed_of_readAll hread).closed⟩
      obtain ⟨v, hv⟩ : ∃ v, c.expecting = .label v := by
        cases hexp : c.expecting with
        | label v => exact ⟨v, rfl⟩
        | _ => exact absurd hstate (by simp [Configuration.registers, hexp, Expecting.kind])
      have hheld := hfound v (by rw [hv]; rfl)
      simp [Configuration.registers, hheld]

theorem ne_closing_of_compile {scope : Scope V L} {text t : String}
    (h : compile scope text = .error (.consequentMustBeVariable t)) : t ≠ ")" := by
  unfold compile compileTokens at h
  split at h
  · exact absurd h (by simp)
  · split at h
    · exact absurd h (by simp)
    · obtain h | ⟨c, -, hfinish⟩ := bind_eq_error_iff.1 h
      · obtain ⟨before, token, after, c, -, hread, hc⟩ := foldlM_eq_error_iff.1 h
        exact (Configuration.thenClosed_of_readAll hread).ne_closing hc
      · unfold Configuration.finish at hfinish
        split at hfinish <;> exact absurd hfinish (by simp)

end FuzzyLogic.Rule

namespace FuzzyLogic.Model

open FuzzyLogic.Rule

variable {α : Type}

/-- **The compiler never breaks down.** On every text it compiles a rule or refuses the text, and
the error holds the whole text. The same is made of it with plain registers: where a label is looked
up the register of variables is full, and nothing is taken off an empty stack. A parenthesis that
closes is never reported in the place of the variable behind THEN, since none is open there. -/
theorem compile_never_breaks (m : Model α) (name text : String) (norm : Binding TNorm α)
    (conorm : Binding SNorm α) :
    ((∃ r, m.compile name text norm conorm = .ok r) ∨
        ∃ e, m.compile name text norm conorm = .error (.rule e text)) ∧
      Registers.compile m.scope text = (Rule.compile m.scope text).mapError .refused ∧
      (∀ b, Registers.compile m.scope text ≠ .error (.broken b)) ∧
      (∀ tokens s, Registers.readAll m.scope .start tokens = .ok s →
        (s.state = .label → s.found.isSome) ∧ (s.afterThen = true → .parenthesis ∉ s.stack)) ∧
      ∀ t, Rule.compile m.scope text = .error (.consequentMustBeVariable t) → t ≠ ")" := by
  have heq : Registers.compile m.scope text = (Rule.compile m.scope text).mapError .refused :=
    Registers.compileTokens_eq m.scope (tokenize text)
  refine ⟨?_, heq, fun b => ?_, fun _ _ h => Registers.safe_of_readAll h,
    fun _ h => ne_closing_of_compile h⟩
  · unfold compile
    cases Rule.compile m.scope text with
    | ok c => exact .inl ⟨_, rfl⟩
    | error e => exact .inr ⟨e, rfl⟩
  · rw [heq]
    cases Rule.compile m.scope text <;> simp [Except.mapError]

end FuzzyLogic.Model
