import FuzzyLogic.Proofs.Rule.Compilation
import FuzzyLogic.Proofs.Rule.Registers
import FuzzyLogic.Proofs.WellFormed
import Mathlib.Data.List.Chain
import Mathlib.Data.List.TakeWhile
import Mathlib.Logic.Relation

set_option autoImplicit false

/-! # The balance of operands and operators

While a rule is read, an operand goes into the program at once and an operator first onto the
stack. The compiler keeps the two in balance. Behind a whole clause it has one operand more than it
has operators in the program and on the stack, and where an operand is still to come it has as many;
so the program is never short of an operand, wherever it is cut off. On the stack the operators
inside one pair of parentheses bind no less tightly the higher they are. Behind THEN nothing of this
changes any more.

All this holds at every point of a run, `Configuration.Reached`: between two tokens, and inside the
two loops that take things off the stack. That a compiled program can be run follows from it,
without the grammar. -/

namespace FuzzyLogic.Rule

open Relation (ReflTransGen)

variable {V L : Type}

/-- The operators on a stack, the last one first. -/
def openOperators (stack : List Pending) : List Operator :=
  stack.filterMap fun
    | .operator o => some o
    | .parenthesis => none

@[simp] theorem openOperators_operator (o : Operator) (stack : List Pending) :
    openOperators (.operator o :: stack) = o :: openOperators stack := rfl

@[simp] theorem openOperators_parenthesis (stack : List Pending) :
    openOperators (.parenthesis :: stack) = openOperators stack := rfl

namespace Configuration

variable {scope : Scope V L} {c d : Configuration V L} {token : String} {tokens : List String}
  {p : Pending → Bool}

/-! ## Loops that take things off the stack -/

/-- One turn of a loop that goes on as long as `p` holds of the top of the stack: the top goes into
the program. -/
inductive Turn (p : Pending → Bool) (c : Configuration V L) : Configuration V L → Prop
  | move {q : Pending} {below : List Pending} (hstack : c.stack = q :: below) (hq : p q = true) :
      Turn p c { c with stack := below, program := c.program ++ q.instruction?.toList }

theorem Turn.closeWhile_eq (h : Turn p c d) : d.closeWhile p = c.closeWhile p := by
  cases h with
  | @move q below hstack hq =>
      cases hi : (q.instruction? : Option (Instruction (Clause V L))) with
      | none => simp [closeWhile, hstack, hq, hi]
      | some i => simp [closeWhile, hstack, hq, hi]

/-- Wherever the loop is, it comes to the same end. -/
theorem closeWhile_of_turns (h : ReflTransGen (Turn p) c d) : d.closeWhile p = c.closeWhile p := by
  induction h with
  | refl => rfl
  | tail _ hturn ih => rw [hturn.closeWhile_eq, ih]

theorem closeWhile_eq_self (h : ∀ q ∈ c.stack.head?, p q = false) : c.closeWhile p = c := by
  have hstack : c.stack = pendingOperators [] ++ c.stack := rfl
  simpa [operatorCode] using closeWhile_of_stack_eq hstack (by simp) h

theorem turns_closeWhile (p : Pending → Bool) (c : Configuration V L) :
    ReflTransGen (Turn p) c (c.closeWhile p) := by
  induction hstack : c.stack generalizing c with
  | nil => rw [closeWhile_eq_self (by simp [hstack])]
  | cons q below ih =>
      by_cases hq : p q = true
      · have hturn : Turn p c _ := .move hstack hq
        rw [← hturn.closeWhile_eq]
        exact .head hturn (ih _ rfl)
      · rw [closeWhile_eq_self (by simpa [hstack] using hq)]

/-- **Closing is the loop run to its end**: turns lead there, no turn leads on from there, and there
is no other such place. -/
theorem turns_stop_iff :
    ReflTransGen (Turn p) c d ∧ (∀ e, ¬Turn p d e) ↔ d = c.closeWhile p := by
  constructor
  · rintro ⟨hturns, hstop⟩
    rcases (turns_closeWhile p d).cases_head with heq | ⟨e, hturn, -⟩
    · rw [heq, closeWhile_of_turns hturns]
    · exact absurd hturn (hstop e)
  · rintro rfl
    refine ⟨turns_closeWhile p c, ?_⟩
    intro e hturn
    obtain @⟨q, below, hstack, hq⟩ := hturn
    have hhead := List.head?_dropWhile_not p c.stack
    rw [show c.stack.dropWhile p = q :: below from hstack] at hhead
    have hstays : p q = false := hhead
    exact absurd hq (by simp [hstays])

theorem closeWhile_true (c : Configuration V L) :
    c.closeWhile (fun _ => true) = { c with
      stack := []
      program := c.program ++ c.stack.filterMap Pending.instruction? } := by
  have hall : c.stack.takeWhile (fun _ => true) = c.stack :=
    List.takeWhile_eq_self_iff.2 (by simp)
  have hnone : c.stack.dropWhile (fun _ => true) = [] := List.dropWhile_eq_nil_iff.2 (by simp)
  rw [closeWhile, hall, hnone]

/-- A loop touches the stack and the program only. -/
theorem frame_of_turns (h : ReflTransGen (Turn p) c d) :
    d.expecting = c.expecting ∧ d.afterThen = c.afterThen := by
  induction h with
  | refl => exact ⟨rfl, rfl⟩
  | tail _ hturn ih =>
      obtain ⟨hstack, hq⟩ := hturn
      exact ih

/-! ## The invariant -/

/-- What the operands are ahead of the operators by: one behind a whole clause and all the way
behind THEN, none where an operand is still to come. -/
def surplus (c : Configuration V L) : Nat :=
  if c.afterThen then 1
  else
    match c.expecting with
    | .operator => 1
    | _ => 0

theorem surplus_eq_one (h : c.afterThen = true ∨ c.expecting = .operator) : c.surplus = 1 := by
  unfold surplus
  split
  · rfl
  · next hbefore => rw [h.resolve_left hbefore]

theorem surplus_eq_zero (hbefore : c.afterThen = false) (hexp : c.expecting ≠ .operator) :
    c.surplus = 0 := by
  unfold surplus
  rw [hbefore]
  cases hkind : c.expecting with
  | operator => exact absurd hkind hexp
  | _ => rfl

@[simp] theorem surplus_moved (c : Configuration V L) (stack : List Pending)
    (program : Program (Clause V L)) :
    ({ c with stack, program } : Configuration V L).surplus = c.surplus := rfl

/-- What holds of the stack and the program all along. -/
structure Invariant (c : Configuration V L) : Prop where
  /-- An operator binds no less tightly than what is right below it. -/
  sorted : c.stack.IsChain fun upper lower =>
    upper = .parenthesis ∨ lower.priority ≤ upper.priority
  ahead : c.program.Ahead
  balance : c.program.operands.length
    = c.program.operators.length + (openOperators c.stack).length + c.surplus

theorem invariant_start : (start : Configuration V L).Invariant :=
  ⟨.nil, Program.ahead_nil, rfl⟩

/-- A turn keeps the invariant, as long as there is an operand to spare. -/
theorem Invariant.turn (h : c.Invariant) (hsurplus : c.surplus = 1) (hturn : Turn p c d) :
    d.Invariant := by
  have hsorted := h.sorted
  have hbalance := h.balance
  obtain @⟨q, below, hstack, hq⟩ := hturn
  rw [hstack] at hsorted hbalance
  have hbelow := (List.isChain_cons.1 hsorted).2
  cases q with
  | parenthesis =>
      refine ⟨hbelow, ?_, ?_⟩
      · simpa [Pending.instruction?] using h.ahead
      · simpa [Pending.instruction?] using hbalance
  | operator o =>
      -- With the operator that moves, the program still has fewer operators than operands.
      rw [hsurplus, openOperators_operator, List.length_cons] at hbalance
      have hless : c.program.operators.length + 1 < c.program.operands.length := by omega
      refine ⟨hbelow, ?_, ?_⟩
      · simpa [Pending.instruction?, Program.ahead_concat] using And.intro h.ahead hless
      · simp only [Pending.instruction?, Option.toList_some, Program.operands_concat_operator,
          Program.operators_concat_operator, List.length_append, List.length_singleton,
          surplus_moved]
        omega

theorem Invariant.turns (h : c.Invariant) (hsurplus : c.surplus = 1)
    (hturns : ReflTransGen (Turn p) c d) : d.Invariant := by
  have hall : d.Invariant ∧ d.surplus = 1 := by
    induction hturns with
    | refl => exact ⟨h, hsurplus⟩
    | tail _ hturn ih =>
        refine ⟨ih.1.turn ih.2 hturn, ?_⟩
        cases hturn
        exact ih.2
  exact hall.1

/-- **A step keeps the invariant.** -/
theorem Invariant.step (h : c.Invariant) (hstep : Step scope c token d) : d.Invariant := by
  have hbalance := h.balance
  cases hstep with
  | thenWord _ _ hexp =>
      refine ⟨h.sorted, h.ahead, ?_⟩
      simpa [surplus, hexp] using hbalance
  | opening => exact ⟨h.sorted.cons fun _ _ => .inl rfl, h.ahead, hbalance⟩
  | closing _ _ hexp hstack =>
      have hclosed := h.turns (surplus_eq_one (.inr hexp)) (turns_closeWhile (· != .parenthesis) c)
      rw [closeWhile_of_stack_eq hstack (by simp) (by simp)] at hclosed
      exact ⟨(List.isChain_cons.1 hclosed.sorted).2, hclosed.ahead, hclosed.balance⟩
  | @operator o ops below _ hbefore hexp hstack hops hbelow =>
      have hclosed := h.turns (surplus_eq_one (.inr hexp))
        (turns_closeWhile (o.priority < ·.priority) c)
      rw [closeWhile_of_stack_eq hstack (fun q hq => decide_eq_true (hops q hq))
        (by simpa using hbelow)] at hclosed
      -- What is left on the stack binds no tighter than the new operator, and this one takes up
      -- the operand that was to spare.
      refine ⟨hclosed.sorted.cons fun q hq => .inr (hbelow q hq), hclosed.ahead, ?_⟩
      simpa [surplus, hbefore, hexp, Nat.add_assoc] using hclosed.balance
  | subject _ hexp =>
      refine ⟨h.sorted, h.ahead, ?_⟩
      simpa [surplus, hexp] using hbalance
  | isWord _ hexp =>
      refine ⟨h.sorted, h.ahead, ?_⟩
      simpa [surplus, hexp] using hbalance
  | operand _ hexp _ hbefore =>
      rw [surplus_eq_zero hbefore (by simp [hexp])] at hbalance
      refine ⟨h.sorted, Program.ahead_concat.2 ⟨h.ahead, ?_⟩, ?_⟩
      · simp only [Program.operators_concat_operand, Program.operands_concat_operand,
          List.length_append, List.length_singleton]
        omega
      · simpa [surplus] using hbalance
  | consequent _ _ _ hafter =>
      refine ⟨h.sorted, h.ahead, ?_⟩
      simpa [surplus, hafter] using hbalance

theorem invariant_of_readAll (h : readAll scope .start tokens = .ok c) : c.Invariant :=
  readAll_invariant Invariant (fun _ _ _ h hstep => h.step hstep) invariant_start h

/-- In a part of the stack without parentheses the priorities do not decrease from the bottom to the
top. -/
theorem Invariant.priorities (h : c.Invariant) {above below : List Pending} {ops : List Operator}
    (hstack : c.stack = above ++ pendingOperators ops ++ below) :
    (ops.map Operator.priority).reverse.Pairwise (· ≤ ·) := by
  have hsorted := h.sorted
  rw [hstack] at hsorted
  have hops := hsorted.left_of_append.right_of_append
  rw [pendingOperators, List.isChain_map] at hops
  have hchain : (ops.map Operator.priority).IsChain (· ≥ ·) :=
    (List.isChain_map _).2 (hops.imp fun _ _ hle => hle.resolve_left (by simp))
  exact List.pairwise_reverse.2 hchain.pairwise

/-! ## Behind THEN -/

theorem Step.frozen (h : Step scope c token d) (hafter : c.afterThen = true) :
    d.afterThen = true ∧ d.stack = c.stack ∧ d.program = c.program := by
  have hnot : c.afterThen ≠ false := by simp [hafter]
  cases h with
  | thenWord _ hbefore => exact absurd hbefore hnot
  | opening _ hbefore => exact absurd hbefore hnot
  | closing _ hbefore => exact absurd hbefore hnot
  | operator _ hbefore => exact absurd hbefore hnot
  | operand _ _ _ hbefore => exact absurd hbefore hnot
  | _ => exact ⟨hafter, rfl, rfl⟩

theorem frozen_of_readAll (hafter : c.afterThen = true) (h : readAll scope c tokens = .ok d) :
    d.afterThen = true ∧ d.stack = c.stack ∧ d.program = c.program := by
  refine readAll_invariant
    (fun e => e.afterThen = true ∧ e.stack = c.stack ∧ e.program = c.program) ?_
    ⟨hafter, rfl, rfl⟩ h
  rintro _ e e' ⟨hbehind, hstack, hprogram⟩ hstep
  obtain ⟨hbehind', hstack', hprogram'⟩ := hstep.frozen hbehind
  exact ⟨hbehind', hstack'.trans hstack, hprogram'.trans hprogram⟩

/-- Where THEN has been read, the compiler still holds what it held when it came to the word. -/
theorem kept_of_readAll {front rest : List String} {thenWord : String}
    (hword : capitals thenWord = "THEN")
    (h : readAll scope .start (front ++ thenWord :: rest) = .ok c) :
    c.afterThen = true ∧
      ∃ b, readAll scope .start front = .ok b ∧ c.stack = b.stack ∧ c.program = b.program := by
  obtain ⟨b, hfront, hrest⟩ := foldlM_append_eq_ok_iff.1 h
  obtain ⟨d, hstep, hrest⟩ := exists_step_of_readAll_cons hrest
  have hread := hstep.read_eq
  rw [read, TokenKind.ofToken_eq_keyword_iff (k := .thenWord).2 hword] at hread
  obtain ⟨-, -, -, rfl⟩ := readThen_eq_ok_iff.1 hread
  obtain ⟨hafter, hstack, hprogram⟩ := frozen_of_readAll rfl hrest
  exact ⟨hafter, b, hfront, hstack, hprogram⟩

theorem afterThen_iff_hasThen (h : readAll scope .start tokens = .ok c) :
    c.afterThen = true ↔ hasThen tokens = true := by
  refine ⟨(thenKnown_of_readAll h).1, ?_⟩
  intro hthen
  obtain ⟨thenWord, hmem, hword⟩ := hasThen_eq_true_iff.1 hthen
  obtain ⟨front, rest, rfl⟩ := List.append_of_mem hmem
  exact (kept_of_readAll hword h).1

/-! ## Every point of a run -/

/-- The compiler comes through the configuration when it has read the tokens behind IF: it is about
to read the next token, or it reads one that it accepts, somewhere in the loop of that token. -/
inductive Reached (scope : Scope V L) (tokens : List String) : Configuration V L → Prop
  | between {c : Configuration V L} (h : readAll scope .start tokens = .ok c) :
      Reached scope tokens c
  | closing {b c d : Configuration V L} {token : String}
      (h : readAll scope .start tokens = .ok b) (htoken : TokenKind.ofToken token = .closing)
      (hread : b.read scope token = .ok d) (hturns : ReflTransGen (Turn (· != .parenthesis)) b c) :
      Reached scope tokens c
  | operator {b c d : Configuration V L} {token : String} {o : Operator}
      (h : readAll scope .start tokens = .ok b)
      (htoken : TokenKind.ofToken token = .keyword (.operator o))
      (hread : b.read scope token = .ok d)
      (hturns : ReflTransGen (Turn (o.priority < ·.priority)) b c) :
      Reached scope tokens c

/-- A loop is run through before THEN and behind a whole clause only. -/
theorem Reached.cases (h : Reached scope tokens c) :
    readAll scope .start tokens = .ok c ∨
      ∃ b p, readAll scope .start tokens = .ok b ∧ b.afterThen = false ∧ b.expecting = .operator ∧
        ReflTransGen (Turn p) b c := by
  cases h with
  | between h => exact .inl h
  | closing h htoken hread hturns =>
      rw [read, htoken] at hread
      obtain ⟨hbefore, hexp, -⟩ := readClosing_eq_ok_iff.1 hread
      exact .inr ⟨_, _, h, hbefore, hexp, hturns⟩
  | operator h htoken hread hturns =>
      rw [read, htoken] at hread
      obtain ⟨hbefore, hexp, -⟩ := readOperator_eq_ok_iff.1 hread
      exact .inr ⟨_, _, h, hbefore, hexp, hturns⟩

theorem Reached.invariant (h : Reached scope tokens c) : c.Invariant := by
  rcases h.cases with hread | ⟨b, p, hread, -, hexp, hturns⟩
  · exact invariant_of_readAll hread
  · exact (invariant_of_readAll hread).turns (surplus_eq_one (.inr hexp)) hturns

/-- **What the compiler keeps in balance at every point of its run.** Between two open parentheses,
below the first and above the last, the priorities of the operators on the stack do not decrease
from the bottom to the top. Wherever the program is cut off, it has more operands than operators.
Behind a whole clause there is one operand more than there are operators in the program and on the
stack, and where an operand of the antecedent is still to come there are as many. Once THEN has been
read, no parenthesis is on the stack, and the stack and the program are what they were before the
word. -/
theorem Reached.in_balance (h : Reached scope tokens c) :
    (∀ above ops below, c.stack = above ++ pendingOperators ops ++ below →
        (ops.map Operator.priority).reverse.Pairwise (· ≤ ·)) ∧
      (∀ front : Program (Clause V L), front <+: c.program → front ≠ [] →
        front.operators.length + 1 ≤ front.operands.length) ∧
      (c.afterThen = true ∨ c.expecting = .operator →
        c.program.operands.length
          = c.program.operators.length + (openOperators c.stack).length + 1) ∧
      (c.afterThen = false → c.expecting ≠ .operator →
        c.program.operands.length = c.program.operators.length + (openOperators c.stack).length) ∧
      (c.afterThen = true ↔ hasThen tokens = true) ∧
      ∀ front thenWord rest, tokens = front ++ thenWord :: rest → capitals thenWord = "THEN" →
        .parenthesis ∉ c.stack ∧
          ∃ b, readAll scope .start front = .ok b ∧ c.stack = b.stack ∧ c.program = b.program := by
  have hinv := h.invariant
  refine ⟨fun _ _ _ hstack => hinv.priorities hstack, hinv.ahead, ?_, ?_, ?_, ?_⟩
  · intro hwhole
    rw [hinv.balance, surplus_eq_one hwhole]
  · intro hbefore hexp
    rw [hinv.balance, surplus_eq_zero hbefore hexp, Nat.add_zero]
  · rcases h.cases with hread | ⟨b, p, hread, -, -, hturns⟩
    · exact afterThen_iff_hasThen hread
    · rw [(frame_of_turns hturns).2]
      exact afterThen_iff_hasThen hread
  · rintro front thenWord rest rfl hword
    rcases h.cases with hread | ⟨b, p, hread, hbefore, -⟩
    · obtain ⟨hafter, hkept⟩ := kept_of_readAll hword hread
      exact ⟨(thenClosed_of_readAll hread).closed hafter, hkept⟩
    · -- Behind THEN there is no loop to be in.
      obtain ⟨hafter, -⟩ := kept_of_readAll hword hread
      exact absurd (hbefore.symm.trans hafter) (by simp)

/-- Inside the loop of a parenthesis that closes, and behind THEN with an operator still open. -/
theorem Reached.in_balance_boiler :
    (∃ c : Configuration VariableRef (Label Float),
      Reached Model.boiler.scope ["(", "Heat", "is", "high", "or", "Heat", "is", "high", "and",
          "Flow", "is", "low", "and", "Heat", "is", "high"] c ∧
        c.stack = [.operator .and, .operator .or, .parenthesis] ∧
        ([.and, .or].map Operator.priority).reverse.Pairwise (· ≤ ·) ∧
        c.program.operators.length + 1 ≤ c.program.operands.length ∧
        c.program.operands.length
          = c.program.operators.length + (openOperators c.stack).length + 1) ∧
      ∃ c : Configuration VariableRef (Label Float),
        Reached Model.boiler.scope ["Heat", "is", "high", "or", "Flow", "is", "low", "Then",
            "Flow"] c ∧
          c.stack = [.operator .or] ∧ .parenthesis ∉ c.stack ∧
          ∃ b, readAll Model.boiler.scope .start ["Heat", "is", "high", "or", "Flow", "is", "low"]
              = .ok b ∧
            c.stack = b.stack ∧ c.program = b.program := by
  constructor
  · let b : Configuration VariableRef (Label Float) :=
      { expecting := .operator
        afterThen := false
        stack := [.operator .and, .operator .and, .operator .or, .parenthesis]
        program := [.operand Model.boilerHot, .operand Model.boilerHot, .operand Model.boilerDry,
          .operand Model.boilerHot]
        consequent := none }
    have hread : readAll Model.boiler.scope .start ["(", "Heat", "is", "high", "or", "Heat", "is",
        "high", "and", "Flow", "is", "low", "and", "Heat", "is", "high"] = .ok b := rfl
    have hclosing : TokenKind.ofToken ")" = .closing := by decide
    have hreached := Reached.closing hread hclosing rfl (.single (.move rfl rfl))
    obtain ⟨hpriorities, hahead, hwhole, -⟩ := Reached.in_balance hreached
    exact ⟨_, hreached, rfl, hpriorities [] [.and, .or] [.parenthesis] rfl,
      hahead _ (List.prefix_refl _) (by simp), hwhole (.inr rfl)⟩
  · let c : Configuration VariableRef (Label Float) :=
      { expecting := .isWord ⟨1, "Flow"⟩
        afterThen := true
        stack := [.operator .or]
        program := [.operand Model.boilerHot, .operand Model.boilerDry]
        consequent := none }
    have hreached : Reached Model.boiler.scope ["Heat", "is", "high", "or", "Flow", "is", "low",
        "Then", "Flow"] c := .between rfl
    obtain ⟨-, -, -, -, -, hbehind⟩ := Reached.in_balance hreached
    exact ⟨c, hreached, rfl, hbehind _ "Then" ["Flow"] rfl (by decide)⟩

end Configuration

/-! ## Compiled programs -/

open FuzzyLogic.Rule.Configuration

/-- A compiled program is ahead all along, and in the end by one. What is still open behind the rule
goes into the program as if in a loop. -/
theorem ahead_of_compileTokens {scope : Scope V L} {tokens : List String} {r : Compiled V L}
    (h : compileTokens scope tokens = .ok r) :
    r.program.Ahead ∧ r.program.operands.length = r.program.operators.length + 1 := by
  obtain ⟨-, rest, c, -, -, hread, hfinish⟩ := compileTokens_eq_ok_iff.1 h
  unfold Configuration.finish at hfinish
  split at hfinish
  · exact absurd hfinish (by simp)
  · next consequent hsome =>
      obtain rfl := Except.ok.inj hfinish
      have hafter : c.afterThen = true := (thenClosed_of_readAll hread).consequent (by simp [hsome])
      have hsurplus : c.surplus = 1 := surplus_eq_one (.inl hafter)
      have hall := (invariant_of_readAll hread).turns hsurplus (turns_closeWhile (fun _ => true) c)
      rw [closeWhile_true] at hall
      exact ⟨hall.ahead, hall.balance.trans (by rw [surplus_moved, hsurplus]; rfl)⟩

/-- **The balance is why a compiled program can be run.** -/
theorem wellFormed_of_compileTokens {scope : Scope V L} {tokens : List String} {r : Compiled V L}
    (h : compileTokens scope tokens = .ok r) : r.program.WellFormed :=
  Program.wellFormed_iff_ahead.2 (ahead_of_compileTokens h)

end FuzzyLogic.Rule
