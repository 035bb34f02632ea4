import FuzzyLogic.Operator

set_option autoImplicit false

/-! # Programs in postfix order

An antecedent is compiled to a program in postfix order: operands push a value, operators take the
two topmost values and push their combination. The tree of an antecedent is the other view of the
same thing. The main statement, `evaluate_postorder`, says that running the postorder of a tree
yields the value of the tree. -/

namespace FuzzyLogic

/-- One step of a program over operands of type `β`. -/
inductive Instruction (β : Type) where
  | operand (b : β)
  | operator (o : Operator)
  deriving Repr, DecidableEq

/-- A sequence of steps in postfix order. -/
abbrev Program (β : Type) := List (Instruction β)

/-- The truth functions that a program is run with. -/
structure Connectives (α : Type) where
  norm : α → α → Except Fault α
  conorm : α → α → Except Fault α

/-- The truth function of an operator. -/
def Connectives.apply {α : Type} (c : Connectives α) : Operator → α → α → Except Fault α
  | .and => c.norm
  | .or => c.conorm

/-! ## Running a program -/

namespace Program

variable {α β : Type}

/-- One step on the stack, whose top comes first. The value below the top is the left operand. -/
def step (c : Connectives α) (value : β → Except Fault α) (stack : List α) :
    Instruction β → Except Fault (List α)
  | .operand b => do
    let x ← value b
    return x :: stack
  | .operator o =>
    match stack with
    | y :: x :: rest => do
      let z ← c.apply o x y
      return z :: rest
    | _ => .error (.underflow o)

/-- The stack after all steps. -/
def run (c : Connectives α) (value : β → Except Fault α) (program : Program β) (stack : List α) :
    Except Fault (List α) :=
  program.foldlM (step c value) stack

/-- The one value that the program leaves on the empty stack. -/
def evaluate (c : Connectives α) (value : β → Except Fault α) (program : Program β) :
    Except Fault α := do
  match ← program.run c value [] with
  | [x] => return x
  | stack => .error (.leftover stack.length)

/-- The operands in the order in which they are pushed. -/
def operands (program : Program β) : List β :=
  program.filterMap fun
    | .operand b => some b
    | .operator _ => none

/-- The steps separated by commas. -/
def text (write : β → String) (program : Program β) : String :=
  ", ".intercalate (program.map fun
    | .operand b => write b
    | .operator o => o.name)

end Program

/-! ## Trees -/

/-- The syntax tree of an antecedent. -/
inductive Tree (β : Type) where
  | leaf (b : β)
  | node (o : Operator) (left right : Tree β)
  deriving Repr, DecidableEq

namespace Tree

variable {α β : Type}

/-- The program that computes the tree: left side, right side, operator. -/
def postorder : Tree β → Program β
  | leaf b => [.operand b]
  | node o left right => left.postorder ++ right.postorder ++ [.operator o]

/-- The value of the tree, computed from the left. -/
def value (c : Connectives α) (leafValue : β → Except Fault α) : Tree β → Except Fault α
  | leaf b => leafValue b
  | node o left right => do
    let x ← left.value c leafValue
    let y ← right.value c leafValue
    c.apply o x y

/-- The leaves from left to right. -/
def leaves : Tree β → List β
  | leaf b => [b]
  | node _ left right => left.leaves ++ right.leaves

theorem operands_postorder (t : Tree β) : t.postorder.operands = t.leaves := by
  induction t with
  | leaf b => rfl
  | node o l r ihl ihr =>
    simp only [Program.operands] at ihl ihr
    simp [postorder, Program.operands, leaves, ihl, ihr]

/-- Running the program of a tree pushes the value of the tree, whatever follows and whatever lies
below on the stack. -/
theorem run_postorder_append (c : Connectives α) (leafValue : β → Except Fault α) (t : Tree β)
    (rest : Program β) (stack : List α) :
    Program.run c leafValue (t.postorder ++ rest) stack = (do
      let x ← t.value c leafValue
      Program.run c leafValue rest (x :: stack)) := by
  induction t generalizing rest stack with
  | leaf b =>
    simp only [postorder, value, Program.run, List.singleton_append, List.foldlM_cons,
      Program.step]
    cases leafValue b <;> rfl
  | node o l r ihl ihr =>
    simp only [postorder, value, List.append_assoc, ihl, ihr]
    cases l.value c leafValue with
    | error e => rfl
    | ok x =>
      cases r.value c leafValue with
      | error e => rfl
      | ok y =>
        simp only [Program.run, List.singleton_append, List.foldlM_cons, Program.step, bind,
          Except.bind]
        cases c.apply o x y <;> rfl

/-- Running the postorder of a tree yields the value of the tree. -/
theorem evaluate_postorder (c : Connectives α) (leafValue : β → Except Fault α) (t : Tree β) :
    t.postorder.evaluate c leafValue = t.value c leafValue := by
  have h := run_postorder_append c leafValue t [] []
  rw [List.append_nil] at h
  rw [Program.evaluate, h]
  cases t.value c leafValue <;> rfl

end Tree

end FuzzyLogic
