import Mathlib.Data.List.Induction
import Mathlib.Logic.ExistsUnique
import Mathlib.Logic.Function.Basic
import FuzzyLogic.Proofs.Evaluation

set_option autoImplicit false

/-! # Well-formed programs

Not every sequence of operands and operators can be run: an operator may find fewer than two values
on the stack, and at the end there may be more than one value or none. The sequences that can be run
are the postorders of trees. A tree is all there is to such a program: no two trees have the same
postorder, and what the program yields is the value of its tree. Counting is enough to tell them:
wherever the program is cut off it has more operands than operators, and in the end one more. -/

namespace FuzzyLogic

/-- Truth functions that have a value everywhere. -/
def Connectives.total {α : Type} (conj disj : α → α → α) : Connectives α :=
  { norm := fun x y => .ok (conj x y), conorm := fun x y => .ok (disj x y) }

/-! ## Postorders -/

namespace Tree

variable {α β : Type}

theorem evaluate_total (conj disj : α → α → α) (x : β → α) (t : Tree β) :
    t.postorder.evaluate (.total conj disj) (fun b => .ok (x b)) = .ok (t.fold conj disj x) := by
  rw [evaluate_postorder]
  exact t.value_eq_fold (fun _ _ => rfl) (fun _ _ => rfl) fun _ _ => rfl

/-- Put together from its own operators and leaves, a tree is itself. -/
theorem fold_node (t : Tree β) : t.fold (node .and) (node .or) leaf = t := by
  induction t with
  | leaf b => rfl
  | node o left right ihl ihr =>
      cases o with
      | and => rw [fold, ihl, ihr]
      | or => rw [fold, ihl, ihr]

/-- The postorder of a tree can be run to give the tree back. -/
theorem postorder_injective : Function.Injective (postorder : Tree β → Program β) := by
  intro t u h
  have ht := t.evaluate_total (node .and) (node .or) leaf
  have hu := u.evaluate_total (node .and) (node .or) leaf
  rw [fold_node] at ht hu
  exact Except.ok.inj (ht.symm.trans (h ▸ hu))

end Tree

namespace Program

variable {α β : Type}

/-! ## Shape -/

/-- The height of the stack after the program, if every operator of it finds two values. -/
def height? : Program β → Nat → Option Nat
  | [], height => some height
  | .operand _ :: program, height => height? program (height + 1)
  | .operator _ :: program, height + 2 => height? program (height + 1)
  | .operator _ :: _, _ => none

/-- A program that never lacks a value and leaves just one. -/
def WellFormed (program : Program β) : Prop :=
  program.height? 0 = some 1

theorem height?_postorder_append (t : Tree β) (rest : Program β) (height : Nat) :
    height? (t.postorder ++ rest) height = height? rest (height + 1) := by
  induction t generalizing rest height with
  | leaf b => rfl
  | node o left right ihl ihr =>
      rw [Tree.postorder, List.append_assoc, List.append_assoc, ihl, ihr]
      rfl

/-- What is on the stack before a program and what it does then are the postorders of what is on the
stack after it. The top of a stack comes first. -/
theorem exists_trees_of_height? {program : Program β} (before : List (Tree β)) {height : Nat}
    (h : program.height? before.length = some height) :
    ∃ after : List (Tree β), after.length = height ∧
      before.reverse.flatMap Tree.postorder ++ program = after.reverse.flatMap Tree.postorder := by
  induction program generalizing before with
  | nil => exact ⟨before, Option.some.inj h, List.append_nil _⟩
  | cons i program ih =>
      cases i with
      | operand b =>
          obtain ⟨after, hlength, hafter⟩ := ih (.leaf b :: before) h
          exact ⟨after, hlength, by simpa [Tree.postorder] using hafter⟩
      | operator o =>
          match before with
          | [] | [_] => simp [height?] at h
          | right :: left :: below =>
              obtain ⟨after, hlength, hafter⟩ := ih (.node o left right :: below) h
              exact ⟨after, hlength, by simpa [Tree.postorder] using hafter⟩

/-- The well-formed programs are those of trees. -/
theorem wellFormed_iff {program : Program β} :
    program.WellFormed ↔ ∃ t : Tree β, program = t.postorder := by
  constructor
  · intro h
    obtain ⟨after, hlength, hafter⟩ := exists_trees_of_height? [] h
    obtain ⟨t, rfl⟩ := List.length_eq_one_iff.1 hlength
    exact ⟨t, by simpa using hafter⟩
  · rintro ⟨t, rfl⟩
    simpa [WellFormed, height?] using height?_postorder_append t [] 0

/-! ## Counting -/

/-- The operators in the order in which they are run. -/
def operators (program : Program β) : List Operator :=
  program.filterMap fun
    | .operand _ => none
    | .operator o => some o

section

variable {program : Program β} {b : β} {o : Operator}

@[simp] theorem operands_concat_operand :
    operands (program ++ [.operand b]) = program.operands ++ [b] := by
  simp [operands]

@[simp] theorem operands_concat_operator :
    operands (program ++ [.operator o]) = program.operands := by
  simp [operands]

@[simp] theorem operators_concat_operand :
    operators (program ++ [.operand b]) = program.operators := by
  simp [operators]

@[simp] theorem operators_concat_operator :
    operators (program ++ [.operator o]) = program.operators ++ [o] := by
  simp [operators]

end

/-- Wherever the program is cut off, it has more operands than operators, unless nothing is left. -/
def Ahead (program : Program β) : Prop :=
  ∀ front : Program β, front <+: program → front ≠ [] →
    front.operators.length < front.operands.length

theorem ahead_nil : Ahead ([] : Program β) :=
  fun _ hfront hne => absurd (List.prefix_nil.1 hfront) hne

theorem ahead_concat {program : Program β} {i : Instruction β} :
    Ahead (program ++ [i]) ↔
      program.Ahead ∧ (operators (program ++ [i])).length < (operands (program ++ [i])).length := by
  unfold Ahead
  simp only [List.prefix_concat_iff]
  constructor
  · intro h
    exact ⟨fun front hfront => h front (.inr hfront), h _ (.inl rfl) (by simp)⟩
  · rintro ⟨hprogram, hall⟩ front (rfl | hfront) hne
    · exact hall
    · exact hprogram front hfront hne

theorem height?_append (program rest : Program β) (height : Nat) :
    height? (program ++ rest) height = (program.height? height).bind rest.height? := by
  induction program generalizing height with
  | nil => rfl
  | cons i program ih =>
      cases i with
      | operand b => exact ih (height + 1)
      | operator o =>
          match height with
          | 0 | 1 => rfl
          | n + 2 => exact ih (n + 1)

section

variable {program : Program β} {b : β} {o : Operator} {before after : Nat}

theorem height?_concat_operand :
    height? (program ++ [.operand b]) before = some after ↔
      ∃ height, program.height? before = some height ∧ height + 1 = after := by
  rw [height?_append, Option.bind_eq_some_iff]
  simp only [height?, Option.some.injEq]

theorem height?_concat_operator :
    height? (program ++ [.operator o]) before = some after ↔
      program.height? before = some (after + 1) ∧ 0 < after := by
  rw [height?_append, Option.bind_eq_some_iff]
  constructor
  · rintro ⟨height, hheight, hstep⟩
    match height with
    | 0 | 1 => simp [height?] at hstep
    | n + 2 =>
        obtain rfl : n + 1 = after := Option.some.inj hstep
        exact ⟨hheight, Nat.succ_pos n⟩
  · rintro ⟨hheight, hpos⟩
    obtain ⟨n, rfl⟩ := Nat.exists_eq_add_of_lt hpos
    exact ⟨_, hheight, by simp [height?]⟩

end

/-- On the empty stack a program finds all its values if it is ahead all along, and what it is ahead
by in the end is how high the stack is then. The induction is on the program from its end. -/
theorem height?_eq_some_iff {program : Program β} {height : Nat} :
    program.height? 0 = some height ↔
      program.Ahead ∧ program.operands.length = program.operators.length + height := by
  induction program using List.reverseRecOn generalizing height with
  | nil => simp [height?, ahead_nil, operands, operators, eq_comm]
  | append_singleton program i ih =>
      rw [ahead_concat]
      cases i with
      | operand b =>
          rw [height?_concat_operand]
          simp only [ih, operands_concat_operand, operators_concat_operand, List.length_append,
            List.length_singleton]
          constructor
          · rintro ⟨before, ⟨hahead, hcount⟩, rfl⟩
            exact ⟨⟨hahead, by omega⟩, by omega⟩
          · rintro ⟨⟨hahead, hless⟩, hcount⟩
            exact ⟨height - 1, ⟨hahead, by omega⟩, by omega⟩
      | operator o =>
          rw [height?_concat_operator, ih]
          simp only [operands_concat_operator, operators_concat_operator, List.length_append,
            List.length_singleton]
          constructor
          · rintro ⟨⟨hahead, hcount⟩, hpos⟩
            exact ⟨⟨hahead, by omega⟩, by omega⟩
          · rintro ⟨⟨hahead, hless⟩, hcount⟩
            exact ⟨⟨hahead, by omega⟩, by omega⟩

/-- **The well-formed programs are those that are ahead all along, and in the end by one.** -/
theorem wellFormed_iff_ahead {program : Program β} :
    program.WellFormed ↔
      program.Ahead ∧ program.operands.length = program.operators.length + 1 :=
  height?_eq_some_iff

/-! ## Faults -/

variable (conj disj : α → α → α) (x : β → α)

/-- A run either goes through, and then the stack is as high as the shape of the program says, or it
stops at an operator that lacks a value. -/
theorem run_total (program : Program β) (stack : List α) :
    (∃ after, program.run (.total conj disj) (fun b => .ok (x b)) stack = .ok after ∧
        program.height? stack.length = some after.length) ∨
      ∃ o, program.run (.total conj disj) (fun b => .ok (x b)) stack = .error (.underflow o) ∧
        program.height? stack.length = none := by
  induction program generalizing stack with
  | nil => exact .inl ⟨stack, rfl, rfl⟩
  | cons i program ih =>
      cases i with
      | operand b => exact ih (x b :: stack)
      | operator o =>
          match stack with
          | [] | [_] => exact .inr ⟨o, rfl, rfl⟩
          | right :: left :: below =>
              cases o with
              | and => exact ih (conj left right :: below)
              | or => exact ih (disj left right :: below)

theorem exists_malformed_of_not_wellFormed {program : Program β} (h : ¬ program.WellFormed) :
    ∃ f : Fault, f.Malformed ∧
      program.evaluate (.total conj disj) (fun b => .ok (x b)) = .error f := by
  obtain ⟨after, hrun, hheight⟩ | ⟨o, hrun, -⟩ := run_total conj disj x program []
  · have hlength : after.length ≠ 1 := fun hone => h (hheight.trans (congrArg some hone))
    refine ⟨.leftover after.length, .leftover _, ?_⟩
    rw [evaluate, hrun]
    cases after with
    | nil => rfl
    | cons a below =>
        cases below with
        | nil => exact absurd rfl hlength
        | cons b rest => rfl
  · refine ⟨.underflow o, .underflow o, ?_⟩
    rw [evaluate, hrun]
    rfl

/-- **The programs that can be run are the postorders of trees**, each of one tree only. Such a
program yields the value of its tree, the left side being the first argument of each operator; every
other one ends with the fault of a program that does not fit its stack. -/
theorem evaluate_total_iff_postorder (program : Program β) :
    ((∃ a, program.evaluate (.total conj disj) (fun b => .ok (x b)) = .ok a) ↔
        ∃! t : Tree β, program = t.postorder) ∧
      (∀ a, program.evaluate (.total conj disj) (fun b => .ok (x b)) = .ok a ↔
        ∃ t : Tree β, program = t.postorder ∧ a = t.fold conj disj x) ∧
      ((∃ f : Fault, f.Malformed ∧
          program.evaluate (.total conj disj) (fun b => .ok (x b)) = .error f) ↔
        ∀ t : Tree β, program ≠ t.postorder) := by
  by_cases h : program.WellFormed
  · obtain ⟨t, rfl⟩ := wellFormed_iff.1 h
    simp only [t.evaluate_total, Tree.postorder_injective.eq_iff]
    simp [eq_comm]
  · obtain ⟨f, hf, heval⟩ := exists_malformed_of_not_wellFormed conj disj x h
    have hnone (t : Tree β) : program ≠ t.postorder := fun ht => h (wellFormed_iff.2 ⟨t, ht⟩)
    simp [heval, hnone, hf]

end Program

end FuzzyLogic
