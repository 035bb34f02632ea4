import FuzzyLogic.Proofs.Strength

set_option autoImplicit false

/-! # Duality

What is not true of both is untrue of one of them. On truth values this is the law of De Morgan: AND
and OR change places when every value is replaced by what it lacks of one. The stock norms come in
pairs for which the law is exact, so it holds of every program with every choice of stock norms. A
program that does not fit its stack fails in the same place as its dual does. -/

namespace FuzzyLogic

variable {β γ : Type}

/-! ## Dual norms -/

/-- The s-norm that belongs to a t-norm. -/
def TNorm.dual : TNorm → SNorm
  | minimum => .maximum
  | product => .probabilistic
  | lukasiewicz => .boundedSum
  | hamacher => .hamacher

@[simp] theorem TNorm.dual_dual (n : TNorm) : n.dual.dual = n := by
  cases n <;> rfl

section

variable {K : Type} [Field K] [LinearOrder K]

theorem TNorm.one_sub_value (n : TNorm) (x y : K) :
    1 - n.value x y = n.dual.value (1 - x) (1 - y) := by
  rw [SNorm.value, dual_dual, sub_sub_cancel, sub_sub_cancel]

theorem SNorm.one_sub_value (s : SNorm) (x y : K) :
    1 - s.value x y = s.dual.value (1 - x) (1 - y) := by
  rw [value, sub_sub_cancel]

end

/-! ## Dual programs -/

/-- AND in the place of OR and the other way round. -/
def Operator.dual : Operator → Operator
  | .or => .and
  | .and => .or

/-- The fault that the dual program meets where a program meets the given one. -/
def Fault.dual : Fault → Fault
  | underflow o => underflow o.dual
  | divisionByZero => divisionByZero
  | leftover count => leftover count
  | strayClause => strayClause

/-- The same step with the dual operator. -/
def Instruction.dual : Instruction β → Instruction β
  | operand b => operand b
  | operator o => operator o.dual

/-- The program with AND and OR in each other's places throughout. -/
def Program.dual (program : Program β) : Program β :=
  program.map Instruction.dual

/-- A result with its value changed by `f` and with the dual fault. -/
def dualResult (f : β → γ) : Except Fault β → Except Fault γ
  | .ok b => .ok (f b)
  | .error e => .error e.dual

/-- What is lacking to one: the complement of a truth value that may meet a fault. -/
def complement {K : Type} [One K] [Sub K] : Except Fault K → Except Fault K :=
  dualResult (1 - ·)

theorem dualResult_bind {δ ε : Type} {f : β → γ} {g : δ → ε} {x : Except Fault β}
    {k : β → Except Fault δ} {k' : γ → Except Fault ε}
    (hk : ∀ b, k' (f b) = dualResult g (k b)) :
    dualResult f x >>= k' = dualResult g (x >>= k) := by
  cases x with
  | error e => rfl
  | ok b => exact hk b

/-! ## Dual truth functions -/

/-- The truth functions obey the law of De Morgan together. -/
def Connectives.Dual {K : Type} [One K] [Sub K] (c c' : Connectives K) : Prop :=
  ∀ o x y, c'.apply o.dual (1 - x) (1 - y) = complement (c.apply o x y)

theorem Connectives.dual_stock {K : Type} [Field K] [LinearOrder K] [IsStrictOrderedRing K]
    [Exponential K] (n : TNorm) (s : SNorm) :
    (stock n s : Connectives K).Dual (stock s.dual n.dual) := by
  intro o x y
  cases o with
  | and =>
      show n.dual.apply (1 - x) (1 - y) = complement (n.apply x y)
      rw [SNorm.apply_eq, TNorm.apply_eq, ← n.one_sub_value]
      rfl
  | or =>
      show s.dual.apply (1 - x) (1 - y) = complement (s.apply x y)
      rw [TNorm.apply_eq, SNorm.apply_eq, ← s.one_sub_value]
      rfl

namespace Program

variable {K : Type} [One K] [Sub K] {c c' : Connectives K}

/-- One step of the dual program on the complements of the values on the stack. -/
theorem step_dual (hc : c.Dual c') (degree : β → Except Fault K) (stack : List K)
    (i : Instruction β) :
    step c' (fun b => complement (degree b)) (stack.map (1 - ·)) i.dual
      = dualResult (List.map (1 - ·)) (step c degree stack i) := by
  cases i with
  | operand b => exact dualResult_bind fun x => rfl
  | operator o =>
      match stack with
      | [] | [_] => rfl
      | y :: x :: below =>
          refine (congrArg (· >>= _) (hc o x y)).trans ?_
          exact dualResult_bind fun z => rfl

theorem run_dual (hc : c.Dual c') (degree : β → Except Fault K) (program : Program β)
    (stack : List K) :
    program.dual.run c' (fun b => complement (degree b)) (stack.map (1 - ·))
      = dualResult (List.map (1 - ·)) (program.run c degree stack) := by
  induction program generalizing stack with
  | nil => rfl
  | cons i rest ih =>
      have hstep := step_dual hc degree stack i
      rw [dual, List.map_cons, run, run, List.foldlM_cons, List.foldlM_cons, hstep]
      exact dualResult_bind fun stack' => ih stack'

theorem evaluate_dual (hc : c.Dual c') (degree : β → Except Fault K) (program : Program β) :
    program.dual.evaluate c' (fun b => complement (degree b))
      = complement (program.evaluate c degree) := by
  have hrun := run_dual hc degree program []
  rw [List.map_nil] at hrun
  rw [evaluate, evaluate, hrun]
  refine dualResult_bind fun stack => ?_
  obtain - | ⟨y, - | ⟨x, below⟩⟩ := stack
  · rfl
  · rfl
  · have hlength : ((y :: x :: below).map (1 - ·)).length = (y :: x :: below).length :=
      List.length_map _
    exact congrArg (fun count => Except.error (Fault.leftover count)) hlength

/-- **The stock norms are dual in pairs.** The program with AND and OR exchanged, run with the dual
norms on the complements of the degrees, yields the complement of what the program yields, exactly.
-/
theorem strength_dual {K : Type} [Field K] [LinearOrder K] [IsStrictOrderedRing K] [Exponential K]
    (n : TNorm) (s : SNorm) (program : Program β) (degree : β → Except Fault K) :
    program.dual.evaluate (.stock s.dual n.dual) (fun b => complement (degree b))
      = complement (program.evaluate (.stock n s) degree) :=
  evaluate_dual (Connectives.dual_stock n s) degree program

/-- A program of both operators with the product and the Hamacher sum, and the value of its dual with
the Hamacher product and the probabilistic sum. -/
theorem strength_dual_product_hamacher :
    letI : Exponential ℚ := ⟨id⟩
    let program : Program ℚ :=
      [.operand (1 / 2), .operand (1 / 2), .operator .or, .operand (1 / 4), .operator .and]
    program.evaluate (.stock .product .hamacher) .ok = .ok (1 / 6) ∧
      program.dual.evaluate (.stock SNorm.hamacher.dual TNorm.product.dual)
        (fun b => complement (.ok b)) = .ok (5 / 6) := by
  let _ : Exponential ℚ := ⟨id⟩
  intro program
  have hvalue : program.evaluate (.stock .product .hamacher) .ok = .ok (1 / 6) := by
    let t : Tree ℚ := .node .and (.node .or (.leaf (1 / 2)) (.leaf (1 / 2))) (.leaf (1 / 4))
    refine (t.evaluate_stock (x := id) .product .hamacher fun _ _ => rfl).trans ?_
    refine congrArg Except.ok ?_
    norm_num [t, Tree.fold, SNorm.value, SNorm.dual, TNorm.value]
  refine ⟨hvalue, (strength_dual .product .hamacher program .ok).trans ?_⟩
  rw [hvalue]
  exact congrArg Except.ok (by norm_num)

end Program

end FuzzyLogic
