import FuzzyLogic.Proofs.Rearrangement
import FuzzyLogic.Proofs.Rule.Compilation

set_option autoImplicit false

/-! # Chains grouped to the left

The compiler groups a chain of equal operators to the right, while by convention it is read from the
left. The tree of the conventional reading is a rearrangement of the tree of the program, so under
stock operators a rule has the strength that its reader expects. -/

namespace FuzzyLogic.Rule

open Set

/-! ## The conventional reading -/

section

variable {β : Type}

/-- A tree as the right operand of what stands before it, if anything does. -/
def behind (o : Operator) (before : Option (Tree β)) (t : Tree β) : Tree β :=
  match before with
  | none => t
  | some left => .node o left t

mutual

/-- The tree of a term, every chain in it grouped to the left. -/
def Term.leftTree : Term β → Tree β
  | .clause b => .leaf b
  | .group a => a.leftTreeBehind none none

/-- The tree of a chain grouped to the left. Before it stand the alternatives that are complete, and
the conjunction that the chain goes on with. -/
def Antecedent.leftTreeBehind (alternatives conjunction : Option (Tree β)) :
    Antecedent β → Tree β
  | .last t => behind .or alternatives (behind .and conjunction t.leftTree)
  | .join t .and rest =>
    rest.leftTreeBehind alternatives (some (behind .and conjunction t.leftTree))
  | .join t .or rest =>
    rest.leftTreeBehind (some (behind .or alternatives (behind .and conjunction t.leftTree))) none

end

/-- The tree of an antecedent in which parentheses group, AND binds tighter than OR, and equal
operators group to the left. -/
def Antecedent.leftTree (a : Antecedent β) : Tree β :=
  a.leftTreeBehind none none

/-- `a AND b AND c OR d OR e`. -/
example (a b c d e : β) :
    (Antecedent.join (.clause a) .and (.join (.clause b) .and (.join (.clause c) .or
        (.join (.clause d) .or (.last (.clause e)))))).leftTree
      = .node .or (.node .or (.node .and (.node .and (.leaf a) (.leaf b)) (.leaf c)) (.leaf d))
          (.leaf e) := rfl

end

/-! ## Operands -/

section

variable {β : Type}

theorem leaves_behind (o : Operator) (before : Option (Tree β)) (t : Tree β) :
    (behind o before t).leaves = leavesOf before ++ t.leaves := by
  cases before <;> rfl

mutual

theorem Term.leaves_leftTree (t : Term β) : t.leftTree.leaves = t.tree.leaves := by
  cases t with
  | clause b => rw [Term.leftTree, Term.tree]
  | group a =>
      rw [Term.leftTree, Term.tree_group, a.leaves_leftTreeBehind]
      rfl

theorem Antecedent.leaves_leftTreeBehind (alternatives conjunction : Option (Tree β))
    (a : Antecedent β) :
    (a.leftTreeBehind alternatives conjunction).leaves
      = leavesOf alternatives ++ leavesOf conjunction ++ a.tree.leaves := by
  match a with
  | .last t =>
      simp [Antecedent.leftTreeBehind, Antecedent.tree, Antecedent.conjunction,
        Antecedent.alternatives, disjunction, leaves_behind, t.leaves_leftTree]
  | .join t .and rest =>
      rw [Antecedent.leftTreeBehind, rest.leaves_leftTreeBehind]
      simp [Antecedent.tree, Antecedent.conjunction, Antecedent.alternatives, leaves_disjunction,
        leavesOf, leaves_behind, Tree.leaves, t.leaves_leftTree]
  | .join t .or rest =>
      rw [Antecedent.leftTreeBehind, rest.leaves_leftTreeBehind]
      simp [Antecedent.tree, Antecedent.conjunction, Antecedent.alternatives, leaves_disjunction,
        leavesOf, leaves_behind, t.leaves_leftTree]

end

/-- The two readings have the same operands in the same order. -/
theorem Antecedent.leaves_leftTree (a : Antecedent β) : a.leftTree.leaves = a.tree.leaves :=
  a.leaves_leftTreeBehind none none

end

/-! ## Both readings -/

section

variable {K β : Type} [Field K] [LinearOrder K] {n : TNorm} {s : SNorm} {x : β → K}

theorem rearranged_behind (o : Operator) (before : Option (Tree β)) {t u : Tree β}
    (h : t.Rearranged n s x u) : (behind o before t).Rearranged n s x (behind o before u) := by
  cases before with
  | none => exact h
  | some left => exact .node o (.refl left) h

theorem rearranged_disjunction {t u : Tree β} (h : t.Rearranged n s x u)
    (others : Option (Tree β)) :
    (disjunction t others).Rearranged n s x (disjunction u others) := by
  cases others with
  | none => exact h
  | some others => exact .node .or h (.refl others)

/-- What stands before the left operand can as well stand before both. -/
theorem rearranged_node_behind (o : Operator) (before : Option (Tree β)) (t u : Tree β) :
    (Tree.node o (behind o before t) u).Rearranged n s x (behind o before (.node o t u)) := by
  cases before with
  | none => exact .refl _
  | some left => exact .regroup o left t u

mutual

theorem Term.rearranged_leftTree (t : Term β) : t.leftTree.Rearranged n s x t.tree := by
  cases t with
  | clause b =>
      rw [Term.leftTree, Term.tree]
      exact .refl _
  | group a =>
      rw [Term.leftTree, Term.tree]
      exact a.rearranged_leftTreeBehind none none

/-- What stands before a chain is grouped with its first conjunction and with all of it. -/
theorem Antecedent.rearranged_leftTreeBehind (alternatives conjunction : Option (Tree β))
    (a : Antecedent β) :
    (a.leftTreeBehind alternatives conjunction).Rearranged n s x
      (behind .or alternatives
        (disjunction (behind .and conjunction a.conjunction) a.alternatives)) := by
  match a with
  | .last t =>
      rw [Antecedent.leftTreeBehind, Antecedent.conjunction, Antecedent.alternatives, disjunction]
      exact rearranged_behind .or _ (rearranged_behind .and _ t.rearranged_leftTree)
  | .join t .and rest =>
      have hfirst :
          (Tree.node .and (behind .and conjunction t.leftTree) rest.conjunction).Rearranged n s x
            (behind .and conjunction (.node .and t.tree rest.conjunction)) :=
        (rearranged_node_behind .and conjunction _ _).trans
          (rearranged_behind .and _ (.node .and t.rearranged_leftTree (.refl _)))
      rw [Antecedent.leftTreeBehind, Antecedent.conjunction, Antecedent.alternatives]
      exact (rest.rearranged_leftTreeBehind _ _).trans
        (rearranged_behind .or _ (rearranged_disjunction hfirst _))
  | .join t .or rest =>
      have hfirst := rearranged_behind .and conjunction (n := n) (s := s) (x := x)
        t.rearranged_leftTree
      rw [Antecedent.leftTreeBehind, Antecedent.conjunction, Antecedent.alternatives]
      exact (rest.rearranged_leftTreeBehind _ _).trans
        ((rearranged_node_behind .or alternatives _ _).trans
          (rearranged_behind .or _ (.node .or hfirst (.refl _))))

end

/-- The two readings of an antecedent are rearrangements of each other. -/
theorem Antecedent.rearranged_leftTree (a : Antecedent β) :
    a.leftTree.Rearranged n s x a.tree :=
  a.rearranged_leftTreeBehind none none

end

/-! ## Strengths -/

section

variable {K V L : Type} [Field K] [LinearOrder K] [IsStrictOrderedRing K] [Exponential K]

/-- **Neither the order nor the grouping of equal operators matters to the strength of a rule**, and
neither do operands of the neutral degree, whatever stock operators the rule is bound to. So the
program that the compiler makes of an antecedent has the value of the conventional reading. -/
theorem strength_eq_of_rearranged (n : TNorm) (s : SNorm) (scope : Scope V L)
    (degree : Clause V L → Except Fault K) (x : Clause V L → K) :
    (∀ t u : Tree (Clause V L), t.Rearranged n s x u →
        (∀ c, c ∈ t.leaves ∨ c ∈ u.leaves → degree c = .ok (x c) ∧ x c ∈ Icc (0 : K) 1) →
          ∃ v, t.postorder.evaluate (.stock n s) degree = .ok v ∧
            u.postorder.evaluate (.stock n s) degree = .ok v) ∧
      ∀ (text : String) (a : Antecedent (Clause V L)) (b : Clause V L),
        RuleSpelled scope.Names a b (tokenize text) →
          (∀ c ∈ a.tree.leaves, degree c = .ok (x c) ∧ x c ∈ Icc (0 : K) 1) →
            ∃ r v, compile scope text = .ok r ∧ r.program.evaluate (.stock n s) degree = .ok v ∧
              a.leftTree.postorder.evaluate (.stock n s) degree = .ok v := by
  have hpart (t u : Tree (Clause V L)) (h : t.Rearranged n s x u)
      (hdegree : ∀ c, c ∈ t.leaves ∨ c ∈ u.leaves → degree c = .ok (x c) ∧ x c ∈ Icc (0 : K) 1) :
      ∃ v, t.postorder.evaluate (.stock n s) degree = .ok v ∧
        u.postorder.evaluate (.stock n s) degree = .ok v := by
    have ht := t.evaluate_stock n s fun c hc => (hdegree c (.inl hc)).1
    have hu := u.evaluate_stock n s fun c hc => (hdegree c (.inr hc)).1
    exact ⟨_, ht, h.fold_eq (fun c hc => (hdegree c (.inl hc)).2) ▸ hu⟩
  refine ⟨hpart, fun text a b hspelled hdegree => ?_⟩
  obtain ⟨v, hright, hleft⟩ := hpart a.tree a.leftTree a.rearranged_leftTree.symm <| by
    rw [a.leaves_leftTree]
    exact fun c hc => hdegree c (or_self_iff.1 hc)
  exact ⟨_, v, compileTokens_of_spelled hspelled, hright, hleft⟩

/-- A chain of three clauses with Hamacher operators, and the same without the one that is true. -/
theorem strength_eq_of_rearranged_chain :
    letI : Exponential ℚ := ⟨id⟩
    let scope : Scope String String := { lookup := some, labelOf := fun _ => some, nameOf := id }
    let degree : Clause String String → Except Fault ℚ := fun c =>
      .ok (if c.subject = "C" then 1 else 1 / 3)
    let a : Clause String String := ⟨"A", "l"⟩
    let b : Clause String String := ⟨"B", "l"⟩
    let c : Clause String String := ⟨"C", "l"⟩
    (∃ v, Program.evaluate (.stock .hamacher .hamacher) degree
            [.operand a, .operand b, .operator .and, .operand c, .operator .and] = .ok v ∧
          Program.evaluate (.stock .hamacher .hamacher) degree
            [.operand b, .operand a, .operator .and] = .ok v) ∧
      ∃ r v, compile scope "IF A is l and B is l and C is l THEN A is l" = .ok r ∧
        r.program.evaluate (.stock .hamacher .hamacher) degree = .ok v ∧
        Program.evaluate (.stock .hamacher .hamacher) degree
          [.operand a, .operand b, .operator .and, .operand c, .operator .and] = .ok v := by
  let _ : Exponential ℚ := ⟨id⟩
  intro scope degree a b c
  let x : Clause String String → ℚ := fun d => if d.subject = "C" then 1 else 1 / 3
  have hdegree (d : Clause String String) : degree d = .ok (x d) ∧ x d ∈ Icc (0 : ℚ) 1 := by
    refine ⟨rfl, ?_⟩
    simp only [x]
    split <;> norm_num
  have hspelled (name : String) (hname : capitals name ∉ subjectReserved) :
      (Term.clause (⟨name, "l"⟩ : Clause String String)).Spelled scope.Names [name, "is", "l"] :=
    .clause ⟨hname, by decide, rfl, rfl⟩ (by decide)
  let chain : Antecedent (Clause String String) :=
    .join (.clause a) .and (.join (.clause b) .and (.last (.clause c)))
  have hchain : chain.Spelled scope.Names
      ["A", "is", "l", "and", "B", "is", "l", "and", "C", "is", "l"] :=
    .join (hspelled "A" (by decide)) (by decide)
      (.join (hspelled "B" (by decide)) (by decide) (.last (hspelled "C" (by decide))))
  have hrule : RuleSpelled scope.Names chain a
      (tokenize "IF A is l and B is l and C is l THEN A is l") :=
    RuleSpelled.rule (by decide) hchain (by decide) (hspelled "A" (by decide))
  have hdrop : (Tree.node .and (.node .and (.leaf a) (.leaf b)) (.leaf c)).Rearranged
      .hamacher .hamacher x (.node .and (.leaf b) (.leaf a)) :=
    .trans (.dropTrue _ (fun d _ => (hdegree d).2) rfl) (.swap .and _ _)
  obtain ⟨hrearranged, hcompiled⟩ :=
    strength_eq_of_rearranged .hamacher .hamacher scope degree x
  exact ⟨hrearranged _ _ hdrop fun d _ => hdegree d,
    hcompiled _ chain a hrule fun d _ => hdegree d⟩

end

end FuzzyLogic.Rule
