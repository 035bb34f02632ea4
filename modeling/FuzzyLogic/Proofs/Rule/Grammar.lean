import FuzzyLogic.Proofs.Rule.Keyword
import FuzzyLogic.Rule.Compile

set_option autoImplicit false

/-! # The grammar of rules

A rule is derived from four lines:

* a rule is `IF antecedent THEN clause`,
* an antecedent is a term, or a term, an operator and an antecedent,
* a term is a clause, or an antecedent in parentheses,
* a clause is `subject IS label`.

`Antecedent` and `Term` are the derivations, with clauses of any type `β`; `Antecedent.Spelled` says
which tokens a derivation spells. The grammar leaves a chain of operators flat. What the chain means
is its tree: parentheses group, AND binds tighter than OR, and equal operators group to the
right. -/

namespace FuzzyLogic.Rule

/-! ## Derivations -/

mutual

/-- A term as it is written. -/
inductive Term (β : Type) where
  | clause (b : β)
  | group (a : Antecedent β)

/-- Terms joined by operators, as they are written. -/
inductive Antecedent (β : Type) where
  | last (t : Term β)
  | join (t : Term β) (o : Operator) (rest : Antecedent β)

end

section

variable {β : Type} (names : String → String → β → Prop)

mutual

/-- The tokens that a term spells. `names subject label b` says which clause two names make up. -/
inductive Term.Spelled : Term β → List String → Prop
  | clause {subject word label : String} {b : β} (hnames : names subject label b)
      (hword : capitals word = "IS") :
      Term.Spelled (.clause b) [subject, word, label]
  | group {a : Antecedent β} {ts : List String} (h : Antecedent.Spelled a ts) :
      Term.Spelled (.group a) ("(" :: ts ++ [")"])

/-- The tokens that an antecedent spells. -/
inductive Antecedent.Spelled : Antecedent β → List String → Prop
  | last {t : Term β} {ts : List String} (h : Term.Spelled t ts) : Antecedent.Spelled (.last t) ts
  | join {t : Term β} {ts us : List String} {word : String} {o : Operator} {rest : Antecedent β}
      (h : Term.Spelled t ts) (hword : capitals word = o.name)
      (hrest : Antecedent.Spelled rest us) :
      Antecedent.Spelled (.join t o rest) (ts ++ word :: us)

end

/-- The tokens that a rule with the antecedent `a` and the consequent `b` spells. -/
inductive RuleSpelled (a : Antecedent β) (b : β) : List String → Prop
  | rule {ifWord thenWord : String} {ts us : List String} (hif : capitals ifWord = "IF")
      (hante : a.Spelled names ts) (hthen : capitals thenWord = "THEN")
      (hcons : Term.Spelled names (.clause b) us) :
      RuleSpelled a b (ifWord :: ts ++ thenWord :: us)

end

/-- Two names make up a clause if they are not reserved, the first is the name of a variable, and
the second the name of one of its labels. -/
structure Scope.Names {V L : Type} (scope : Scope V L) (subject label : String)
    (c : Clause V L) : Prop where
  subject_free : capitals subject ∉ subjectReserved
  label_free : capitals label ∉ labelReserved
  lookup_eq : scope.lookup subject = some c.subject
  labelOf_eq : scope.labelOf c.subject label = some c.label

/-! ## Trees -/

section

variable {β : Type}

/-- A first alternative and the tree of the others, if there are others. -/
def disjunction (first : Tree β) : Option (Tree β) → Tree β
  | none => first
  | some others => .node .or first others

mutual

/-- The syntax tree of a term: parentheses group. -/
def Term.tree : Term β → Tree β
  | .clause b => .leaf b
  | .group a => disjunction a.conjunction a.alternatives

/-- The tree of the terms up to the first OR, grouped to the right. -/
def Antecedent.conjunction : Antecedent β → Tree β
  | .last t => t.tree
  | .join t .and rest => .node .and t.tree rest.conjunction
  | .join t .or _ => t.tree

/-- The tree of the terms behind the first OR, if there is one. -/
def Antecedent.alternatives : Antecedent β → Option (Tree β)
  | .last _ => none
  | .join _ .and rest => rest.alternatives
  | .join _ .or rest => some (disjunction rest.conjunction rest.alternatives)

end

/-- The syntax tree of an antecedent. -/
def Antecedent.tree (a : Antecedent β) : Tree β :=
  disjunction a.conjunction a.alternatives

theorem Term.tree_group (a : Antecedent β) : (Term.group a).tree = a.tree := by
  rw [Term.tree, Antecedent.tree]

/-- What the alternatives add to the program of the first one. -/
def alternativesCode : Option (Tree β) → Program β
  | none => []
  | some others => others.postorder ++ [.operator .or]

theorem postorder_disjunction (first : Tree β) (others : Option (Tree β)) :
    (disjunction first others).postorder = first.postorder ++ alternativesCode others := by
  cases others with
  | none => simp [disjunction, alternativesCode]
  | some others => simp [disjunction, alternativesCode, Tree.postorder]

theorem Antecedent.postorder_tree (a : Antecedent β) :
    a.tree.postorder = a.conjunction.postorder ++ alternativesCode a.alternatives :=
  postorder_disjunction a.conjunction a.alternatives

end

/-- `a AND b OR c AND (d OR e)`: the OR outside of the parentheses is the root. -/
example {β : Type} (a b c d e : β) :
    (Antecedent.join (.clause a) .and (.join (.clause b) .or (.join (.clause c) .and
        (.last (.group (.join (.clause d) .or (.last (.clause e)))))))).tree
      = .node .or (.node .and (.leaf a) (.leaf b))
          (.node .and (.leaf c) (.node .or (.leaf d) (.leaf e))) := rfl

/-! ## Clauses -/

section

variable {β : Type}

mutual

/-- The clauses of a term as they follow one another in the text. -/
def Term.clauses : Term β → List β
  | .clause b => [b]
  | .group a => a.clauses

/-- The clauses of an antecedent as they follow one another in the text. -/
def Antecedent.clauses : Antecedent β → List β
  | .last t => t.clauses
  | .join t _ rest => t.clauses ++ rest.clauses

end

/-- The leaves of a tree that need not be there. -/
def leavesOf (t : Option (Tree β)) : List β :=
  t.elim [] Tree.leaves

theorem leaves_disjunction (first : Tree β) (others : Option (Tree β)) :
    (disjunction first others).leaves = first.leaves ++ leavesOf others := by
  cases others with
  | none => exact (List.append_nil _).symm
  | some others => rfl

mutual

theorem Term.leaves_tree (t : Term β) : t.tree.leaves = t.clauses := by
  cases t with
  | clause b => rw [Term.tree, Term.clauses, Tree.leaves]
  | group a => rw [Term.tree_group, Term.clauses, a.leaves_tree]

/-- The tree has the clauses as its leaves, in the order of the text. -/
theorem Antecedent.leaves_tree (a : Antecedent β) : a.tree.leaves = a.clauses := by
  rw [Antecedent.tree, leaves_disjunction]
  match a with
  | .last t =>
      rw [Antecedent.conjunction, Antecedent.alternatives, Antecedent.clauses, t.leaves_tree]
      exact List.append_nil _
  | .join t .and rest =>
      have hrest := rest.leaves_tree
      rw [Antecedent.tree, leaves_disjunction] at hrest
      rw [Antecedent.conjunction, Antecedent.alternatives, Antecedent.clauses, Tree.leaves,
        List.append_assoc, hrest, t.leaves_tree]
  | .join t .or rest =>
      rw [Antecedent.conjunction, Antecedent.alternatives, Antecedent.clauses, t.leaves_tree,
        ← rest.leaves_tree]
      rfl

end

end

/-! ## Other clauses in the same places -/

section

variable {β γ : Type} (f : β → γ)

mutual

/-- The term with every clause replaced. -/
def Term.map : Term β → Term γ
  | .clause b => .clause (f b)
  | .group a => .group a.map

/-- The antecedent with every clause replaced. -/
def Antecedent.map : Antecedent β → Antecedent γ
  | .last t => .last t.map
  | .join t o rest => .join t.map o rest.map

end

mutual

theorem Term.clauses_map (t : Term β) : (t.map f).clauses = t.clauses.map f := by
  cases t with
  | clause b => rw [Term.map, Term.clauses, Term.clauses, List.map_singleton]
  | group a => rw [Term.map, Term.clauses, Term.clauses, a.clauses_map]

theorem Antecedent.clauses_map (a : Antecedent β) : (a.map f).clauses = a.clauses.map f := by
  cases a with
  | last t => rw [Antecedent.map, Antecedent.clauses, Antecedent.clauses, t.clauses_map]
  | join t o rest =>
      rw [Antecedent.map, Antecedent.clauses, Antecedent.clauses, t.clauses_map, rest.clauses_map,
        List.map_append]

end

variable {names : String → String → β → Prop} {names' : String → String → γ → Prop}

mutual

theorem Term.Spelled.map {t : Term β} {ts : List String} (h : t.Spelled names ts)
    (hnames : ∀ subject ∈ ts, ∀ label ∈ ts, ∀ b, names subject label b →
      names' subject label (f b)) : (t.map f).Spelled names' ts := by
  cases h with
  | @clause subject word label b hb hword =>
      rw [Term.map]
      exact .clause (hnames subject (by simp) label (by simp) b hb) hword
  | @group a ts ha =>
      rw [Term.map]
      exact .group (ha.map fun subject hsubject label hlabel =>
        hnames subject (by simp [hsubject]) label (by simp [hlabel]))

/-- The same tokens spell the replaced clauses, if their names make them up. -/
theorem Antecedent.Spelled.map {a : Antecedent β} {ts : List String} (h : a.Spelled names ts)
    (hnames : ∀ subject ∈ ts, ∀ label ∈ ts, ∀ b, names subject label b →
      names' subject label (f b)) : (a.map f).Spelled names' ts := by
  cases h with
  | last ht =>
      rw [Antecedent.map]
      exact .last (ht.map hnames)
  | @join t ts us word o rest ht hword hrest =>
      rw [Antecedent.map]
      exact .join
        (ht.map fun subject hsubject label hlabel =>
          hnames subject (by simp [hsubject]) label (by simp [hlabel]))
        hword
        (hrest.map fun subject hsubject label hlabel =>
          hnames subject (by simp [hsubject]) label (by simp [hlabel]))

end

theorem RuleSpelled.map {a : Antecedent β} {b : β} {tokens : List String}
    (h : RuleSpelled names a b tokens)
    (hnames : ∀ subject ∈ tokens, ∀ label ∈ tokens, ∀ c, names subject label c →
      names' subject label (f c)) : RuleSpelled names' (a.map f) (f b) tokens := by
  obtain @⟨ifWord, thenWord, ts, us, hif, hante, hthen, hcons⟩ := h
  have hante' := hante.map f fun subject hsubject label hlabel =>
    hnames subject (by simp [hsubject]) label (by simp [hlabel])
  have hcons' := hcons.map f fun subject hsubject label hlabel =>
    hnames subject (by simp [hsubject]) label (by simp [hlabel])
  rw [Term.map] at hcons'
  exact .rule hif hante' hthen hcons'

end

end FuzzyLogic.Rule
