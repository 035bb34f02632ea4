import FuzzyLogic.Proofs.Rule.Acceptance

set_option autoImplicit false

/-! # What a rule takes from its scope

The compiler knows variables and labels only by the names that the scope gives them. So all clauses
of a compiled rule are made up of names of the scope, and a scope that has more names, but means the
same by the old ones, leads to the same rule. -/

namespace FuzzyLogic.Rule

variable {V L : Type}

/-! ## Clauses -/

section

variable {β : Type} {names : String → String → β → Prop}

theorem mem_leaves_disjunction {first : Tree β} {others : Option (Tree β)} {b : β} :
    b ∈ (disjunction first others).leaves ↔ b ∈ first.leaves ∨ ∃ t ∈ others, b ∈ t.leaves := by
  cases others with
  | none => simp [disjunction]
  | some t => simp [disjunction, Tree.leaves]

mutual

theorem Term.Spelled.named {t : Term β} {ts : List String} (h : t.Spelled names ts) :
    ∀ b ∈ t.tree.leaves, ∃ subject label, names subject label b := by
  cases h with
  | clause hnames hword =>
      rintro b hb
      obtain rfl := List.mem_singleton.1 hb
      exact ⟨_, _, hnames⟩
  | group ha =>
      rw [Term.tree_group]
      exact ha.named

theorem Antecedent.Spelled.named {a : Antecedent β} {ts : List String} (h : a.Spelled names ts) :
    ∀ b ∈ a.tree.leaves, ∃ subject label, names subject label b := by
  cases h with
  | last ht => exact ht.named
  | @join t ts us word o rest ht hword hrest =>
      intro b hb
      have hsplit : b ∈ t.tree.leaves ∨ b ∈ rest.tree.leaves := by
        cases o with
        | and =>
            simp only [Antecedent.tree, Antecedent.conjunction, Antecedent.alternatives,
              mem_leaves_disjunction, Tree.leaves, List.mem_append] at hb ⊢
            exact or_assoc.1 hb
        | or =>
            simpa only [Antecedent.tree, Antecedent.conjunction, Antecedent.alternatives,
              mem_leaves_disjunction, Option.mem_some, exists_eq_left'] using hb
      exact hsplit.elim (ht.named b) (hrest.named b)

end

theorem RuleSpelled.named {a : Antecedent β} {b : β} {tokens : List String}
    (h : RuleSpelled names a b tokens) :
    ∀ c, c = b ∨ c ∈ a.tree.leaves → ∃ subject label, names subject label c := by
  obtain @⟨ifWord, thenWord, ts, us, hif, hante, hthen, hcons⟩ := h
  rintro c (rfl | hc)
  · exact hcons.named _ (by simp [Term.tree, Tree.leaves])
  · exact hante.named c hc

/-- The names that make up a clause are among the tokens. -/
theorem RuleSpelled.named_in {a : Antecedent β} {b : β} {tokens : List String}
    (h : RuleSpelled names a b tokens) :
    ∀ c ∈ a.clauses, ∃ subject ∈ tokens, ∃ label ∈ tokens, names subject label c := by
  have hin : RuleSpelled (fun subject label c =>
      subject ∈ tokens ∧ label ∈ tokens ∧ names subject label c) (a.map id) b tokens :=
    h.map id fun subject hsubject label hlabel c hc => ⟨hsubject, hlabel, hc⟩
  intro c hc
  have hleaf : c ∈ (a.map id).tree.leaves := by
    rwa [Antecedent.leaves_tree, Antecedent.clauses_map, List.map_id]
  obtain ⟨subject, label, hsubject, hlabel, hnames⟩ := hin.named c (.inr hleaf)
  exact ⟨subject, hsubject, label, hlabel, hnames⟩

end

/-- The program of a compiled rule is that of a tree, and all its clauses are made up of names of
the scope. -/
theorem named_of_compile {scope : Scope V L} {text : String} {r : Compiled V L}
    (h : compile scope text = .ok r) :
    ∃ t : Tree (Clause V L), r.program = t.postorder ∧
      ∀ c, c = r.consequent ∨ c ∈ t.leaves → ∃ subject label, scope.Names subject label c := by
  obtain ⟨a, hspelled, hprogram⟩ := spelled_of_compileTokens h
  exact ⟨a.tree, hprogram, hspelled.named⟩

/-! ## Larger scopes -/

/-- The names of one scope mean the same in the other. -/
structure Scope.Extends (scope scope' : Scope V L) : Prop where
  lookup {name : String} {v : V} (h : scope.lookup name = some v) : scope'.lookup name = some v
  labelOf {v : V} {name : String} {l : L} (h : scope.labelOf v name = some l) :
    scope'.labelOf v name = some l

namespace Scope.Extends

variable {scope scope' : Scope V L}

theorem step (h : scope.Extends scope') {c c' : Configuration V L} {token : String}
    (hstep : Configuration.Step scope c token c') : Configuration.Step scope' c token c' := by
  cases hstep with
  | thenWord hword hbefore hexp hstack => exact .thenWord hword hbefore hexp hstack
  | opening hword hbefore hexp => exact .opening hword hbefore hexp
  | closing hword hbefore hexp hstack => exact .closing hword hbefore hexp hstack
  | operator hword hbefore hexp hstack hops hbelow =>
      exact .operator hword hbefore hexp hstack hops hbelow
  | subject hword hexp hv => exact .subject hword hexp (h.lookup hv)
  | isWord hword hexp => exact .isWord hword hexp
  | operand hword hexp hl hbefore => exact .operand hword hexp (h.labelOf hl) hbefore
  | consequent hword hexp hl hafter => exact .consequent hword hexp (h.labelOf hl) hafter

theorem readAll (h : scope.Extends scope') {c c' : Configuration V L} {tokens : List String}
    (hread : Configuration.readAll scope c tokens = .ok c') :
    Configuration.readAll scope' c tokens = .ok c' := by
  induction tokens generalizing c with
  | nil => exact hread
  | cons token rest ih =>
      obtain ⟨d, hd, hrest⟩ := Configuration.exists_step_of_readAll_cons hread
      rw [(h.step hd).readAll_cons]
      exact ih hrest

/-- **In a larger scope a rule is compiled to the same.** -/
theorem compile (h : scope.Extends scope') {text : String} {r : Compiled V L}
    (hr : Rule.compile scope text = .ok r) : Rule.compile scope' text = .ok r := by
  obtain ⟨ifWord, rest, c, htokens, hif, hread, hfinish⟩ := compileTokens_eq_ok_iff.1 hr
  exact compileTokens_eq_ok_iff.2 ⟨ifWord, rest, c, htokens, hif, h.readAll hread, hfinish⟩

end Scope.Extends

end FuzzyLogic.Rule
