import FuzzyLogic.Proofs.Rule.Compilation

set_option autoImplicit false

/-! # What the compiler accepts

The compiler accepts exactly what the grammar derives. That it accepts no more is an invariant of
its run: the tokens read so far are derived up to the open parentheses, and behind them stands a
part of a clause or a whole term, as the compiler expects. The parentheses on the stack are the
open ones, so THEN is read behind a whole antecedent. -/

namespace FuzzyLogic.Rule

variable {V L : Type}

/-! ## Parts of a rule -/

section

variable (scope : Scope V L)

/-- The tokens are a term whose names are known. -/
def IsTerm (ts : List String) : Prop :=
  ∃ t, Term.Spelled scope.Names t ts

/-- The tokens are an antecedent whose names are known. -/
def IsAntecedent (ts : List String) : Prop :=
  ∃ a, Antecedent.Spelled scope.Names a ts

/-- The tokens are terms with an operator behind each: whatever antecedent follows, together they
are one. -/
def Leads (ts : List String) : Prop :=
  ∀ us, IsAntecedent scope us → IsAntecedent scope (ts ++ us)

/-- The tokens lead to a term behind `n` open parentheses. -/
inductive Opened : List String → Nat → Prop
  | outermost {ts : List String} (h : Leads scope ts) : Opened ts 0
  | inner {ts us : List String} {n : Nat} (h : Opened ts n) (hlead : Leads scope us) :
      Opened (ts ++ "(" :: us) (n + 1)

/-- The tokens are the part of a clause behind which something is expected; what they are behind a
whole one is left open. -/
inductive ClauseBegun (complete : List String → Prop) : Expecting V → List String → Prop
  | subject : ClauseBegun complete .subject []
  | isWord {subject : String} {v : V} (hword : capitals subject ∉ subjectReserved)
      (hv : scope.lookup subject = some v) : ClauseBegun complete (.isWord v) [subject]
  | label {subject word : String} {v : V} (hsubject : capitals subject ∉ subjectReserved)
      (hv : scope.lookup subject = some v) (hword : capitals word = "IS") :
      ClauseBegun complete (.label v) [subject, word]
  | operator {ts : List String} (h : complete ts) : ClauseBegun complete .operator ts

/-- What the tokens read so far are when the compiler stands at `c`. -/
inductive Grammatical (c : Configuration V L) : List String → Prop
  /-- The antecedent is not complete. -/
  | antecedent {ts us : List String} (hbefore : c.afterThen = false) (hnone : c.consequent = none)
      (hopened : Opened scope ts (c.stack.count .parenthesis))
      (hbegun : ClauseBegun scope (IsTerm scope) c.expecting us) :
      Grammatical c (ts ++ us)
  /-- The antecedent is complete, the consequent is not. -/
  | consequent {ts us : List String} {thenWord : String} (hafter : c.afterThen = true)
      (hnone : c.consequent = none) (hante : IsAntecedent scope ts)
      (hthen : capitals thenWord = "THEN")
      (hbegun : ClauseBegun scope (fun _ => False) c.expecting us) :
      Grammatical c (ts ++ thenWord :: us)
  | complete {ts us : List String} {thenWord : String} {b : Clause V L}
      (hafter : c.afterThen = true) (hexp : c.expecting = .operator) (hsome : c.consequent = some b)
      (hante : IsAntecedent scope ts) (hthen : capitals thenWord = "THEN")
      (hcons : Term.Spelled scope.Names (.clause b) us) :
      Grammatical c (ts ++ thenWord :: us)

end

/-! ## Growing parts -/

section

variable {scope : Scope V L}

theorem Leads.nil : Leads scope [] :=
  fun _ h => h

theorem Leads.append_term {ts us : List String} {word : String} {o : Operator}
    (h : Leads scope ts) (hterm : IsTerm scope us) (hword : capitals word = o.name) :
    Leads scope (ts ++ us ++ [word]) := by
  rintro vs ⟨a, ha⟩
  obtain ⟨t, ht⟩ := hterm
  have hjoin : IsAntecedent scope (us ++ word :: vs) := ⟨_, .join ht hword ha⟩
  simpa using h _ hjoin

theorem Leads.antecedent {ts us : List String} (h : Leads scope ts) (hterm : IsTerm scope us) :
    IsAntecedent scope (ts ++ us) := by
  obtain ⟨t, ht⟩ := hterm
  exact h us ⟨_, .last ht⟩

theorem Opened.append_term {ts us : List String} {word : String} {o : Operator} {n : Nat}
    (h : Opened scope ts n) (hterm : IsTerm scope us) (hword : capitals word = o.name) :
    Opened scope (ts ++ us ++ [word]) n := by
  cases h with
  | outermost hlead => exact .outermost (hlead.append_term hterm hword)
  | inner hopened hlead => simpa using Opened.inner hopened (hlead.append_term hterm hword)

/-- Closing the innermost parenthesis turns what stands behind it into a term. -/
theorem Opened.close {ts us : List String} {n : Nat} (h : Opened scope ts (n + 1))
    (hterm : IsTerm scope us) :
    ∃ vs ws, ts ++ us ++ [")"] = vs ++ ws ∧ Opened scope vs n ∧ IsTerm scope ws := by
  cases h with
  | @inner vs ws _ hopened hlead =>
      obtain ⟨a, ha⟩ := hlead.antecedent hterm
      exact ⟨vs, "(" :: (ws ++ us) ++ [")"], by simp, hopened, _, .group ha⟩

theorem ClauseBegun.complete {P : List String → Prop} {us : List String}
    (h : ClauseBegun scope P .operator us) : P us := by
  cases h
  assumption

/-! ## The invariant -/

theorem count_pendingOperators_append (ops : List Operator) (below : List Pending) :
    (pendingOperators ops ++ below).count .parenthesis = below.count .parenthesis := by
  rw [List.count_append, List.count_eq_zero.2 (by simp [pendingOperators]), Nat.zero_add]

/-- Before THEN every step goes on with the antecedent, THEN itself with the consequent. -/
theorem Grammatical.step_antecedent {c c' : Configuration V L} {ts us : List String}
    {token : String} (hbefore : c.afterThen = false) (hnone : c.consequent = none)
    (hopened : Opened scope ts (c.stack.count .parenthesis))
    (hbegun : ClauseBegun scope (IsTerm scope) c.expecting us)
    (hstep : Configuration.Step scope c token c') : Grammatical scope c' (ts ++ us ++ [token]) := by
  cases hstep with
  | thenWord hword _ hexp hstack =>
      rw [hexp] at hbegun
      rw [List.count_eq_zero.2 hstack] at hopened
      obtain ⟨hlead⟩ := hopened
      exact .consequent rfl hnone (hlead.antecedent hbegun.complete) hword .subject
  | opening hword _ hexp =>
      rw [hexp] at hbegun
      cases hbegun
      have hinner :
          Opened scope (ts ++ "(" :: []) ((.parenthesis :: c.stack).count .parenthesis) := by
        rw [List.count_cons_self]
        exact .inner hopened Leads.nil
      have h : Grammatical scope { c with stack := .parenthesis :: c.stack }
          (ts ++ "(" :: [] ++ []) :=
        .antecedent hbefore hnone hinner (by rw [hexp]; exact .subject)
      simpa [hword] using h
  | @closing ops below hword _ hexp hstack =>
      rw [hexp] at hbegun
      rw [hstack, count_pendingOperators_append, List.count_cons_self] at hopened
      -- The parenthesis on the stack is the innermost open one of the tokens.
      obtain ⟨vs, ws, heq, hvs, hws⟩ := hopened.close hbegun.complete
      rw [hword, heq]
      exact .antecedent hbefore hnone hvs (by rw [hexp]; exact .operator hws)
  | @operator o ops below hword _ hexp hstack =>
      rw [hexp] at hbegun
      rw [hstack, count_pendingOperators_append] at hopened
      have h : Grammatical scope { c with
          stack := .operator o :: below
          program := c.program ++ operatorCode ops
          expecting := .subject } (ts ++ us ++ [token] ++ []) :=
        .antecedent hbefore hnone (by simpa using hopened.append_term hbegun.complete hword)
          .subject
      simpa using h
  | subject hword hexp hv =>
      rw [hexp] at hbegun
      cases hbegun
      rw [List.append_nil]
      exact .antecedent hbefore hnone hopened (.isWord hword hv)
  | isWord hword hexp =>
      rw [hexp] at hbegun
      cases hbegun with
      | isWord hsubject hv =>
          rw [List.append_assoc]
          exact .antecedent hbefore hnone hopened (.label hsubject hv hword)
  | @operand v l hword hexp hl =>
      rw [hexp] at hbegun
      cases hbegun with
      | @label subject word _ hsubject hv his =>
          have hterm : IsTerm scope [subject, word, token] :=
            ⟨.clause ⟨v, l⟩, .clause ⟨hsubject, hword, hv, hl⟩ his⟩
          rw [List.append_assoc]
          exact .antecedent hbefore hnone hopened (.operator hterm)
  | consequent _ _ _ hafter => exact absurd hafter (by simp [hbefore])

theorem Grammatical.step {c c' : Configuration V L} {ts : List String} {token : String}
    (h : Grammatical scope c ts) (hstep : Configuration.Step scope c token c') :
    Grammatical scope c' (ts ++ [token]) := by
  cases h with
  | antecedent hbefore hnone hopened hbegun =>
      exact .step_antecedent hbefore hnone hopened hbegun hstep
  | @consequent ts us thenWord hafter hnone hante hthen hbegun =>
      rw [List.append_assoc, List.cons_append]
      cases hstep with
      | subject hword hexp hv =>
          rw [hexp] at hbegun
          cases hbegun
          exact .consequent hafter hnone hante hthen (.isWord hword hv)
      | isWord hword hexp =>
          rw [hexp] at hbegun
          cases hbegun with
          | isWord hsubject hv =>
              exact .consequent hafter hnone hante hthen (.label hsubject hv hword)
      | consequent hword hexp hl =>
          rw [hexp] at hbegun
          cases hbegun with
          | label hsubject hv his =>
              exact .complete hafter rfl rfl hante hthen (.clause ⟨hsubject, hword, hv, hl⟩ his)
      | thenWord _ hbefore => exact absurd hafter (by simp [hbefore])
      | opening _ hbefore => exact absurd hafter (by simp [hbefore])
      | closing _ hbefore => exact absurd hafter (by simp [hbefore])
      | operator _ hbefore => exact absurd hafter (by simp [hbefore])
      | operand _ _ _ hbefore => exact absurd hafter (by simp [hbefore])
  | complete hafter hexp =>
      -- Nothing may follow a complete rule.
      cases hstep <;> simp_all

theorem Grammatical.readAll {c : Configuration V L} {ts : List String}
    (h : Configuration.readAll scope .start ts = .ok c) : Grammatical scope c ts := by
  have hstart : Grammatical scope (Configuration.start : Configuration V L) ([] ++ []) :=
    .antecedent rfl rfl (.outermost Leads.nil) .subject
  exact Configuration.readAll_induction (fun ts c => Grammatical scope c ts)
    (fun _ _ _ _ h hstep => h.step hstep) hstart h

end

/-! ## Acceptance -/

/-- **The compiler accepts no more than the grammar derives.** -/
theorem spelled_of_compileTokens {scope : Scope V L} {tokens : List String} {r : Compiled V L}
    (h : compileTokens scope tokens = .ok r) :
    ∃ a, RuleSpelled scope.Names a r.consequent tokens ∧ r.program = a.tree.postorder := by
  obtain ⟨ifWord, rest, c, rfl, hif, hread, hfinish⟩ := compileTokens_eq_ok_iff.1 h
  have hspelled : ∃ a b, RuleSpelled scope.Names a b (ifWord :: rest) := by
    cases Grammatical.readAll hread with
    | complete _ _ _ hante hthen hcons =>
        obtain ⟨a, ha⟩ := hante
        exact ⟨a, _, .rule hif ha hthen hcons⟩
    | antecedent _ hnone => simp [Configuration.finish, hnone] at hfinish
    | consequent _ hnone => simp [Configuration.finish, hnone] at hfinish
  obtain ⟨a, b, hab⟩ := hspelled
  -- The derivation is compiled too, and the compiler has one result only.
  have hr := compileTokens_of_spelled hab
  rw [h] at hr
  obtain rfl := Except.ok.inj hr
  exact ⟨a, hab, rfl⟩

/-- **The compiler accepts exactly the grammar.** -/
theorem exists_compile_eq_ok_iff_spelled (scope : Scope V L) (text : String) :
    (∃ r, compile scope text = .ok r) ↔
      ∃ a b, RuleSpelled scope.Names a b (tokenize text) := by
  constructor
  · rintro ⟨r, hr⟩
    obtain ⟨a, ha, -⟩ := spelled_of_compileTokens hr
    exact ⟨a, r.consequent, ha⟩
  · rintro ⟨a, b, h⟩
    exact ⟨_, compileTokens_of_spelled h⟩

end FuzzyLogic.Rule
