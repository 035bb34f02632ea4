import FuzzyLogic.Proofs.Rule.Keyword
import FuzzyLogic.Proofs.Success
import FuzzyLogic.Rule.Compile

set_option autoImplicit false

/-! # The steps of the compiler

The compiler reads a token by a cascade of tests. Here the tokens that it accepts are listed as a
relation, `Configuration.Step`, with one case for each way to go on; `read_eq_ok_iff` says that the
relation is exactly the function where it succeeds. What follows about runs of the compiler is
proved from the eight cases and never from the cascade. -/

namespace FuzzyLogic.Rule

variable {V L : Type}

/-! ## Open operators -/

/-- Operators that wait for their right operands, the last one first. -/
def pendingOperators (ops : List Operator) : List Pending :=
  ops.map .operator

/-- The same operators as a program runs them. -/
def operatorCode {β : Type} (ops : List Operator) : Program β :=
  ops.map .operator

theorem filterMap_pendingOperators {β : Type} (ops : List Operator) :
    (pendingOperators ops).filterMap Pending.instruction? = (operatorCode ops : Program β) := by
  simp [pendingOperators, operatorCode, List.filterMap_map, Function.comp_def,
    Pending.instruction?]

/-- A stack is a run of operators on top of a stack that starts with a parenthesis or is empty. -/
theorem exists_pendingOperators (stack : List Pending) :
    ∃ ops below, stack = pendingOperators ops ++ below ∧
      (below = [] ∨ ∃ rest, below = .parenthesis :: rest) := by
  induction stack with
  | nil => exact ⟨[], [], rfl, Or.inl rfl⟩
  | cons p rest ih =>
      cases p with
      | parenthesis => exact ⟨[], .parenthesis :: rest, rfl, Or.inr ⟨rest, rfl⟩⟩
      | operator o =>
          obtain ⟨ops, below, rfl, hbelow⟩ := ih
          exact ⟨o :: ops, below, rfl, hbelow⟩

/-- A stack that holds a parenthesis is a run of operators on top of its last parenthesis. -/
theorem exists_of_parenthesis_mem {stack : List Pending} (h : .parenthesis ∈ stack) :
    ∃ ops below, stack = pendingOperators ops ++ .parenthesis :: below := by
  obtain ⟨ops, below, rfl, rfl | ⟨rest, rfl⟩⟩ := exists_pendingOperators stack
  · simp [pendingOperators] at h
  · exact ⟨ops, rest, rfl⟩

/-- Closing moves the open operators up to the first thing that stays open into the program. -/
theorem closeWhile_of_stack_eq {c : Configuration V L} {p : Pending → Bool} {ops : List Operator}
    {below : List Pending} (hstack : c.stack = pendingOperators ops ++ below)
    (hops : ∀ o ∈ ops, p (.operator o) = true) (hbelow : ∀ q ∈ below.head?, p q = false) :
    c.closeWhile p = { c with stack := below, program := c.program ++ operatorCode ops } := by
  have hmem : ∀ q ∈ pendingOperators ops, p q = true := by
    intro q hq
    obtain ⟨o, ho, rfl⟩ := List.mem_map.1 hq
    exact hops o ho
  -- `below` begins with an entry that stays, so the operators of `ops` are all that comes off.
  have hstop : below.takeWhile p = [] ∧ below.dropWhile p = below := by
    cases below with
    | nil => exact ⟨rfl, rfl⟩
    | cons q rest =>
        have hq := hbelow q rfl
        simp [hq]
  rw [Configuration.closeWhile, hstack, List.takeWhile_append_of_pos hmem,
    List.dropWhile_append_of_pos hmem, hstop.1, hstop.2, List.append_nil,
    filterMap_pendingOperators]

/-! ## The relation -/

/-- The configurations that a token leads to. -/
inductive Configuration.Step (scope : Scope V L) (c : Configuration V L) (token : String) :
    Configuration V L → Prop
  | thenWord (hword : capitals token = "THEN") (hbefore : c.afterThen = false)
      (hexp : c.expecting = .operator) (hstack : .parenthesis ∉ c.stack) :
      Step scope c token { c with afterThen := true, expecting := .subject }
  | opening (hword : token = "(") (hbefore : c.afterThen = false)
      (hexp : c.expecting = .subject) :
      Step scope c token { c with stack := .parenthesis :: c.stack }
  | closing {ops : List Operator} {below : List Pending} (hword : token = ")")
      (hbefore : c.afterThen = false) (hexp : c.expecting = .operator)
      (hstack : c.stack = pendingOperators ops ++ .parenthesis :: below) :
      Step scope c token { c with stack := below, program := c.program ++ operatorCode ops }
  /-- The operators `ops` bind tighter than `o`, what is below them does not. -/
  | operator {o : Operator} {ops : List Operator} {below : List Pending}
      (hword : capitals token = o.name) (hbefore : c.afterThen = false)
      (hexp : c.expecting = .operator) (hstack : c.stack = pendingOperators ops ++ below)
      (hops : ∀ q ∈ ops, o.priority < q.priority)
      (hbelow : ∀ q ∈ below.head?, q.priority ≤ o.priority) :
      Step scope c token { c with
        stack := .operator o :: below
        program := c.program ++ operatorCode ops
        expecting := .subject }
  | subject {v : V} (hword : capitals token ∉ subjectReserved) (hexp : c.expecting = .subject)
      (hv : scope.lookup token = some v) :
      Step scope c token { c with expecting := .isWord v }
  | isWord {v : V} (hword : capitals token = "IS") (hexp : c.expecting = .isWord v) :
      Step scope c token { c with expecting := .label v }
  | operand {v : V} {l : L} (hword : capitals token ∉ labelReserved)
      (hexp : c.expecting = .label v) (hl : scope.labelOf v token = some l)
      (hbefore : c.afterThen = false) :
      Step scope c token { c with
        program := c.program ++ [.operand ⟨v, l⟩]
        expecting := .operator }
  | consequent {v : V} {l : L} (hword : capitals token ∉ labelReserved)
      (hexp : c.expecting = .label v) (hl : scope.labelOf v token = some l)
      (hafter : c.afterThen = true) :
      Step scope c token { c with consequent := some ⟨v, l⟩, expecting := .operator }

/-! ## The relation is the function -/

namespace Configuration

theorem readThen_eq_ok_iff {c c' : Configuration V L} {token : String} :
    c.readThen token = .ok c' ↔
      c.afterThen = false ∧ c.expecting = .operator ∧ .parenthesis ∉ c.stack
        ∧ c' = { c with afterThen := true, expecting := .subject } := by
  unfold readThen
  cases hafter : c.afterThen with
  | true => simp
  | false =>
      cases hexp : c.expecting with
      | operator =>
          by_cases hstack : .parenthesis ∈ c.stack
          · simp [hstack]
          · simp [hstack, eq_comm]
      | _ => simp

theorem readOpening_eq_ok_iff {c c' : Configuration V L} {token : String} :
    c.readOpening token = .ok c' ↔
      c.afterThen = false ∧ c.expecting = .subject
        ∧ c' = { c with stack := .parenthesis :: c.stack } := by
  unfold readOpening
  cases hafter : c.afterThen with
  | true => simp
  | false => cases hexp : c.expecting <;> simp [eq_comm]

theorem readClosing_eq_ok_iff {c c' : Configuration V L} {token : String} :
    c.readClosing token = .ok c' ↔
      c.afterThen = false ∧ c.expecting = .operator ∧
        ∃ ops below, c.stack = pendingOperators ops ++ .parenthesis :: below
          ∧ c' = { c with stack := below, program := c.program ++ operatorCode ops } := by
  have hclose : ∀ {ops below}, c.stack = pendingOperators ops ++ .parenthesis :: below →
      c.closeWhile (· != .parenthesis)
        = { c with stack := .parenthesis :: below, program := c.program ++ operatorCode ops } :=
    fun h => closeWhile_of_stack_eq h (by simp) (by simp)
  unfold readClosing
  constructor
  · intro h
    by_cases hstack : .parenthesis ∈ c.stack
    · obtain ⟨ops, below, heq⟩ := exists_of_parenthesis_mem hstack
      rw [hclose heq] at h
      cases hafter : c.afterThen with
      | true => simp [hstack, hafter] at h
      | false =>
          cases hexp : c.expecting with
          | operator =>
              simp only [List.contains_eq_mem, hstack, hafter, hexp, List.drop_one] at h
              exact ⟨rfl, rfl, ops, below, heq, (Except.ok.inj h).symm⟩
          | _ => simp [hstack, hafter, hexp] at h
    · simp [hstack] at h
  · rintro ⟨hafter, hexp, ops, below, heq, rfl⟩
    have hstack : .parenthesis ∈ c.stack := by simp [heq]
    simp [hclose heq, hstack, hafter, hexp]

/-- Where a stack is cut by an operator: the tighter operators on top come off. -/
theorem exists_cut (o : Operator) (stack : List Pending) :
    ∃ ops below, stack = pendingOperators ops ++ below ∧ (∀ q ∈ ops, o.priority < q.priority)
      ∧ ∀ q ∈ below.head?, q.priority ≤ o.priority := by
  induction stack with
  | nil => exact ⟨[], [], rfl, by simp, by simp⟩
  | cons p rest ih =>
      by_cases hp : o.priority < p.priority
      · cases p with
        -- A parenthesis has the least priority, so no operator gets past it.
        | parenthesis => exact absurd hp (Nat.not_lt_zero _)
        | operator q =>
            obtain ⟨ops, below, rfl, hops, hbelow⟩ := ih
            exact ⟨q :: ops, below, rfl, List.forall_mem_cons.2 ⟨hp, hops⟩, hbelow⟩
      · exact ⟨[], p :: rest, rfl, by simp, by simpa using hp⟩

theorem readOperator_eq_ok_iff {c c' : Configuration V L} {token : String} {o : Operator} :
    c.readOperator token o = .ok c' ↔
      c.afterThen = false ∧ c.expecting = .operator ∧
        ∃ ops below, c.stack = pendingOperators ops ++ below
          ∧ (∀ q ∈ ops, o.priority < q.priority) ∧ (∀ q ∈ below.head?, q.priority ≤ o.priority)
          ∧ c' = { c with
              stack := .operator o :: below
              program := c.program ++ operatorCode ops
              expecting := .subject } := by
  have hclose : ∀ {ops below}, c.stack = pendingOperators ops ++ below →
      (∀ q ∈ ops, o.priority < q.priority) → (∀ q ∈ below.head?, q.priority ≤ o.priority) →
      c.closeWhile (o.priority < ·.priority)
        = { c with stack := below, program := c.program ++ operatorCode ops } :=
    fun h hops hbelow => closeWhile_of_stack_eq h (fun q hq => decide_eq_true (hops q hq))
      (by simpa using hbelow)
  unfold readOperator
  constructor
  · intro h
    cases hafter : c.afterThen with
    | true => simp [hafter] at h
    | false =>
        cases hexp : c.expecting with
        | operator =>
            obtain ⟨ops, below, heq, hops, hbelow⟩ := exists_cut o c.stack
            simp only [hafter, hexp, hclose heq hops hbelow] at h
            exact ⟨rfl, rfl, ops, below, heq, hops, hbelow, (Except.ok.inj h).symm⟩
        | _ => simp [hafter, hexp] at h
  · rintro ⟨hafter, hexp, ops, below, heq, hops, hbelow, rfl⟩
    simp [hafter, hexp, hclose heq hops hbelow]

/-- Reading a word leads to one of the steps inside a clause. The keyword is IF, IS or none. -/
theorem Step.of_readWord {scope : Scope V L} {c c' : Configuration V L} {token : String}
    {keyword : Option Keyword} (hsubject : keyword = none → capitals token ∉ subjectReserved)
    (hlabel : capitals token ∉ labelReserved)
    (his : keyword = some .isWord → capitals token = "IS")
    (h : c.readWord scope token keyword = .ok c') : Step scope c token c' := by
  unfold readWord at h
  split at h
  · next v hexp =>
      split at h
      · next hk =>
          obtain rfl := Except.ok.inj h
          exact .isWord (his hk) hexp
      · exact absurd h (by simp)
  · next v hexp =>
      split at h
      · exact absurd h (by simp)
      · next l hl =>
          split at h
          · next hafter =>
              obtain rfl := Except.ok.inj h
              exact .consequent hlabel hexp hl hafter
          · next hbefore =>
              obtain rfl := Except.ok.inj h
              exact .operand hlabel hexp hl (by simpa using hbefore)
  · next hexp =>
      split at h
      · exact absurd h (by simp)
      · next hk =>
          split at h
          · exact absurd h (by simp)
          · next v hv =>
              obtain rfl := Except.ok.inj h
              exact .subject (hsubject (by simpa using hk)) hexp hv
  · exact absurd h (by simp)

theorem Step.of_read {scope : Scope V L} {c c' : Configuration V L} {token : String}
    (h : c.read scope token = .ok c') : Step scope c token c' := by
  unfold read at h
  split at h
  · next hk =>
      obtain ⟨hbefore, hexp, hstack, rfl⟩ := readThen_eq_ok_iff.1 h
      exact .thenWord (TokenKind.ofToken_eq_keyword_iff.1 hk) hbefore hexp hstack
  · next hk =>
      obtain ⟨hbefore, hexp, rfl⟩ := readOpening_eq_ok_iff.1 h
      exact .opening (TokenKind.ofToken_eq_opening_iff.1 hk) hbefore hexp
  · next hk =>
      obtain ⟨hbefore, hexp, ops, below, hstack, rfl⟩ := readClosing_eq_ok_iff.1 h
      exact .closing (TokenKind.ofToken_eq_closing_iff.1 hk) hbefore hexp hstack
  · next o hk =>
      obtain ⟨hbefore, hexp, ops, below, hstack, hops, hbelow, rfl⟩ := readOperator_eq_ok_iff.1 h
      exact .operator (TokenKind.ofToken_eq_keyword_iff.1 hk) hbefore hexp hstack hops hbelow
  · next k hthen hoperator hk =>
      have hword := TokenKind.ofToken_eq_keyword_iff.1 hk
      cases k with
      | ifWord =>
          exact .of_readWord (by simp) (by rw [hword]; decide) (by simp) h
      | isWord => exact .of_readWord (by simp) (by rw [hword]; decide) (fun _ => hword) h
      | thenWord => exact absurd rfl hthen
      | operator o => exact absurd rfl (hoperator o)
  · next hk =>
      have hword := TokenKind.ofToken_eq_name_iff.1 hk
      exact .of_readWord (fun _ => hword) (TokenKind.not_mem_labelReserved_iff.2 (Or.inl hk))
        (by simp) h

theorem Step.read_eq {scope : Scope V L} {c c' : Configuration V L} {token : String}
    (h : Step scope c token c') : c.read scope token = .ok c' := by
  cases h with
  | thenWord hword hbefore hexp hstack =>
      rw [read, TokenKind.ofToken_eq_keyword_iff (k := .thenWord).2 hword]
      exact readThen_eq_ok_iff.2 ⟨hbefore, hexp, hstack, rfl⟩
  | opening hword hbefore hexp =>
      rw [read, TokenKind.ofToken_eq_opening_iff.2 hword]
      exact readOpening_eq_ok_iff.2 ⟨hbefore, hexp, rfl⟩
  | closing hword hbefore hexp hstack =>
      rw [read, TokenKind.ofToken_eq_closing_iff.2 hword]
      exact readClosing_eq_ok_iff.2 ⟨hbefore, hexp, _, _, hstack, rfl⟩
  | @operator o _ _ hword hbefore hexp hstack hops hbelow =>
      rw [read, TokenKind.ofToken_eq_keyword_iff (k := .operator o).2 hword]
      exact readOperator_eq_ok_iff.2 ⟨hbefore, hexp, _, _, hstack, hops, hbelow, rfl⟩
  | subject hword hexp hv =>
      rw [read, TokenKind.ofToken_eq_name_iff.2 hword]
      simp [readWord, hexp, hv]
  | isWord hword hexp =>
      rw [read, TokenKind.ofToken_eq_keyword_iff (k := .isWord).2 hword]
      simp [readWord, hexp]
  | operand hword hexp hl hbefore =>
      rw [read]
      rcases TokenKind.not_mem_labelReserved_iff.1 hword with hk | hk | hk <;>
        simp [hk, readWord, hexp, hl, hbefore]
  | consequent hword hexp hl hafter =>
      rw [read]
      rcases TokenKind.not_mem_labelReserved_iff.1 hword with hk | hk | hk <;>
        simp [hk, readWord, hexp, hl, hafter]

/-- **The compiler accepts a token exactly by one of the steps.** -/
theorem read_eq_ok_iff {scope : Scope V L} {c c' : Configuration V L} {token : String} :
    c.read scope token = .ok c' ↔ Step scope c token c' :=
  ⟨Step.of_read, Step.read_eq⟩

/-! ## Runs -/

@[simp] theorem readAll_nil (scope : Scope V L) (c : Configuration V L) :
    readAll scope c [] = .ok c := rfl

theorem readAll_append {scope : Scope V L} {c c' : Configuration V L} {ts us : List String}
    (h : readAll scope c ts = .ok c') : readAll scope c (ts ++ us) = readAll scope c' us := by
  unfold readAll at h ⊢
  rw [List.foldlM_append, h]
  rfl

theorem Step.readAll_cons {scope : Scope V L} {c c' : Configuration V L} {token : String}
    (h : Step scope c token c') (rest : List String) :
    readAll scope c (token :: rest) = readAll scope c' rest := by
  unfold readAll
  rw [List.foldlM_cons, h.read_eq]
  rfl

theorem readAll_cons_of_error {scope : Scope V L} {c : Configuration V L} {token : String}
    {e : Error} (h : c.read scope token = .error e) (rest : List String) :
    readAll scope c (token :: rest) = .error e := by
  unfold readAll
  rw [List.foldlM_cons, h]
  rfl

theorem readAll_append_of_error {scope : Scope V L} {c : Configuration V L} {ts : List String}
    {e : Error} (h : readAll scope c ts = .error e) (us : List String) :
    readAll scope c (ts ++ us) = .error e := by
  unfold readAll at h ⊢
  rw [List.foldlM_append, h]
  rfl

/-- A run that succeeds starts with a step. -/
theorem exists_step_of_readAll_cons {scope : Scope V L} {c c' : Configuration V L}
    {token : String} {rest : List String} (h : readAll scope c (token :: rest) = .ok c') :
    ∃ d, Step scope c token d ∧ readAll scope d rest = .ok c' := by
  obtain ⟨d, hd, hrest⟩ := foldlM_cons_eq_ok_iff.1 h
  exact ⟨d, .of_read hd, hrest⟩

/-- What a step keeps, a run keeps: `inv` speaks of the tokens read so far. -/
theorem readAll_induction {scope : Scope V L} (inv : List String → Configuration V L → Prop)
    (hstep : ∀ ts token c c', inv ts c → Step scope c token c' → inv (ts ++ [token]) c')
    {ts us : List String} {c c' : Configuration V L} (hinv : inv ts c)
    (h : readAll scope c us = .ok c') : inv (ts ++ us) c' := by
  induction us generalizing ts c with
  | nil =>
      obtain rfl := Except.ok.inj h
      simpa using hinv
  | cons token rest ih =>
      obtain ⟨d, hd, hrest⟩ := exists_step_of_readAll_cons h
      simpa using ih (hstep ts token c d hinv hd) hrest

/-- The same where the tokens read so far do not matter. -/
theorem readAll_invariant {scope : Scope V L} (inv : Configuration V L → Prop)
    (hstep : ∀ token c c', inv c → Step scope c token c' → inv c')
    {tokens : List String} {c c' : Configuration V L} (hinv : inv c)
    (h : readAll scope c tokens = .ok c') : inv c' :=
  @readAll_induction _ _ scope (fun _ c => inv c) (fun _ => hstep) [] tokens c c' hinv h

end Configuration

/-! ## Whole rules -/

theorem startsWithIf_cons {token : String} {rest : List String} :
    startsWithIf (token :: rest) = true ↔ capitals token = "IF" := by
  simp only [startsWithIf, beq_iff_eq]
  exact TokenKind.ofToken_eq_keyword_iff (k := .ifWord)

theorem hasThen_eq_true_iff {tokens : List String} :
    hasThen tokens = true ↔ ∃ token ∈ tokens, capitals token = "THEN" := by
  simp only [hasThen, List.any_eq_true, beq_iff_eq]
  simp only [TokenKind.ofToken_eq_keyword_iff, Keyword.spelling]

/-- What a configuration knows about THEN: the compiler is behind it if it has read the word, and
only there it has a consequent. -/
def Configuration.ThenKnown (ts : List String) (c : Configuration V L) : Prop :=
  (c.afterThen = true → hasThen ts = true) ∧ (c.consequent.isSome → c.afterThen = true)

theorem Configuration.ThenKnown.step {scope : Scope V L} {ts : List String} {token : String}
    {c c' : Configuration V L} (h : c.ThenKnown ts) (hstep : Step scope c token c') :
    c'.ThenKnown (ts ++ [token]) := by
  have hkeep : c.afterThen = true → hasThen (ts ++ [token]) = true := by
    intro hafter
    obtain ⟨t, ht, hword⟩ := hasThen_eq_true_iff.1 (h.1 hafter)
    exact hasThen_eq_true_iff.2 ⟨t, List.mem_append_left _ ht, hword⟩
  cases hstep with
  | thenWord hword =>
      exact ⟨fun _ => hasThen_eq_true_iff.2 ⟨token, by simp, hword⟩, fun _ => rfl⟩
  | consequent _ _ _ hafter => exact ⟨hkeep, fun _ => hafter⟩
  | _ => exact ⟨hkeep, h.2⟩

theorem Configuration.thenKnown_of_readAll {scope : Scope V L} {tokens : List String}
    {c : Configuration V L} (h : readAll scope .start tokens = .ok c) : c.ThenKnown tokens := by
  have hstart : (start : Configuration V L).ThenKnown [] := ⟨by simp [start], by simp [start]⟩
  exact readAll_induction (fun ts c => c.ThenKnown ts) (fun _ _ _ _ h hstep => h.step hstep)
    hstart h

/-- The rule is compiled if its tokens begin with IF, the compiler reads the others, and the
consequent is there at the end. Looking for THEN beforehand refuses no such rule. -/
theorem compileTokens_eq_ok_iff {scope : Scope V L} {tokens : List String} {r : Compiled V L} :
    compileTokens scope tokens = .ok r ↔
      ∃ ifWord rest c, tokens = ifWord :: rest ∧ capitals ifWord = "IF"
        ∧ Configuration.readAll scope .start rest = .ok c ∧ c.finish = .ok r := by
  unfold compileTokens
  constructor
  · intro h
    split at h
    · exact absurd h (by simp)
    · next hif =>
        split at h
        · exact absurd h (by simp)
        · cases tokens with
          | nil => exact absurd rfl hif
          | cons ifWord rest =>
              rw [List.drop_one, List.tail_cons] at h
              obtain ⟨c, hread, hfinish⟩ := bind_eq_ok_iff.1 h
              exact ⟨ifWord, rest, c, rfl, startsWithIf_cons.1 (by simpa using hif), hread,
                hfinish⟩
  · rintro ⟨ifWord, rest, c, rfl, hif, hread, hfinish⟩
    have hknown := Configuration.thenKnown_of_readAll hread
    -- A consequent is read behind THEN only, so there is a THEN among the tokens.
    have hthen : hasThen rest = true := by
      refine hknown.1 (hknown.2 ?_)
      unfold Configuration.finish at hfinish
      split at hfinish
      · exact absurd hfinish (by simp)
      · next hsome => simp [hsome]
    rw [List.drop_one, List.tail_cons, startsWithIf_cons.2 hif, hthen, hread]
    exact hfinish

end FuzzyLogic.Rule
