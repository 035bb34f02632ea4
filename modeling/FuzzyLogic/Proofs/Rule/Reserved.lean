import FuzzyLogic.Proofs.Rule.Resolution
import FuzzyLogic.Proofs.Rule.Scope

set_option autoImplicit false

/-! # What is taken for a keyword

A keyword is recognised by its capitals, and the capitals are not those of ASCII alone: I is the
capital of the dotless i too, and S that of the long s. So seven words are taken for IF or IS that
are neither in any case of their letters. A variable with one of these names cannot be the subject
of a clause. Every other name that is not a keyword itself is free, and for labels these seven are
free too. -/

namespace FuzzyLogic.Rule

variable {V L : Type} {scope : Scope V L}

open FuzzyLogic.Rule.Configuration

/-! ## Capitals -/

/-- The capital of an ASCII letter, written with its code. -/
theorem toUpper_eq_ite (c : Char) :
    c.toUpper = if 'a' ≤ c ∧ c ≤ 'z' then Char.ofNat (c.toNat - 0x20) else c := by
  unfold Char.toUpper
  split
  · next h =>
      have hlo : 0x61 ≤ c.toNat := h.1
      have hhi : c.toNat ≤ 0x7A := h.2
      have hsmall : 'a' ≤ c ∧ c ≤ 'z' := h
      rw [if_pos hsmall, ← Char.toNat_inj, toNat_ofNat_of_lt (by omega)]
      have hdifference : ('A'.val - 'a'.val).toNat = 2 ^ 32 - 0x20 := by decide
      rw [← Char.toNat_val, UInt32.toNat_add, Char.toNat_val, hdifference]
      omega
  · next h =>
      have hsmall : ¬ ('a' ≤ c ∧ c ≤ 'z') := h
      rw [if_neg hsmall]

/-- Only a capital letter itself and its small letter have it as their capital. -/
theorem toUpper_eq_iff {c p : Char} (hp : 'A' ≤ p ∧ p ≤ 'Z') :
    c.toUpper = p ↔ c = p ∨ c = Char.ofNat (p.toNat + 0x20) := by
  have hlo : 0x41 ≤ p.toNat := hp.1
  have hhi : p.toNat ≤ 0x5A := hp.2
  have hletter : ('a' ≤ c ∧ c ≤ 'z') ↔ 0x61 ≤ c.toNat ∧ c.toNat ≤ 0x7A := Iff.rfl
  rw [toUpper_eq_ite, ← Char.toNat_inj, ← Char.toNat_inj (c := c), ← Char.toNat_inj (c := c),
    toNat_ofNat_of_lt (n := p.toNat + 0x20) (by omega)]
  split
  · next h =>
      rw [hletter] at h
      rw [toNat_ofNat_of_lt (by omega)]
      omega
  · next h =>
      rw [hletter] at h
      omega

theorem capital_eq_toUpper {c : Char} (hi : c ≠ '\u0131') (hs : c ≠ '\u017F') :
    capital c = c.toUpper := by
  have hi' : c.toNat ≠ 0x131 := fun h => hi (Char.toNat_inj.1 h)
  have hs' : c.toNat ≠ 0x17F := fun h => hs (Char.toNat_inj.1 h)
  rw [toUpper_eq_ite, capital, if_neg hi', if_neg hs']

/-- Besides the letters of ASCII, the dotless i and the long s have a capital among these. -/
theorem capital_eq_iff {c p : Char} (hi : p ≠ '\u0131') (hs : p ≠ '\u017F') :
    capital c = p ↔ c.toUpper = p ∨ (c = '\u0131' ∧ p = 'I') ∨ (c = '\u017F' ∧ p = 'S') := by
  by_cases hci : c = '\u0131'
  · subst hci
    have hcapital : capital '\u0131' = 'I' := by decide
    have hupper : Char.toUpper '\u0131' = '\u0131' := by decide
    simp [hcapital, hupper, hi.symm, eq_comm]
  · by_cases hcs : c = '\u017F'
    · subst hcs
      have hcapital : capital '\u017F' = 'S' := by decide
      have hupper : Char.toUpper '\u017F' = '\u017F' := by decide
      simp [hcapital, hupper, hs.symm, eq_comm]
    · simp [capital_eq_toUpper hci hcs, hci, hcs]

/-! ## Words in capitals -/

/-- The words that are taken for the keyword and do not spell it: one of their letters is a dotless
i or a long s. -/
def Keyword.lookalikes : Keyword → List String
  | .ifWord => ["\u0131f", "\u0131F"]
  | .isWord => ["\u0131s", "\u0131S", "i\u017F", "I\u017F", "\u0131\u017F"]
  | .thenWord => []
  | .operator _ => []

/-- A word without I and S is the capitals of nothing but ASCII letters. -/
theorem map_capital_eq_iff {cs word : List Char}
    (h : ∀ p ∈ word, p ≠ '\u0131' ∧ p ≠ '\u017F' ∧ p ≠ 'I' ∧ p ≠ 'S') :
    cs.map capital = word ↔ cs.map Char.toUpper = word := by
  induction word generalizing cs with
  | nil => rw [List.map_eq_nil_iff, List.map_eq_nil_iff]
  | cons p word ih =>
      obtain ⟨⟨hi, hs, hI, hS⟩, hword⟩ := List.forall_mem_cons.1 h
      have hletter (c : Char) : capital c = p ↔ c.toUpper = p := by
        simp [capital_eq_iff hi hs, hI, hS]
      cases cs with
      | nil => simp
      | cons c cs =>
          rw [List.map_cons, List.map_cons, List.cons.injEq, List.cons.injEq, hletter, ih hword]

theorem map_eq_pair_iff {f : Char → Char} {cs : List Char} {p q : Char} :
    cs.map f = [p, q] ↔ ∃ c d, cs = [c, d] ∧ f c = p ∧ f d = q := by
  constructor
  · intro h
    obtain ⟨c, cs, rfl, hc, hcs⟩ := List.map_eq_cons_iff.1 h
    obtain ⟨d, rfl, hd⟩ := List.map_eq_singleton_iff.1 hcs
    exact ⟨c, d, rfl, hc, hd⟩
  · rintro ⟨c, d, rfl, rfl, rfl⟩
    rfl

theorem map_capital_eq_if_iff {cs : List Char} :
    cs.map capital = ['I', 'F'] ↔
      cs.map Char.toUpper = ['I', 'F'] ∨ cs = ['\u0131', 'f'] ∨ cs = ['\u0131', 'F'] := by
  have hI (c : Char) : capital c = 'I' ↔ c.toUpper = 'I' ∨ c = '\u0131' := by
    simp [capital_eq_iff]
  have hF (c : Char) : capital c = 'F' ↔ c.toUpper = 'F' := by
    simp [capital_eq_iff]
  have hsmall (c : Char) : c.toUpper = 'F' ↔ c = 'F' ∨ c = 'f' := toUpper_eq_iff (by decide)
  rw [map_eq_pair_iff, map_eq_pair_iff]
  constructor
  · rintro ⟨c, d, rfl, hc, hd⟩
    rw [hF] at hd
    obtain hc | rfl := (hI c).1 hc
    · exact .inl ⟨c, d, rfl, hc, hd⟩
    · obtain rfl | rfl := (hsmall d).1 hd
      · exact .inr (.inr rfl)
      · exact .inr (.inl rfl)
  · rintro (⟨c, d, rfl, hc, hd⟩ | rfl | rfl)
    · exact ⟨c, d, rfl, (hI c).2 (.inl hc), (hF d).2 hd⟩
    · exact ⟨_, _, rfl, by decide, by decide⟩
    · exact ⟨_, _, rfl, by decide, by decide⟩

theorem map_capital_eq_is_iff {cs : List Char} :
    cs.map capital = ['I', 'S'] ↔
      cs.map Char.toUpper = ['I', 'S'] ∨ cs = ['\u0131', 's'] ∨ cs = ['\u0131', 'S'] ∨
        cs = ['i', '\u017F'] ∨ cs = ['I', '\u017F'] ∨ cs = ['\u0131', '\u017F'] := by
  have hI (c : Char) : capital c = 'I' ↔ c.toUpper = 'I' ∨ c = '\u0131' := by
    simp [capital_eq_iff]
  have hS (c : Char) : capital c = 'S' ↔ c.toUpper = 'S' ∨ c = '\u017F' := by
    simp [capital_eq_iff]
  have hi (c : Char) : c.toUpper = 'I' ↔ c = 'I' ∨ c = 'i' := toUpper_eq_iff (by decide)
  have hs (c : Char) : c.toUpper = 'S' ↔ c = 'S' ∨ c = 's' := toUpper_eq_iff (by decide)
  rw [map_eq_pair_iff, map_eq_pair_iff]
  constructor
  · rintro ⟨c, d, rfl, hc, hd⟩
    obtain hc | rfl := (hI c).1 hc
    · obtain hd | rfl := (hS d).1 hd
      · exact .inl ⟨c, d, rfl, hc, hd⟩
      · obtain rfl | rfl := (hi c).1 hc <;> simp
    · obtain hd | rfl := (hS d).1 hd
      · obtain rfl | rfl := (hs d).1 hd <;> simp
      · simp
  · rintro (⟨c, d, rfl, hc, hd⟩ | rfl | rfl | rfl | rfl | rfl)
    · exact ⟨c, d, rfl, (hI c).2 (.inl hc), (hS d).2 (.inl hd)⟩
    all_goals exact ⟨_, _, rfl, by decide, by decide⟩

theorem map_capital_eq_spelling_iff {cs : List Char} {k : Keyword} :
    cs.map capital = k.spelling.toList ↔
      cs.map Char.toUpper = k.spelling.toList ∨ String.ofList cs ∈ k.lookalikes := by
  have hword (l : String) : String.ofList cs = l ↔ cs = l.toList := by
    rw [← String.toList_inj, String.toList_ofList]
  cases k with
  | ifWord =>
      rw [Keyword.lookalikes, List.mem_cons, List.mem_singleton, hword, hword]
      exact map_capital_eq_if_iff
  | isWord =>
      rw [Keyword.lookalikes, List.mem_cons, List.mem_cons, List.mem_cons, List.mem_cons,
        List.mem_singleton, hword, hword, hword, hword, hword]
      exact map_capital_eq_is_iff
  | thenWord =>
      rw [Keyword.lookalikes, or_iff_left List.not_mem_nil]
      exact map_capital_eq_iff (by simp [Keyword.spelling])
  | operator o =>
      rw [Keyword.lookalikes, or_iff_left List.not_mem_nil]
      refine map_capital_eq_iff ?_
      cases o <;> simp [Keyword.spelling, Operator.name]

/-- A word is taken for a keyword if it spells it in ASCII letters of any case, and otherwise only
if it is one of the seven. -/
theorem TokenKind.ofToken_eq_keyword_iff_toUpper {word : String} {k : Keyword} :
    TokenKind.ofToken word = .keyword k ↔ word.toUpper = k.spelling ∨ word ∈ k.lookalikes := by
  have hcapitals : capitals word = k.spelling ↔ word.toList.map capital = k.spelling.toList := by
    rw [← String.toList_inj, capitals, String.toList_ofList]
  have hupper : word.toUpper = k.spelling ↔ word.toList.map Char.toUpper = k.spelling.toList := by
    rw [← String.toList_inj, String.toUpper, String.toList_map]
  rw [TokenKind.ofToken_eq_keyword_iff, hcapitals, hupper, map_capital_eq_spelling_iff,
    String.ofList_toList]

/-! ## Names that spell no keyword -/

/-- The name is one token, and in no case of its ASCII letters a keyword. -/
structure IsUnreserved (name : String) : Prop where
  word : IsWord name
  ascii (k : Keyword) : name.toUpper ≠ k.spelling

/-- The tokens are the names of a variable and one of its labels, and neither spells a keyword. -/
structure Naming.Known (scope : Scope V L) (subject label : String) (n : Naming) : Prop where
  subject_unreserved : IsUnreserved subject
  label_unreserved : IsUnreserved label
  eq : n = ⟨subject, label⟩
  resolved : ∃ clause, scope.resolve n = .ok clause

/-- The names that the compiler does not take for names where a subject stands. -/
def mistaken : List String :=
  Keyword.ifWord.lookalikes ++ Keyword.isWord.lookalikes

theorem mem_mistaken_iff {name : String} :
    name ∈ mistaken ↔ ∃ k : Keyword, name ∈ k.lookalikes := by
  constructor
  · intro h
    exact (List.mem_append.1 h).elim (⟨_, ·⟩) (⟨_, ·⟩)
  · rintro ⟨k, h⟩
    cases k with
    | ifWord => exact List.mem_append_left _ h
    | isWord => exact List.mem_append_right _ h
    | thenWord => exact absurd h List.not_mem_nil
    | operator => exact absurd h List.not_mem_nil

namespace IsUnreserved

variable {name : String}

theorem ofToken_eq_keyword_iff (h : IsUnreserved name) {k : Keyword} :
    TokenKind.ofToken name = .keyword k ↔ name ∈ k.lookalikes := by
  rw [TokenKind.ofToken_eq_keyword_iff_toUpper]
  exact or_iff_right (h.ascii k)

/-- The compiler takes the name for a name, or for a keyword that it looks like. -/
theorem ofToken_eq_name_or (h : IsUnreserved name) :
    TokenKind.ofToken name = .name ∨
      ∃ k : Keyword, TokenKind.ofToken name = .keyword k ∧ name ∈ k.lookalikes := by
  have hkind := TokenKind.ofToken_word h.word.ne_parenthesis.1 h.word.ne_parenthesis.2
  cases hk : Keyword.ofWord? name with
  | none =>
      rw [hk] at hkind
      exact .inl hkind
  | some k =>
      rw [hk] at hkind
      exact .inr ⟨k, hkind, h.ofToken_eq_keyword_iff.1 hkind⟩

theorem subject_free (h : IsUnreserved name) (hname : name ∉ mistaken) :
    capitals name ∉ subjectReserved := by
  refine TokenKind.ofToken_eq_name_iff.1 (h.ofToken_eq_name_or.resolve_right ?_)
  rintro ⟨k, -, hk⟩
  exact hname (mem_mistaken_iff.2 ⟨k, hk⟩)

/-- As a label the name is free whatever it looks like. -/
theorem label_free (h : IsUnreserved name) : capitals name ∉ labelReserved := by
  refine TokenKind.not_mem_labelReserved_iff.2 ?_
  obtain hname | ⟨k, hkind, hk⟩ := h.ofToken_eq_name_or
  · exact .inl hname
  · cases k with
    | ifWord => exact .inr (.inl hkind)
    | isWord => exact .inr (.inr hkind)
    | thenWord => exact absurd hk List.not_mem_nil
    | operator => exact absurd hk List.not_mem_nil

/-- A name that is mistaken for a keyword is not expected where a subject stands. -/
theorem read_subject_mistaken (h : IsUnreserved name) (hname : name ∈ mistaken)
    {c : Configuration V L} (hexp : c.expecting = .subject) :
    c.read scope name = .error (.unexpectedToken name .subject) := by
  obtain hmem | hmem := List.mem_append.1 hname
  · rw [Configuration.read, h.ofToken_eq_keyword_iff.2 hmem]
    simp [readWord, hexp, unexpected, Expecting.kind]
  · rw [Configuration.read, h.ofToken_eq_keyword_iff.2 hmem]
    simp [readWord, hexp, unexpected, Expecting.kind]

end IsUnreserved

/-! ## Rules about such names -/

/-- What becomes of a clause whose names are known: its subject may be mistaken for a keyword. -/
def Scope.resolveKnown (scope : Scope V L) (n : Naming) : Except Error (Clause V L) :=
  if n.subject ∈ mistaken then .error (.unexpectedToken n.subject .subject) else scope.resolve n

theorem Scope.reads_resolveKnown : scope.Reads (Naming.Known scope) scope.resolveKnown where
  named := by
    rintro subject label _ clause ⟨hsubject, hlabel, rfl, -⟩ hb
    unfold resolveKnown at hb
    split at hb
    · exact absurd hb (by simp)
    · next hname =>
        obtain ⟨hv, hl⟩ := resolve_eq_ok_iff.1 hb
        exact ⟨hsubject.subject_free hname, hlabel.label_free, hv, hl⟩
  reported := by
    rintro subject word label _ e c ⟨hsubject, -, rfl, clause, hclause⟩ - hexp he
    unfold resolveKnown at he
    split at he
    · next hname =>
        obtain rfl := Except.error.inj he
        exact readAll_cons_of_error (hsubject.read_subject_mistaken hname hexp) _
    · exact absurd (hclause.symm.trans he) (by simp)

theorem Naming.Known.resolveKnown_eq_ok_iff {subject label : String} {n : Naming}
    (h : Known scope subject label n) :
    (∃ clause, scope.resolveKnown n = .ok clause) ↔ n.subject ∉ mistaken := by
  obtain ⟨clause, hclause⟩ := h.resolved
  unfold Scope.resolveKnown
  split
  · next hname => simp [hname]
  · next hname => simp [hname, hclause]

theorem Naming.Known.resolveKnown_eq_error_iff {subject label : String} {n : Naming} {e : Error}
    (h : Known scope subject label n) :
    scope.resolveKnown n = .error e ↔
      n.subject ∈ mistaken ∧ e = .unexpectedToken n.subject .subject := by
  obtain ⟨clause, hclause⟩ := h.resolved
  unfold Scope.resolveKnown
  split
  · next hname => simp [hname, eq_comm]
  · next hname => simp [hname, hclause]

theorem known_of_spelled {a : Antecedent Naming} {b : Naming} {tokens : List String}
    (h : RuleSpelled (Naming.Known scope) a b tokens) :
    ∀ n ∈ a.clauses ++ [b], ∃ subject label, Naming.Known scope subject label n := by
  intro n hn
  refine h.named n ?_
  rw [Antecedent.leaves_tree]
  obtain hmem | hmem := List.mem_append.1 hn
  · exact .inr hmem
  · exact .inl (List.mem_singleton.1 hmem)

/-- A rule about known names is compiled unless one of its subjects is mistaken for a keyword, and
then the first of these is reported. -/
theorem compile_of_known {text : String} {a : Antecedent Naming} {b : Naming}
    (h : RuleSpelled (Naming.Known scope) a b (tokenize text)) :
    ((∃ r, compile scope text = .ok r) ↔ ∀ n ∈ a.clauses ++ [b], n.subject ∉ mistaken) ∧
      (∀ r, compile scope text = .ok r →
        (a.clauses ++ [b]).map scope.resolve = r.clauses.map .ok) ∧
      ∀ e, compile scope text = .error e ↔
        ∃ before n after, a.clauses ++ [b] = before ++ n :: after ∧
          (∀ k ∈ before, k.subject ∉ mistaken) ∧ n.subject ∈ mistaken ∧
          e = .unexpectedToken n.subject .subject := by
  have hresult : (compile scope text).map Compiled.clauses
      = (a.clauses ++ [b]).mapM scope.resolveKnown :=
    compileTokens_of_reads Scope.reads_resolveKnown h
  have hresolved : ∀ n ∈ a.clauses ++ [b],
      ((∃ clause, scope.resolveKnown n = .ok clause) ↔ n.subject ∉ mistaken) ∧
        ∀ e, scope.resolveKnown n = .error e ↔
          n.subject ∈ mistaken ∧ e = .unexpectedToken n.subject .subject := by
    intro n hn
    obtain ⟨subject, label, hk⟩ := known_of_spelled h n hn
    exact ⟨hk.resolveKnown_eq_ok_iff, fun _ => hk.resolveKnown_eq_error_iff⟩
  refine ⟨?_, fun r hr => ?_, fun e => ?_⟩
  · have hok : (∃ r, compile scope text = .ok r)
        ↔ ∃ clauses, (a.clauses ++ [b]).mapM scope.resolveKnown = .ok clauses := by
      simp [← hresult, map_eq_ok_iff]
    rw [hok, exists_listMapM_eq_ok_iff]
    exact forall₂_congr fun n hn => (hresolved n hn).1
  · have hclauses : (a.clauses ++ [b]).mapM scope.resolveKnown = .ok r.clauses := by
      rw [← hresult, hr]
      rfl
    rw [← listMapM_eq_ok_iff.1 hclauses]
    refine List.map_congr_left fun n hn => ?_
    have hname := (hresolved n hn).1.1 (exists_listMapM_eq_ok_iff.1 ⟨_, hclauses⟩ n hn)
    rw [Scope.resolveKnown, if_neg hname]
  · rw [← map_eq_error_iff (f := Compiled.clauses), hresult, listMapM_eq_error_iff]
    refine exists_congr fun before => exists_congr fun n => exists_congr fun after =>
      and_congr_right fun heq => ?_
    rw [heq] at hresolved
    rw [(hresolved n (by simp)).2 e, forall₂_congr fun k hk => (hresolved k (by simp [hk])).1]

/-! ## The rule about one clause -/

theorem tokenize_condition {subject label : String} (hsubject : IsWord subject)
    (hlabel : IsWord label) :
    tokenize ("IF " ++ subject ++ " is " ++ label ++ " THEN " ++ subject ++ " is " ++ label)
      = ["IF", subject, "is", label, "THEN", subject, "is", label] := by
  have htext : "IF " ++ subject ++ " is " ++ label ++ " THEN " ++ subject ++ " is " ++ label
      = " ".intercalate ["IF", subject, "is", label, "THEN", subject, "is", label] := by
    rw [← String.toList_inj]
    simp [String.intercalate_cons_cons]
  have hwords : ∀ t ∈ ["IF", subject, "is", label, "THEN", subject, "is", label],
      tokenize t = [t] := by
    have hIF : tokenize "IF" = ["IF"] := by decide
    have hTHEN : tokenize "THEN" = ["THEN"] := by decide
    have his : tokenize "is" = ["is"] := by decide
    simp [hsubject.tokenize_eq, hlabel.tokenize_eq, hIF, hTHEN, his]
  rw [htext, tokenize_intercalate_tokens hwords]

theorem spelled_condition {subject label : String} {β : Type} {names : String → String → β → Prop}
    {b : β} (h : names subject label b) :
    RuleSpelled names (.last (.clause b)) b
      ["IF", subject, "is", label, "THEN", subject, "is", label] := by
  have hterm : (Term.clause b).Spelled names [subject, "is", label] := .clause h (by decide)
  have hrule : RuleSpelled names (.last (.clause b)) b
      ("IF" :: [subject, "is", label] ++ "THEN" :: [subject, "is", label]) :=
    .rule (by decide) (.last hterm) (by decide) hterm
  exact hrule

theorem compile_condition {subject label : String} {clause : Clause V L}
    (h : Naming.Known scope subject label ⟨subject, label⟩)
    (hclause : scope.resolve ⟨subject, label⟩ = .ok clause) :
    compile scope ("IF " ++ subject ++ " is " ++ label ++ " THEN " ++ subject ++ " is " ++ label)
      = if subject ∈ mistaken then .error (.unexpectedToken subject .subject)
        else .ok { program := [.operand clause], consequent := clause } := by
  have htokens := tokenize_condition h.subject_unreserved.word h.label_unreserved.word
  split
  · next hname =>
      have hspelled := htokens ▸ spelled_condition h
      exact ((compile_of_known hspelled).2.2 _).2
        ⟨[], ⟨subject, label⟩, _, rfl, by simp, hname, rfl⟩
  · next hname =>
      have hresolved : scope.resolveKnown ⟨subject, label⟩ = .ok clause := by
        rw [Scope.resolveKnown, if_neg hname, hclause]
      have hnames := Scope.reads_resolveKnown.named h hresolved
      rw [compile, htokens, compileTokens_of_spelled (spelled_condition hnames)]
      rfl

/-- **Seven names that spell no keyword are lost as subjects, and nothing else is.** A word is taken
for a keyword if it spells it in ASCII letters of any case or is one of the seven that look like IF
or IS. So a rule about variables and labels whose names spell no keyword is compiled unless one of
its subjects looks like one; then the first such subject is reported, as a token where a variable is
expected. -/
theorem compile_of_unreserved (scope : Scope V L) :
    (∀ (word : String) (k : Keyword),
        TokenKind.ofToken word = .keyword k ↔
          word.toUpper = k.spelling ∨ word ∈ k.lookalikes) ∧
      (∀ (text : String) (a : Antecedent Naming) (b : Naming),
        RuleSpelled (Naming.Known scope) a b (tokenize text) →
          ((∃ r, compile scope text = .ok r) ↔ ∀ n ∈ a.clauses ++ [b], n.subject ∉ mistaken) ∧
          (∀ r, compile scope text = .ok r →
            (a.clauses ++ [b]).map scope.resolve = r.clauses.map .ok) ∧
          ∀ e, compile scope text = .error e ↔
            ∃ before n after, a.clauses ++ [b] = before ++ n :: after ∧
              (∀ k ∈ before, k.subject ∉ mistaken) ∧ n.subject ∈ mistaken ∧
              e = .unexpectedToken n.subject .subject) ∧
      ∀ (subject label : String) (clause : Clause V L),
        Naming.Known scope subject label ⟨subject, label⟩ →
        scope.resolve ⟨subject, label⟩ = .ok clause →
          compile scope
              ("IF " ++ subject ++ " is " ++ label ++ " THEN " ++ subject ++ " is " ++ label)
            = if subject ∈ mistaken then .error (.unexpectedToken subject .subject)
              else .ok { program := [.operand clause], consequent := clause } :=
  ⟨fun _ _ => TokenKind.ofToken_eq_keyword_iff_toUpper, fun _ _ _ h => compile_of_known h,
    fun _ _ _ h hclause => compile_condition h hclause⟩

/-- A model in which a variable and a label have the name IS with a dotless i. -/
def dotless : Model Float :=
  { pool := #[
      { name := "Heat", lower := 0, upper := 90, input := 20
        labels := ⟨[("\u0131s", ⟨0, "\u0131s", .rightShoulder 60 80⟩)]⟩ },
      { name := "\u0131s", lower := 0, upper := 1, input := 0
        labels := ⟨[("Low", ⟨1, "Low", .leftShoulder 0 1⟩)]⟩ }]
    labelCount := 2
    database := ⟨[("Heat", ⟨0, "Heat"⟩), ("\u0131s", ⟨1, "\u0131s"⟩)]⟩
    rules := ∅
    tnorm := "min"
    snorm := "max" }

theorem isUnreserved_of {name : String} (hne : name ≠ "")
    (hinner : (name.toList.all fun c => !Text.isBlank c && !isParenthesis c) = true)
    (hascii : name.toList.map Char.toUpper ∉ subjectReserved.map String.toList) :
    IsUnreserved name where
  word := ⟨hne, forall_isInner hinner⟩
  ascii := by
    intro k hk
    refine hascii ?_
    rw [← String.toList_map, ← String.toUpper, hk]
    rcases k with _ | _ | _ | ⟨_ | _⟩ <;> decide

theorem dotless_unreserved : IsUnreserved "\u0131s" :=
  isUnreserved_of (by decide) (by decide) (by decide)

theorem dotless_known_heat : Naming.Known dotless.scope "Heat" "\u0131s" ⟨"Heat", "\u0131s"⟩ :=
  ⟨isUnreserved_of (by decide) (by decide) (by decide), dotless_unreserved, rfl, ⟨_, rfl⟩⟩

theorem dotless_known : Naming.Known dotless.scope "\u0131s" "Low" ⟨"\u0131s", "Low"⟩ :=
  ⟨dotless_unreserved, isUnreserved_of (by decide) (by decide) (by decide), rfl, ⟨_, rfl⟩⟩

/-- As a label the name is read, as a subject it is not. -/
theorem compile_of_unreserved_dotless :
    (∃ r, compile dotless.scope "IF Heat is \u0131s THEN Heat is \u0131s" = .ok r) ∧
      compile dotless.scope "IF Heat is \u0131s OR \u0131s is Low THEN Heat is \u0131s"
        = .error (.unexpectedToken "\u0131s" .subject) := by
  obtain ⟨-, hrules, hcondition⟩ := compile_of_unreserved dotless.scope
  obtain ⟨clause, hclause⟩ := dotless_known_heat.resolved
  have hheat := hcondition "Heat" "\u0131s" clause dotless_known_heat hclause
  rw [if_neg (by decide)] at hheat
  have hterm : (Term.clause (⟨"Heat", "\u0131s"⟩ : Naming)).Spelled (Naming.Known dotless.scope)
      ["Heat", "is", "\u0131s"] := .clause dotless_known_heat (by decide)
  have hlost : (Term.clause (⟨"\u0131s", "Low"⟩ : Naming)).Spelled (Naming.Known dotless.scope)
      ["\u0131s", "is", "Low"] := .clause dotless_known (by decide)
  have hrule : RuleSpelled (Naming.Known dotless.scope) _ _
      ("IF" :: (["Heat", "is", "\u0131s"] ++ "OR" :: ["\u0131s", "is", "Low"])
        ++ "THEN" :: ["Heat", "is", "\u0131s"]) :=
    .rule (by decide) (.join (o := .or) hterm (by decide) (.last hlost)) (by decide) hterm
  have hor := hrules "IF Heat is \u0131s OR \u0131s is Low THEN Heat is \u0131s" _ _ hrule
  refine ⟨⟨_, hheat⟩, (hor.2.2 _).2
    ⟨[⟨"Heat", "\u0131s"⟩], ⟨"\u0131s", "Low"⟩, [⟨"Heat", "\u0131s"⟩], rfl, ?_, by decide, rfl⟩⟩
  intro k hk
  obtain rfl := List.mem_singleton.1 hk
  decide

/-- The variable is there, it has the label, neither name is a keyword in ASCII letters, and no rule
can say that the one is the other. -/
theorem compile_dotless :
    Naming.Known dotless.scope "\u0131s" "Low" ⟨"\u0131s", "Low"⟩ ∧
      TokenKind.ofToken "\u0131s" = .keyword .isWord ∧
      compile dotless.scope "IF \u0131s is Low THEN \u0131s is Low"
        = .error (.unexpectedToken "\u0131s" .subject) :=
  ⟨dotless_known, by decide, rfl⟩

end FuzzyLogic.Rule
