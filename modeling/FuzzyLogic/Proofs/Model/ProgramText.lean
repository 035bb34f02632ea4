import FuzzyLogic.Proofs.Model.Naming
import FuzzyLogic.Proofs.ModelFile.Reachable

set_option autoImplicit false

/-! # What the text of a program tells

The text of a program puts a comma and a space between its steps. Names may contain commas: a
variable may be called `AND,`, and then the text begins as if an AND stood there. But no name
contains a blank, so the words of the text are known, and no variable is called `is`, so the second
word of a step that is a clause tells it from an operator. Hence different programs have different
texts. -/

namespace FuzzyLogic

open FuzzyLogic.Rule

/-! ## The words of a text -/

section

variable {β : Type} (naming : β → Naming)

/-- The clause that bears the names, as it is written. -/
def Rule.Naming.text (n : Naming) : String :=
  n.subject ++ " is " ++ n.label

/-- The words of a step, with what follows the last of them. -/
def Instruction.words (ending : String) : Instruction β → List String
  | .operand b => [(naming b).subject, "is", (naming b).label ++ ending]
  | .operator o => [o.name ++ ending]

namespace Program

/-- What stands between a step and those behind it, but for the space. -/
def comma : Program β → String
  | [] => ""
  | _ :: _ => ","

/-- The words of a program. -/
def words : Program β → List String
  | [] => []
  | i :: rest => i.words naming (comma rest) ++ words rest

theorem comma_cases (rest : Program β) : comma rest = "" ∨ comma rest = "," := by
  cases rest with
  | nil => exact .inl rfl
  | cons i rest => exact .inr rfl

theorem isInner_comma (rest : Program β) : ∀ c ∈ (comma rest).toList, IsInner c := by
  rcases comma_cases rest with h | h
  · rw [h]
    exact forall_isInner rfl
  · rw [h]
    exact forall_isInner rfl

theorem forall_mem_operands_cons {i : Instruction β} {rest : Program β} {p : β → Prop} :
    (∀ b ∈ operands (i :: rest), p b) ↔
      (∀ b, i = .operand b → p b) ∧ ∀ b ∈ operands rest, p b := by
  cases i with
  | operand b => simp [operands]
  | operator o => simp [operands]

theorem mem_operands_cons {i : Instruction β} {rest : Program β} {b : β}
    (h : b ∈ operands rest) : b ∈ operands (i :: rest) :=
  (List.sublist_cons_self i rest).filterMap _ |>.subset h

theorem text_cons_cons (write : β → String) (i j : Instruction β) (rest : Program β) :
    text write (i :: j :: rest) = text write [i] ++ comma (j :: rest) ++ " " ++
      text write (j :: rest) := by
  have hseparator : text write [i] ++ comma (j :: rest) ++ " " = text write [i] ++ ", " := by
    rw [String.append_assoc]
    rfl
  rw [hseparator, text, List.map_cons, List.map_cons, String.intercalate_cons_cons]
  simp [text]

variable {naming}

/-- A step as it is written, with what follows it, has its words as tokens. -/
theorem tokenize_step {i : Instruction β} (hi : ∀ b, i = .operand b → (naming b).Proper)
    (rest : Program β) :
    tokenize (text (fun b => (naming b).text) [i] ++ comma rest)
      = i.words naming (comma rest) := by
  cases i with
  | operand b =>
      obtain ⟨hsubject, hlabel, -⟩ := hi b rfl
      have hending := hlabel.append (isInner_comma rest)
      have htext : text (fun b => (naming b).text) [.operand b] ++ comma rest
          = (naming b).subject ++ " " ++ "is" ++ " " ++ ((naming b).label ++ comma rest) := by
        simp [text, Naming.text, String.append_assoc]
      rw [htext, tokenize_append_space, tokenize_append_space, hsubject.tokenize_eq,
        hending.tokenize_eq]
      rfl
  | operator o =>
      have hname : IsWord o.name := by
        cases o with
        | or => exact ⟨by decide, forall_isInner rfl⟩
        | and => exact ⟨by decide, forall_isInner rfl⟩
      have htext : text (fun b => (naming b).text) [(.operator o : Instruction β)] ++ comma rest
          = o.name ++ comma rest := by
        simp [text]
      rw [htext, (hname.append (isInner_comma rest)).tokenize_eq]
      rfl

/-- **The text of a program is read back into its words.** -/
theorem tokenize_text {program : Program β} (h : ∀ b ∈ program.operands, (naming b).Proper) :
    tokenize (program.text fun b => (naming b).text) = program.words naming := by
  induction program with
  | nil => rfl
  | cons i rest ih =>
      obtain ⟨hi, hrest⟩ := forall_mem_operands_cons.1 h
      have hstep := tokenize_step hi rest
      rw [words, ← ih hrest, ← hstep]
      cases rest with
      | nil =>
          have hnone : tokenize (text (fun b => (naming b).text) []) = [] := rfl
          rw [hnone, List.append_nil, comma, String.append_empty]
      | cons j rest => rw [← tokenize_append_space, ← text_cons_cons]

/-- No step begins with the word that stands second in a clause. -/
theorem words_ne_is {program : Program β} (h : ∀ b ∈ program.operands, (naming b).Proper)
    (ws : List String) : program.words naming ≠ "is" :: ws := by
  cases program with
  | nil => simp [words]
  | cons i rest =>
      intro heq
      cases i with
      | operand b =>
          have hsubject : (naming b).subject = "is" := (List.cons.inj heq).1
          have hfree := ((forall_mem_operands_cons.1 h).1 b rfl).subject_free
          rw [hsubject] at hfree
          exact hfree (by decide)
      | operator o =>
          have hname : o.name ++ comma rest = "is" := (List.cons.inj heq).1
          rcases comma_cases rest with hcomma | hcomma <;> rw [hcomma] at hname <;> cases o <;>
            exact absurd hname (by decide)

/-- Programs with the same words are the same, if names tell their operands apart. -/
theorem eq_of_words_eq {p q : Program β} (hp : ∀ b ∈ p.operands, (naming b).Proper)
    (hq : ∀ b ∈ q.operands, (naming b).Proper)
    (hinj : ∀ b ∈ p.operands, ∀ c ∈ q.operands, naming b = naming c → b = c)
    (h : p.words naming = q.words naming) : p = q := by
  induction p generalizing q with
  | nil =>
      cases q with
      | nil => rfl
      | cons j rest => cases j <;> exact absurd h (by simp [words, Instruction.words])
  | cons i rest ih =>
      cases q with
      | nil => cases i <;> exact absurd h (by simp [words, Instruction.words])
      | cons j rest' =>
          obtain ⟨hi, hrest⟩ := forall_mem_operands_cons.1 hp
          obtain ⟨hj, hrest'⟩ := forall_mem_operands_cons.1 hq
          rw [words, words] at h
          have hinj' : ∀ b ∈ operands rest, ∀ c ∈ operands rest', naming b = naming c → b = c :=
            fun b hb c hc => hinj b (mem_operands_cons hb) c (mem_operands_cons hc)
          cases i with
          | operand b =>
              cases j with
              | operand c =>
                  simp only [Instruction.words, List.cons_append, List.nil_append,
                    List.cons.injEq] at h
                  obtain ⟨hsubject, -, hlabel, hwords⟩ := h
                  obtain rfl : rest = rest' := ih hrest hrest' hinj' hwords
                  have hnaming : naming b = naming c :=
                    Naming.ext hsubject ((String.append_left_inj _).1 hlabel)
                  rw [hinj b (by simp [operands]) c (by simp [operands]) hnaming]
              | operator o =>
                  -- The name of the variable looks like the operator, but then comes `is`.
                  simp only [Instruction.words, List.cons_append, List.nil_append,
                    List.cons.injEq] at h
                  exact absurd h.2.symm (words_ne_is hrest' _)
          | operator o =>
              cases j with
              | operand c =>
                  simp only [Instruction.words, List.cons_append, List.nil_append,
                    List.cons.injEq] at h
                  exact absurd h.2 (words_ne_is hrest _)
              | operator o' =>
                  simp only [Instruction.words, List.cons_append, List.nil_append,
                    List.cons.injEq] at h
                  obtain ⟨hname, hwords⟩ := h
                  obtain rfl : rest = rest' := ih hrest hrest' hinj' hwords
                  have hname' : o.name = o'.name := (String.append_left_inj _).1 hname
                  cases o <;> cases o' <;> first | rfl | exact absurd hname' (by decide)

end Program

end

/-! ## Rules -/

/-- Two rules of a sound model have the same program if it has the same text. -/
theorem Model.Sound.programText_inj {α : Type} [Scalar α] {m : Model α} (hm : m.Sound)
    {r r' : Rule α} (hr : m.Compiles r) (hr' : m.Compiles r') :
    r.programText = r'.programText ↔ r.program = r'.program := by
  refine ⟨fun htext => ?_, fun hprogram => by rw [Rule.programText, hprogram, Rule.programText]⟩
  have hproper := hm.proper_of_operands hr
  have hproper' := hm.proper_of_operands hr'
  have hwords : r.program.words ModelClause.naming = r'.program.words ModelClause.naming := by
    rw [← Program.tokenize_text hproper, ← Program.tokenize_text hproper']
    exact congrArg tokenize htext
  refine Program.eq_of_words_eq hproper hproper' (fun c hc d hd hnaming => ?_) hwords
  exact hm.eq_of_naming_eq (Model.named_of_operands hr c hc) (Model.named_of_operands hr' d hd)
    hnaming

/-- **The text of a program tells the program.** Two rules that are compiled in the same model have
programs with the same text exactly if the programs are the same: the same operators and the same
variables and labels in the same order. This holds in every model that a session has come to, and of
all names that a variable or a label can have. -/
theorem Session.programText_eq_iff {allowed : Operation Float → Prop} {start m : Model Float}
    {past : List (Model Float)} (hstart : start.Fresh) (h : Session allowed start past m)
    {name name' text text' : String} {norm norm' : Binding TNorm Float}
    {conorm conorm' : Binding SNorm Float} {r r' : Rule Float}
    (hr : m.compile name text norm conorm = .ok r)
    (hr' : m.compile name' text' norm' conorm' = .ok r') :
    r.programText = r'.programText ↔ r.program = r'.program :=
  (h.all_sound hstart m List.mem_cons_self).programText_inj (Model.compiles_of_compile hr)
    (Model.compiles_of_compile hr')

/-- A variable with the name `AND,` and two labels with commas at their ends. -/
def Model.commas : Model Float :=
  Operation.performAll (.empty "min" "max")
    [.addVariable "AND," 0 9, .addLabel ⟨0, "AND,"⟩ "low," (.leftShoulder 1 2),
      .addVariable "A" 0 9, .addLabel ⟨1, "A"⟩ "low" (.leftShoulder 1 2)]

/-- The text of the program begins with the same characters as one with an AND behind `A is low`. -/
theorem Session.programText_eq_iff_commas :
    ∃ r r' : Rule Float,
      Model.commas.compileDefault "R" "IF A is low AND AND, is low, THEN A is low" = .ok r ∧
        Model.commas.compileDefault "R" "if ((A is low) and AND, IS low,) then AND, is low,"
          = .ok r' ∧
        r.programText = "A is low, AND, is low,, AND" ∧ r.program = r'.program := by
  have hsession : Session (fun _ : Operation Float => True) (.empty "min" "max") [_, _, _, _]
      Model.commas :=
    .step (.step (.step (.step .start
      (.addVariable "AND," 0 9) trivial trivial)
      (.addLabel ⟨0, "AND,"⟩ "low," (.leftShoulder 1 2)) trivial trivial)
      (.addVariable "A" 0 9) trivial trivial)
      (.addLabel ⟨1, "A"⟩ "low" (.leftShoulder 1 2)) trivial trivial
  have htext (text : String) (h : ((Model.commas.compileDefault "R" text).toOption.map
      Rule.programText) = some "A is low, AND, is low,, AND") :
      ∃ r, Model.commas.compileDefault "R" text = .ok r ∧
        r.programText = "A is low, AND, is low,, AND" := by
    obtain ⟨r, hr, hprogram⟩ := Option.map_eq_some_iff.1 h
    exact ⟨r, toOption_eq_some_iff.1 hr, hprogram⟩
  obtain ⟨r, hr, hprogram⟩ := htext "IF A is low AND AND, is low, THEN A is low" (by decide +kernel)
  obtain ⟨r', hr', hprogram'⟩ := htext "if ((A is low) and AND, IS low,) then AND, is low,"
    (by decide +kernel)
  refine ⟨r, r', hr, hr', hprogram, ?_⟩
  exact (hsession.programText_eq_iff (.empty "min" "max") hr hr').1 (hprogram.trans hprogram'.symm)

end FuzzyLogic
