import FuzzyLogic.Proofs.ModelFile.FirstFailure

set_option autoImplicit false

/-! # Blank lines and comments

A line of blanks and a comment say nothing, wherever they stand. So a text may be given more such
lines, and comments behind its lines, and it is loaded as before; if it fails, it fails at the same
line for the same reason. Only the number of this line counts the new lines above it, and what is
quoted is the line with its comment.

The splitter is a machine that has read a part of the line, and what it does with the rest depends
only on where it then stands (`wordsFrom_append`). A comment finds it between two words, in a word
or in another comment, since in any other place the line without the comment could not be split. -/

namespace FuzzyLogic.ModelFile

open Text

/-! ## Where the splitter stands -/

/-- Where the splitter stands behind a character, and the words that it has finished by then, do not
depend on what follows. -/
theorem wordsFrom_cons (mode : Mode) (word : List Char) (c : Char) :
    ∃ (mode' : Mode) (word' : List Char) (done : List (List Char)), ∀ rest,
      wordsFrom mode word (c :: rest) = (wordsFrom mode' word' rest).map (done ++ ·) := by
  have goesOn (mode' : Mode) (word' : List Char)
      (h : ∀ rest, wordsFrom mode word (c :: rest) = wordsFrom mode' word' rest) :
      ∃ (mode' : Mode) (word' : List Char) (done : List (List Char)), ∀ rest,
        wordsFrom mode word (c :: rest) = (wordsFrom mode' word' rest).map (done ++ ·) := by
    refine ⟨mode', word', [], fun rest => ?_⟩
    rw [h]
    cases wordsFrom mode' word' rest <;> rfl
  cases mode with
  | comment => exact goesOn _ [] fun rest => by rw [wordsFrom]
  | between =>
      by_cases hseparator : isSeparator c = true
      · exact goesOn .between [] fun rest => by simp [wordsFrom, hseparator]
      by_cases hsign : c = '#'
      · exact goesOn .comment [] fun rest => by simp [wordsFrom, hsign, isSeparator]
      by_cases hescape : c = '\\'
      · exact goesOn (.escaped none) [] fun rest => by simp [wordsFrom, hescape, isSeparator]
      by_cases hmark : isMark c = true
      · exact goesOn (.quoted c) [] fun rest => by
          simp [wordsFrom, hseparator, hsign, hescape, hmark]
      · exact goesOn .word [c] fun rest => by simp [wordsFrom, hseparator, hsign, hescape, hmark]
  | word =>
      by_cases hseparator : isSeparator c = true
      · exact ⟨.between, [], [word.reverse], fun rest => by simp [wordsFrom, hseparator]⟩
      by_cases hsign : c = '#'
      · exact ⟨.comment, [], [word.reverse], fun rest => by simp [wordsFrom, hsign, isSeparator]⟩
      by_cases hescape : c = '\\'
      · exact goesOn (.escaped none) word fun rest => by simp [wordsFrom, hescape, isSeparator]
      by_cases hmark : isMark c = true
      · exact goesOn (.quoted c) word fun rest => by
          simp [wordsFrom, hseparator, hsign, hescape, hmark]
      · exact goesOn .word (c :: word) fun rest => by
          simp [wordsFrom, hseparator, hsign, hescape, hmark]
  | quoted mark =>
      by_cases hmark : c = mark
      · exact goesOn .word word fun rest => by simp [wordsFrom, hmark]
      by_cases hescape : (c == '\\' && mark == '"') = true
      · exact goesOn (.escaped (some mark)) word fun rest => by
          rw [wordsFrom, if_neg (by simpa using hmark), if_pos hescape]
      · exact goesOn (.quoted mark) (c :: word) fun rest => by
          rw [wordsFrom, if_neg (by simpa using hmark), if_neg hescape]
  | escaped mark =>
      cases mark with
      | none => exact goesOn .word (c :: word) fun rest => by rw [wordsFrom]
      | some mark => exact goesOn (.quoted mark) _ fun rest => by rw [wordsFrom]

theorem wordsFrom_append (mode : Mode) (word cs : List Char) :
    ∃ (mode' : Mode) (word' : List Char) (done : List (List Char)), ∀ rest,
      wordsFrom mode word (cs ++ rest) = (wordsFrom mode' word' rest).map (done ++ ·) := by
  induction cs generalizing mode word with
  | nil =>
      refine ⟨mode, word, [], fun rest => ?_⟩
      rw [List.nil_append]
      cases wordsFrom mode word rest <;> rfl
  | cons c cs ih =>
      obtain ⟨mode₁, word₁, first, hfirst⟩ := wordsFrom_cons mode word c
      obtain ⟨mode₂, word₂, later, hlater⟩ := ih mode₁ word₁
      refine ⟨mode₂, word₂, first ++ later, fun rest => ?_⟩
      rw [List.cons_append, hfirst, hlater]
      cases wordsFrom mode₂ word₂ rest <;> simp [Except.map]

/-! ## Comments -/

/-- The text stays on its line. -/
def OneLine (text : String) : Prop :=
  ∀ c ∈ text.toList, isLineBoundary c = false

instance (text : String) : Decidable (OneLine text) :=
  decidable_of_iff (text.toList.all fun c => !isLineBoundary c) (by simp [OneLine])

theorem OneLine.newline_notMem {text : String} (h : OneLine text) : '\n' ∉ text.toList :=
  fun hmem => absurd (h '\n' hmem) (by decide)

theorem wordsFrom_comment {word cs : List Char} (h : '\n' ∉ cs) :
    wordsFrom .comment word cs = .ok [] := by
  induction cs generalizing word with
  | nil => rfl
  | cons c cs ih =>
      obtain ⟨hc, hcs⟩ := not_or.1 (mt List.mem_cons.2 h)
      rw [wordsFrom, if_neg (by simpa using Ne.symm hc), ih hcs]

/-- Where the end of the line is not an error, a comment is none either. -/
theorem wordsFrom_end_comment {mode : Mode} {word cs : List Char} {ws : List (List Char)}
    (hcs : '\n' ∉ cs) (h : wordsFrom mode word [] = .ok ws) :
    wordsFrom mode word (' ' :: '#' :: cs) = .ok ws := by
  have hspace : isSeparator ' ' = true := by decide
  have hsign : isSeparator '#' = false := by decide
  have hbetween : wordsFrom .between [] ('#' :: cs) = .ok [] := by
    simp [wordsFrom, hsign, wordsFrom_comment hcs]
  cases mode with
  | between =>
      have hline : wordsFrom .between word (' ' :: '#' :: cs) = .ok [] := by
        rw [wordsFrom, if_pos hspace, hbetween]
      exact hline.trans h
  | comment => exact (wordsFrom_comment (by simpa using hcs)).trans h
  | word =>
      have hline : wordsFrom .word word (' ' :: '#' :: cs) = .ok [word.reverse] := by
        rw [wordsFrom, if_pos hspace, hbetween]
        rfl
      exact hline.trans h
  | quoted mark => exact absurd h (by simp [wordsFrom])
  | escaped mark => exact absurd h (by simp [wordsFrom])

/-- A comment behind a line adds no words and takes none away. -/
theorem lineWords_append_comment {line text : String} {words : List String} (htext : OneLine text)
    (h : lineWords line = .ok words) : lineWords (line ++ " #" ++ text) = .ok words := by
  obtain ⟨ws, hws, rfl⟩ := map_eq_ok_iff.1 h
  obtain ⟨mode, word, done, hrun⟩ := wordsFrom_append .between [] line.toList
  have hline := hrun []
  rw [List.append_nil, hws] at hline
  obtain ⟨last, hlast, rfl⟩ := map_eq_ok_iff.1 hline.symm
  have hchars : (line ++ " #" ++ text).toList = line.toList ++ ' ' :: '#' :: text.toList := by simp
  rw [lineWords, hchars, hrun, wordsFrom_end_comment htext.newline_notMem hlast]
  rfl

/-! ## Lines that say nothing -/

/-- A line of blanks, as far as the splitter knows them, up to its end or to a comment. -/
structure Remark (line : String) : Prop where
  oneLine : OneLine line
  head? : ∀ c ∈ (line.toList.dropWhile isSeparator).head?, c = '#'

instance (line : String) : Decidable (Remark line) :=
  decidable_of_iff
    (OneLine line ∧ (line.toList.dropWhile isSeparator).head?.all (· == '#') = true)
    ⟨fun h => ⟨h.1, by simpa [Option.all_eq_true] using h.2⟩,
      fun h => ⟨h.oneLine, by simpa [Option.all_eq_true] using h.head?⟩⟩

theorem wordsFrom_blanks {cs rest : List Char} (h : ∀ c ∈ cs, isSeparator c = true) :
    wordsFrom .between [] (cs ++ rest) = wordsFrom .between [] rest := by
  induction cs with
  | nil => rfl
  | cons c cs ih =>
      obtain ⟨hc, hcs⟩ := List.forall_mem_cons.1 h
      rw [List.cons_append, wordsFrom, if_pos hc, ih hcs]

theorem Remark.lineWords_eq {line : String} (h : Remark line) : lineWords line = .ok [] := by
  have hblanks : ∀ c ∈ line.toList.takeWhile isSeparator, isSeparator c = true :=
    List.all_eq_true.1 List.all_takeWhile
  have hhead := h.head?
  have hnewline := h.oneLine.newline_notMem
  rw [← List.takeWhile_append_dropWhile (p := isSeparator) (l := line.toList)] at hnewline
  rw [lineWords, ← List.takeWhile_append_dropWhile (p := isSeparator) (l := line.toList),
    wordsFrom_blanks hblanks]
  cases hrest : line.toList.dropWhile isSeparator with
  | nil => rfl
  | cons c cs =>
      rw [hrest] at hhead hnewline
      obtain rfl : c = '#' := hhead c rfl
      have hsign : isSeparator '#' = false := by decide
      have hcs : '\n' ∉ cs := by
        intro hmem
        exact hnewline (List.mem_append_right _ (List.mem_cons_of_mem _ hmem))
      simp [wordsFrom, hsign, wordsFrom_comment hcs, Except.map]

/-! ## Edited texts -/

/-- A line of an edited text: a new one, or one that was there before, perhaps with a comment. -/
inductive Edit where
  | insert (line : String)
  | keep (line : String)
  | comment (line text : String)
  deriving Repr, DecidableEq

namespace Edit

/-- The line of the text before the edit. -/
def original? : Edit → Option String
  | insert _ => none
  | keep line => some line
  | comment line _ => some line

/-- The line of the text after the edit. -/
def edited : Edit → String
  | insert line => line
  | keep line => line
  | comment line text => line ++ " #" ++ text

/-- Only lines that say nothing are new, and only lines that can be split have new comments. -/
inductive Silent : Edit → Prop
  | insert {line : String} (hline : Remark line) : Silent (.insert line)
  | keep {line : String} : Silent (.keep line)
  | comment {line text : String} (hline : ∃ words, lineWords line = .ok words)
      (htext : OneLine text) : Silent (.comment line text)

/-- The edits of the lines before the edit. -/
def originals (edits : List Edit) : List String :=
  edits.filterMap original?

/-- The edits of the lines after the edit. -/
def editeds (edits : List Edit) : List String :=
  edits.map edited

/-- The number of new lines. -/
def insertions (edits : List Edit) : Nat :=
  edits.countP fun edit => edit.original?.isNone

theorem length_eq (edits : List Edit) :
    edits.length = (originals edits).length + insertions edits := by
  rw [originals, List.length_filterMap_eq_countP, insertions,
    List.length_eq_countP_add_countP fun edit : Edit => edit.original?.isSome]
  simp only [decide_not, Bool.decide_eq_true, Option.not_isSome]

/-- A line says after the edit what it said before, and a new line says nothing. -/
theorem Silent.ofLine_edited {edit : Edit} (h : edit.Silent) :
    Directive.ofLine edit.edited = (edit.original?.map Directive.ofLine).getD (.ok none) := by
  cases h with
  | insert hline =>
      rw [edited, Directive.ofLine, hline.lineWords_eq]
      rfl
  | keep => rfl
  | comment hline htext =>
      obtain ⟨words, hwords⟩ := hline
      rw [edited, Directive.ofLine, lineWords_append_comment htext hwords]
      simp [original?, Directive.ofLine, hwords]

theorem Silent.ofLine_eq {edit : Edit} (h : edit.Silent) {line : String}
    (hline : edit.original? = some line) :
    Directive.ofLine edit.edited = Directive.ofLine line := by
  rw [h.ofLine_edited, hline]
  rfl

variable {edits : List Edit}

theorem originals_concat {edit : Edit} {line : String} (h : edit.original? = some line) :
    originals (edits ++ [edit]) = originals edits ++ [line] := by
  simp [originals, h]

theorem editeds_concat {edit : Edit} :
    editeds (edits ++ [edit]) = editeds edits ++ [edit.edited] := by
  simp [editeds]

theorem directives_editeds (hedits : ∀ edit ∈ edits, edit.Silent) :
    (editeds edits).filterMap directiveOn = (originals edits).filterMap directiveOn := by
  induction edits with
  | nil => rfl
  | cons edit edits ih =>
      obtain ⟨hedit, hedits⟩ := List.forall_mem_cons.1 hedits
      have hline := hedit.ofLine_edited
      have ih := ih hedits
      simp only [editeds, originals, List.map_cons, List.filterMap_cons] at ih ⊢
      rw [ih, directiveOn, hline]
      cases edit.original? with
      | none => rfl
      | some line => rfl

theorem readable_editeds_iff (hedits : ∀ edit ∈ edits, edit.Silent) :
    (∀ line ∈ editeds edits, Readable line) ↔ ∀ line ∈ originals edits, Readable line := by
  simp only [editeds, originals, List.forall_mem_map, List.mem_filterMap]
  constructor
  · rintro h line ⟨edit, hmem, hline⟩
    obtain ⟨directive, hread⟩ := h edit hmem
    exact ⟨directive, (hedits edit hmem).ofLine_eq hline ▸ hread⟩
  · intro h edit hmem
    have hline := (hedits edit hmem).ofLine_edited
    cases horiginal : edit.original? with
    | none => exact ⟨none, hline.trans (by rw [horiginal]; rfl)⟩
    | some line =>
        obtain ⟨directive, hread⟩ := h line ⟨edit, hmem, horiginal⟩
        exact ⟨directive, ((hedits edit hmem).ofLine_eq horiginal).trans hread⟩

theorem passes_editeds_iff (hedits : ∀ edit ∈ edits, edit.Silent) {m : Model Float} :
    Passes (editeds edits) m ↔ Passes (originals edits) m := by
  constructor
  · rintro ⟨hread, htakes⟩
    exact ⟨(readable_editeds_iff hedits).1 hread, directives_editeds hedits ▸ htakes⟩
  · rintro ⟨hread, htakes⟩
    exact ⟨(readable_editeds_iff hedits).2 hread, (directives_editeds hedits).symm ▸ htakes⟩

theorem inputsOn_editeds (hedits : ∀ edit ∈ edits, edit.Silent) :
    inputsOn (editeds edits) = inputsOn (originals edits) :=
  congrArg inputsOf (directives_editeds hedits)

theorem rulesOn_editeds (hedits : ∀ edit ∈ edits, edit.Silent) :
    rulesOn (editeds edits) = rulesOn (originals edits) :=
  congrArg (rulesOf 0) (directives_editeds hedits)

/-! ## The place of a failure -/

/-- The error on the line of the edit behind `first`. -/
def move (e : LoadError) (first : List Edit) (edit : Edit) : LoadError :=
  { line := { number := e.line.number + insertions first, content := edit.edited }
    reason := e.reason }

theorem exists_edit_of_behind {e : LoadError} {before : List String}
    (h : e.Behind before (originals edits)) :
    ∃ first edit last, edits = first ++ edit :: last ∧ originals first = before ∧
      edit.original? = some e.line.content ∧
      (move e first edit).Behind (editeds first) (editeds edits) := by
  obtain ⟨after, hsplit⟩ := h.content
  obtain ⟨start, rest, rfl, hstart, -⟩ := List.filterMap_eq_append_iff.1 hsplit.symm
  obtain ⟨front, tail, rfl, hfront, htail⟩ := List.filterMap_eq_append_iff.1 hstart
  obtain ⟨silent, edit, last, rfl, hsilent, hedit, -⟩ := List.filterMap_eq_cons_iff.1 htail
  have hfirst : originals (front ++ silent) = before := by
    rw [originals, List.filterMap_append, hfront, List.filterMap_eq_nil_iff.2 hsilent,
      List.append_nil]
  refine ⟨front ++ silent, edit, last ++ rest, by simp, hfirst, hedit, ?_, ?_⟩
  · rw [editeds, List.length_map, length_eq, hfirst, move, h.number]
    exact Nat.add_right_comm _ _ _
  · exact ⟨editeds (last ++ rest), by simp [editeds, move]⟩

end Edit

open Edit in
/-- What fails first fails first in the edited text, on the same line. -/
theorem FirstFailure.edited {edits : List Edit} (hedits : ∀ edit ∈ edits, edit.Silent)
    {e : LoadError} {pass : Pass} (h : FirstFailure (originals edits) e pass) :
    ∃ first edit last, edits = first ++ edit :: last ∧ edit.original? = some e.line.content ∧
      e.line.number = (originals first).length + 1 ∧
      FirstFailure (editeds edits) (move e first edit) pass := by
  -- What holds of all edits holds of those up to the one of the failing line.
  have hsilent {first last : List Edit} {edit : Edit} (hsplit : edits = first ++ edit :: last) :
      (∀ d ∈ first, d.Silent) ∧ edit.Silent ∧ ∀ d ∈ first ++ [edit], d.Silent := by
    rw [hsplit, List.append_cons] at hedits
    have hthrough := (List.forall_mem_append.1 hedits).1
    exact ⟨(List.forall_mem_append.1 hthrough).1, hthrough edit (by simp), hthrough⟩
  cases h with
  | lines hplace hbefore hfail =>
      obtain ⟨first, edit, last, hsplit, rfl, hedit, hmoved⟩ := exists_edit_of_behind hplace
      obtain ⟨hfirst, hline, -⟩ := hsilent hsplit
      refine ⟨first, edit, last, hsplit, hedit, hplace.number,
        .lines hmoved ((passes_editeds_iff hfirst).2 hbefore) ?_⟩
      have hsame := hline.ofLine_eq hedit
      cases hfail with
      | unreadable hread => exact .unreadable (hsame.trans hread)
      | refused hread htake => exact .refused (hsame.trans hread) htake
  | inputs hplace hlines hline hbefore hfail hreason =>
      obtain ⟨first, edit, last, hsplit, rfl, hedit, hmoved⟩ := exists_edit_of_behind hplace
      obtain ⟨hfirst, -, hthrough⟩ := hsilent hsplit
      have hinputs := inputsOn_editeds hthrough
      rw [originals_concat hedit, hline, ← inputsOn_editeds hfirst, editeds_concat] at hinputs
      rw [← inputsOn_editeds hfirst] at hbefore
      exact ⟨first, edit, last, hsplit, hedit, hplace.number,
        .inputs hmoved ((passes_editeds_iff hedits).2 hlines) hinputs hbefore hfail hreason⟩
  | rules hplace hlines hinputs hline hbefore hfail hreason =>
      obtain ⟨first, edit, last, hsplit, rfl, hedit, hmoved⟩ := exists_edit_of_behind hplace
      obtain ⟨hfirst, -, hthrough⟩ := hsilent hsplit
      have hrules := rulesOn_editeds hthrough
      rw [originals_concat hedit, hline, ← rulesOn_editeds hfirst, editeds_concat] at hrules
      rw [← rulesOn_editeds hfirst] at hbefore
      rw [← inputsOn_editeds hedits] at hinputs
      exact ⟨first, edit, last, hsplit, hedit, hplace.number,
        .rules hmoved ((passes_editeds_iff hedits).2 hlines) hinputs hrules hbefore hfail hreason⟩

open Edit in
/-- **Blank lines and comments say nothing.** A text with more of them leads to the same model. If
it is not loaded, it fails at the same line for the same reason; the number of the line counts the
new lines above it, and what is quoted of it has the comment behind it. -/
theorem load_of_silent {edits : List Edit} (hedits : ∀ edit ∈ edits, edit.Silent)
    {text other : String} (htext : splitLines text = originals edits)
    (hother : splitLines other = editeds edits) :
    (∀ m, load other = .ok m ↔ load text = .ok m) ∧
      ∀ e, load text = .error e → ∃ first edit last, edits = first ++ edit :: last ∧
        edit.original? = some e.line.content ∧ e.line.number = (originals first).length + 1 ∧
        load other = .error
          ⟨⟨e.line.number + insertions first, edit.edited⟩, e.reason⟩ := by
  constructor
  · intro m
    rw [load_eq_ok_iff, load_eq_ok_iff, htext, hother, readable_editeds_iff hedits,
      directives_editeds hedits]
  · intro e h
    obtain ⟨pass, hfirst⟩ := load_eq_error_iff.1 h
    rw [htext] at hfirst
    obtain ⟨first, edit, last, hsplit, hedit, hnumber, hmoved⟩ := hfirst.edited hedits
    rw [← hother] at hmoved
    exact ⟨first, edit, last, hsplit, hedit, hnumber, hmoved.load_eq⟩

/-- The marks and the backslash in the comments are not closed by anything. -/
theorem load_of_silent_marks :
    ∃ m, load "var A 0 1\nmf A b tri 0 0 1\nrule c IF A is b THEN A is b" = .ok m ∧
      load "\t# it's\nvar A 0 1 # 1\\\n  \nmf A b tri 0 0 1\nrule c IF A is b THEN A is b # \"IF"
        = .ok m := by
  let edits : List Edit :=
    [.insert "\t# it's", .comment "var A 0 1" " 1\\", .insert "  ", .keep "mf A b tri 0 0 1",
      .comment "rule c IF A is b THEN A is b" " \"IF"]
  have hedits : ∀ edit ∈ edits, edit.Silent := by
    simp only [edits, List.forall_mem_cons]
    exact ⟨.insert (by decide), .comment ⟨_, rfl⟩ (by decide), .insert (by decide), .keep,
      .comment ⟨_, rfl⟩ (by decide), by simp⟩
  let text := "var A 0 1\nmf A b tri 0 0 1\nrule c IF A is b THEN A is b"
  let other :=
    "\t# it's\nvar A 0 1 # 1\\\n  \nmf A b tri 0 0 1\nrule c IF A is b THEN A is b # \"IF"
  have htext : splitLines text = Edit.originals edits := by decide
  have hother : splitLines other = Edit.editeds edits := by decide
  have hloaded : (load text).toOption.isSome = true := by decide +kernel
  obtain ⟨m, hm⟩ := Option.isSome_iff_exists.1 hloaded
  rw [toOption_eq_some_iff] at hm
  exact ⟨m, hm, ((load_of_silent hedits htext hother).1 m).2 hm⟩

end FuzzyLogic.ModelFile
