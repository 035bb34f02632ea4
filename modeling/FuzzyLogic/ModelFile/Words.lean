set_option autoImplicit false

/-! # The words of a line

A line of a model is split into words at blanks. Quotation marks of either kind keep blanks inside
a word, and a pair of marks with nothing between them is a word without characters. A backslash
keeps the next character as it is; between double marks it does so only before a double mark or
another backslash, and between single marks it is a character like any other. A number sign outside
of marks starts a comment that reaches to the end of the line, even in the middle of a word. -/

namespace FuzzyLogic.ModelFile

/-- Where the splitter stands. -/
inductive Mode where
  | between
  | comment
  | word
  /-- Behind an opening mark. -/
  | quoted (mark : Char)
  /-- Behind a backslash, inside of marks or outside. -/
  | escaped (mark : Option Char)
  deriving Repr, DecidableEq

/-- Why a line cannot be split. -/
inductive WordError where
  | noClosingQuotation
  | noEscapedCharacter
  deriving Repr, DecidableEq

/-- The wording of the error. -/
def WordError.message : WordError → String
  | noClosingQuotation => "No closing quotation"
  | noEscapedCharacter => "No escaped character"

/-- The characters that separate words. -/
def isSeparator (c : Char) : Bool :=
  c == ' ' || c == '\t' || c == '\x0d' || c == '\n'

/-- The two quotation marks. -/
def isMark (c : Char) : Bool :=
  c == '\'' || c == '"'

/-- The words of the rest of a line. `word` holds what was read of the present word, in reverse. -/
def wordsFrom (mode : Mode) (word : List Char) :
    List Char → Except WordError (List (List Char))
  | [] =>
    match mode with
    | .between | .comment => .ok []
    | .word => .ok [word.reverse]
    | .quoted _ => .error .noClosingQuotation
    | .escaped _ => .error .noEscapedCharacter
  | c :: rest =>
    match mode with
    | .comment => wordsFrom (if c == '\n' then .between else .comment) [] rest
    | .between =>
      if isSeparator c then wordsFrom .between [] rest
      else if c == '#' then wordsFrom .comment [] rest
      else if c == '\\' then wordsFrom (.escaped none) [] rest
      else if isMark c then wordsFrom (.quoted c) [] rest
      else wordsFrom .word [c] rest
    | .word =>
      if isSeparator c then (wordsFrom .between [] rest).map (word.reverse :: ·)
      else if c == '#' then (wordsFrom .comment [] rest).map (word.reverse :: ·)
      else if c == '\\' then wordsFrom (.escaped none) word rest
      else if isMark c then wordsFrom (.quoted c) word rest
      else wordsFrom .word (c :: word) rest
    | .quoted mark =>
      if c == mark then wordsFrom .word word rest
      else if c == '\\' && mark == '"' then wordsFrom (.escaped (some mark)) word rest
      else wordsFrom (.quoted mark) (c :: word) rest
    | .escaped none => wordsFrom .word (c :: word) rest
    | .escaped (some mark) =>
      let kept := if c == mark || c == '\\' then word else '\\' :: word
      wordsFrom (.quoted mark) (c :: kept) rest

/-- The words of a line. -/
def lineWords (line : String) : Except WordError (List String) :=
  (wordsFrom .between [] line.toList).map (·.map String.ofList)

end FuzzyLogic.ModelFile
