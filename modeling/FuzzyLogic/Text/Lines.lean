set_option autoImplicit false

/-! # Lines

Two readings of line ends. A text is cut into lines at every Unicode line boundary, a carriage
return directly before a line feed counting with it; the boundary itself belongs to no line, and
a boundary at the end of the text opens no further line. A file is read with one kind of line end:
carriage returns, alone or before a line feed, become line feeds. -/

namespace FuzzyLogic.Text

/-- The characters that end a line. -/
def isLineBoundary (c : Char) : Bool :=
  let n := c.toNat
  (0x0A ≤ n && n ≤ 0x0D) || (0x1C ≤ n && n ≤ 0x1E) || n == 0x85 || n == 0x2028 || n == 0x2029

/-- The lines of a text of whose first line `line` (in reverse) was already read. -/
def linesFrom (line : List Char) : List Char → List (List Char)
  | [] => if line.isEmpty then [] else [line.reverse]
  | '\x0d' :: '\n' :: rest => line.reverse :: linesFrom [] rest
  | c :: rest =>
    if isLineBoundary c then line.reverse :: linesFrom [] rest else linesFrom (c :: line) rest

/-- The lines of a text, without their boundaries. -/
def splitLines (s : String) : List String :=
  (linesFrom [] s.toList).map String.ofList

/-- Every line end written as one line feed. -/
def unifyLineEnds : List Char → List Char
  | [] => []
  | '\x0d' :: '\n' :: rest => '\n' :: unifyLineEnds rest
  | '\x0d' :: rest => '\n' :: unifyLineEnds rest
  | c :: rest => c :: unifyLineEnds rest

end FuzzyLogic.Text
