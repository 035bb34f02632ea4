set_option autoImplicit false

/-! # A place in a YAML text

Indentation carries the structure of a YAML text, so a reader knows the line and the column at
which it stands. The characters that YAML treats alike (line breaks, blanks) are told apart here,
and the end of the text is read as the absence of a character. -/

namespace FuzzyLogic.Data.Yaml

/-! ## Characters -/

/-- A line break. -/
def isBreak (c : Char) : Bool :=
  c == '\n' || c == '\x0d' || c.toNat == 0x85 || c.toNat == 0x2028 || c.toNat == 0x2029

/-- The end of a line or of the text. -/
def isLineEnd : Option Char → Bool
  | none => true
  | some c => isBreak c

/-- A blank, the end of a line or of the text: what ends a word. -/
def isWordEnd : Option Char → Bool
  | none => true
  | some c => c == ' ' || c == '\t' || isBreak c

/-- The characters that separate things inside brackets. -/
def isFlowMark (c : Char) : Bool :=
  c == ',' || c == '[' || c == ']' || c == '\x7b' || c == '\x7d'

/-- The characters that a YAML text may hold. -/
def isAllowed (c : Char) : Bool :=
  let n := c.toNat
  n == 0x09 || n == 0x0A || n == 0x0D || (0x20 ≤ n && n ≤ 0x7E) || n == 0x85
    || (0xA0 ≤ n && n ≤ 0xFFFD) || 0x10000 ≤ n

/-! ## Cursors -/

/-- The text that is still to be read, and where it begins. -/
structure Cursor where
  rest : List Char
  index : Nat
  line : Nat
  column : Nat

namespace Cursor

/-- The beginning of a text. -/
def start (cs : List Char) : Cursor :=
  { rest := cs, index := 0, line := 0, column := 0 }

/-- The next character. -/
def peek (c : Cursor) : Option Char :=
  c.rest.head?

/-- The character `n` places behind the next one. -/
def peekAt (c : Cursor) (n : Nat) : Option Char :=
  c.rest[n]?

/-- The place behind the next character. -/
def advance (c : Cursor) : Cursor :=
  match c.rest with
  | [] => c
  | ch :: tail =>
    if isBreak ch && !(ch == '\x0d' && tail.head? == some '\n') then
      { rest := tail, index := c.index + 1, line := c.line + 1, column := 0 }
    else
      { c with
        rest := tail
        index := c.index + 1
        column := if ch.toNat == 0xFEFF then c.column else c.column + 1 }

/-- The place behind the next `n` characters. -/
def advanceBy (c : Cursor) : Nat → Cursor
  | 0 => c
  | n + 1 => c.advance.advanceBy n

/-- The characters at the front that satisfy `p`, and the place behind them. -/
def takeWhile (c : Cursor) (p : Char → Bool) : List Char × Cursor :=
  let taken := c.rest.takeWhile p
  (taken, c.advanceBy taken.length)

/-- The place behind the characters at the front that satisfy `p`. -/
def skipWhile (c : Cursor) (p : Char → Bool) : Cursor :=
  (c.takeWhile p).2

/-- A line break at the front, as it counts in a scalar, and the place behind it. -/
def takeBreak? (c : Cursor) : Option (Char × Cursor) :=
  match c.rest with
  | '\x0d' :: '\n' :: _ => some ('\n', c.advanceBy 2)
  | ch :: _ =>
    if isBreak ch then
      some (if ch.toNat == 0x2028 || ch.toNat == 0x2029 then ch else '\n', c.advance)
    else none
  | [] => none

/-- Whether one of the marks `---` and `...` stands here as a word. -/
def atDocumentMark (c : Cursor) : Bool :=
  match c.rest with
  | '-' :: '-' :: '-' :: tail => isWordEnd tail.head?
  | '.' :: '.' :: '.' :: tail => isWordEnd tail.head?
  | _ => false

/-- The place of the next token, and whether a line break lies before it. Comments are skipped. -/
def toToken (c : Cursor) : Nat → Bool × Cursor
  | 0 => (false, c)
  | fuel + 1 =>
    let c := c.skipWhile (· == ' ')
    let c := if c.peek == some '#' then c.skipWhile (fun ch => !isBreak ch) else c
    match c.takeBreak? with
    | some (_, next) => (true, (next.toToken fuel).2)
    | none => (false, c)

end Cursor

end FuzzyLogic.Data.Yaml
