import FuzzyLogic.Data.Json.Reader
import FuzzyLogic.Data.Yaml.Cursor

set_option autoImplicit false

/-! # The text of a YAML scalar

A scalar is written in one of five ways: plain, between single or double marks, or as a block that
keeps its line breaks (literal) or joins its lines (folded). Line breaks inside the first three are
folded: a single one counts as a blank, and of several the first is left out. -/

namespace FuzzyLogic.Data.Yaml

/-- What a line break and the breaks behind it count for. -/
def foldBreaks (first : Char) (others : List Char) : List Char :=
  if first != '\n' then first :: others
  else if others.isEmpty then [' ']
  else others

/-! ## Plain scalars -/

/-- The number of characters of a plain scalar before the next blank or mark. -/
def plainLength (flow : Bool) : List Char → Nat
  | [] => 0
  | c :: rest =>
    let next := rest.head?
    let endsKey := c == ':' && (isWordEnd next || (flow && next.any isFlowMark))
    if isWordEnd (some c) || endsKey || (flow && (isFlowMark c || c == '?')) then 0
    else plainLength flow rest + 1

/-- The breaks at the front, blanks between them left out, and whether a document ends there. -/
def plainBreaks (c : Cursor) : Nat → List Char × Bool × Cursor
  | 0 => ([], false, c)
  | fuel + 1 =>
    let c := c.skipWhile (· == ' ')
    match c.takeBreak? with
    | none => ([], false, c)
    | some (b, next) =>
      if next.atDocumentMark then ([], true, next)
      else
        let (bs, ended, last) := plainBreaks next fuel
        (b :: bs, ended, last)

/-- The blanks and breaks between two parts of a plain scalar, as they count, whether there was a
break, and the place behind them. -/
def plainGap (c : Cursor) : List Char × Bool × Cursor :=
  let (blanks, next) := c.takeWhile (· == ' ')
  match next.takeBreak? with
  | none => (blanks, false, next)
  | some (b, next) =>
    if next.atDocumentMark then ([], true, next)
    else
      let (bs, ended, last) := plainBreaks next (next.rest.length + 1)
      (if ended then [] else foldBreaks b bs, true, last)

/-- A plain scalar at indentation `indent` or deeper, whether a line break lies between its last
part and the next token, and the place behind it. `gap` and `broken` tell what lies before the next
part. -/
def plainScalar (flow : Bool) (indent : Int) (gap : List Char) (broken : Bool) (c : Cursor) :
    Nat → List Char × Bool × Cursor
  | 0 => ([], broken, c)
  | fuel + 1 =>
    let n := if c.peek == some '#' then 0 else plainLength flow c.rest
    if n == 0 then ([], broken, c)
    else
      let part := gap ++ c.rest.take n
      let (gap, broken, next) := plainGap (c.advanceBy n)
      if gap.isEmpty || next.peek == some '#' || (!flow && (next.column : Int) < indent) then
        (part, broken, next)
      else
        let (more, broken, last) := plainScalar flow indent gap broken next fuel
        (part ++ more, broken, last)

/-! ## Quoted scalars -/

/-- The character of an escape of one letter. -/
def escapeChar? : Char → Option Char
  | '0' => some '\x00'
  | 'a' => some '\x07'
  | 'b' => some '\x08'
  | 't' => some '\t'
  | '\t' => some '\t'
  | 'n' => some '\n'
  | 'v' => some '\x0b'
  | 'f' => some '\x0c'
  | 'r' => some '\x0d'
  | 'e' => some '\x1b'
  | ' ' => some ' '
  | '"' => some '"'
  | '\\' => some '\\'
  | '/' => some '/'
  | 'N' => some (Char.ofNat 0x85)
  | '_' => some (Char.ofNat 0xA0)
  | 'L' => some (Char.ofNat 0x2028)
  | 'P' => some (Char.ofNat 0x2029)
  | _ => none

/-- The number of hexadecimal digits behind the letter of an escape. -/
def escapeWidth? : Char → Option Nat
  | 'x' => some 2
  | 'u' => some 4
  | 'U' => some 8
  | _ => none

/-- The breaks at the front, with blanks between them; a document must not end there. -/
def quotedBreaks? (c : Cursor) : Nat → Option (List Char × Cursor)
  | 0 => none
  | fuel + 1 =>
    if c.atDocumentMark then none
    else
      let c := c.skipWhile fun ch => ch == ' ' || ch == '\t'
      match c.takeBreak? with
      | none => some ([], c)
      | some (b, next) => (quotedBreaks? next fuel).map fun (bs, last) => (b :: bs, last)

/-- The character with the given number. Numbers of more than 31 bits are refused on their own. -/
def numberedChar (n : Nat) : Except ReadError Char :=
  if n < 0x110000 then .ok (Text.ofCode n)
  else if n < Nat.pow 2 31 then .error .malformed
  else .error .tooLarge

/-- An escape behind its backslash, and the place behind it. -/
def quotedEscape (c : Cursor) : Except ReadError (List Char × Cursor) :=
  match c.peek with
  | none => .error .malformed
  | some e =>
    match escapeChar? e with
    | some ch => .ok ([ch], c.advance)
    | none =>
      match escapeWidth? e with
      | some width => do
        let digits := c.advance.rest.take width
        if digits.length < width then .error .malformed
        let n ← orMalformed (Json.hexNumber? digits)
        let ch ← numberedChar n
        return ([ch], c.advanceBy (width + 1))
      | none =>
        match c.takeBreak? with
        | some (_, next) => orMalformed (quotedBreaks? next (next.rest.length + 1))
        | none => .error .malformed

/-- The blanks and breaks inside a scalar, as they count, and the place behind them. -/
def quotedGap? (c : Cursor) : Option (List Char × Cursor) :=
  let (blanks, next) := c.takeWhile fun ch => ch == ' ' || ch == '\t'
  match next.takeBreak? with
  | none => some (blanks, next)
  | some (b, next) =>
    (quotedBreaks? next (next.rest.length + 1)).map fun (bs, last) => (foldBreaks b bs, last)

/-- A scalar behind its opening mark, up to its closing mark. -/
def quotedScalar (mark : Char) (c : Cursor) : Nat → Except ReadError (List Char × Cursor)
  | 0 => .error .malformed
  | fuel + 1 => do
    match c.peek with
    | none => .error .malformed
    | some ch =>
      if ch == mark then
        if mark == '\'' && c.peekAt 1 == some '\'' then
          let (more, last) ← quotedScalar mark (c.advanceBy 2) fuel
          return ('\'' :: more, last)
        else return ([], c.advance)
      else
        let (part, next) ←
          if ch == '\\' && mark == '"' then quotedEscape c.advance
          else if ch == ' ' || ch == '\t' || isBreak ch then orMalformed (quotedGap? c)
          else pure ([ch], c.advance)
        let (more, last) ← quotedScalar mark next fuel
        return (part ++ more, last)

/-! ## Block scalars -/

/-- What becomes of the breaks at the end of a block. -/
inductive Chomping where
  | strip
  | clip
  | keep
  deriving Repr, DecidableEq

/-- The sign of a header. -/
def takeChomping (c : Cursor) : Option Chomping × Cursor :=
  match c.peek with
  | some '+' => (some .keep, c.advance)
  | some '-' => (some .strip, c.advance)
  | _ => (none, c)

/-- The digit of a header, which must not be zero. -/
def takeIncrement? (c : Cursor) : Option (Option Nat × Cursor) :=
  match c.peek with
  | some d =>
    if d == '0' then none
    else if d.isDigit then some (some (d.toNat - '0'.toNat), c.advance)
    else some (none, c)
  | none => some (none, c)

/-- The header of a block: its sign and digit in either order, then perhaps a comment. -/
def blockHeader? (c : Cursor) : Option (Chomping × Option Nat × Cursor) := do
  let (sign, c) := takeChomping c
  let (increment, c) ← takeIncrement? c
  let (sign, c) := if sign.isSome || increment.isNone then (sign, c) else takeChomping c
  if !(isLineEnd c.peek || c.peek == some ' ') then none
  let c := c.skipWhile (· == ' ')
  let c := if c.peek == some '#' then c.skipWhile (fun ch => !isBreak ch) else c
  match c.peek, c.takeBreak? with
  | none, _ => return (sign.getD .clip, increment, c)
  | _, some (_, next) => return (sign.getD .clip, increment, next)
  | _, none => none

/-- Skips blanks up to a column. -/
def skipToColumn (column : Nat) (c : Cursor) : Cursor :=
  c.advanceBy (min (c.rest.takeWhile (· == ' ')).length (column - c.column))

/-- The empty lines at the front of a block, the greatest column that their blanks reach, and the
place behind them. -/
def blockIndentation (c : Cursor) (widest : Nat) : Nat → List Char × Nat × Cursor
  | 0 => ([], widest, c)
  | fuel + 1 =>
    let c := c.skipWhile (· == ' ')
    let widest := max widest c.column
    match c.takeBreak? with
    | none => ([], widest, c)
    | some (b, next) =>
      let (bs, widest, last) := blockIndentation next widest fuel
      (b :: bs, widest, last)

/-- The empty lines before the next line of a block. -/
def blockBreaks (indent : Nat) (c : Cursor) : Nat → List Char × Cursor
  | 0 => ([], c)
  | fuel + 1 =>
    let c := skipToColumn indent c
    match c.takeBreak? with
    | none => ([], c)
    | some (b, next) =>
      let (bs, last) := blockBreaks indent next fuel
      (b :: bs, last)

/-- The lines of a block from the first one on. `breaks` are the empty lines before it. The result
holds the text without the end, the break behind the last line, and the empty lines after it. -/
def blockLines (folded : Bool) (indent : Nat) (breaks : List Char) (c : Cursor) :
    Nat → List Char × List Char × List Char × Cursor
  | 0 => ([], [], breaks, c)
  | fuel + 1 =>
    if c.column != indent || c.peek.isNone then ([], [], breaks, c)
    else
      let indented := fun c : Cursor => c.peek == some ' ' || c.peek == some '\t'
      let (line, atBreak) := c.takeWhile fun ch => !isBreak ch
      let (lineBreak, next) := match atBreak.takeBreak? with
        | some (b, next) => ([b], next)
        | none => ([], atBreak)
      let (after, next) := blockBreaks indent next (next.rest.length + 1)
      if next.column == indent && next.peek.isSome then
        let joined :=
          if folded && lineBreak == ['\n'] && !indented c && !indented next then
            if after.isEmpty then [' '] else []
          else lineBreak
        let (more, lastBreak, tail, last) := blockLines folded indent after next fuel
        (breaks ++ line ++ joined ++ more, lastBreak, tail, last)
      else (breaks ++ line, lineBreak, after, next)

/-- A block behind its mark, inside of a structure at indentation `outer`. -/
def blockScalar? (folded : Bool) (outer : Int) (c : Cursor) : Option (List Char × Cursor) := do
  let (chomping, increment, c) ← blockHeader? c
  let least := (max (outer + 1) 1).toNat
  let fuel := c.rest.length + 1
  let (breaks, indent, c) := match increment with
    | none =>
      let (breaks, widest, c) := blockIndentation c 0 fuel
      (breaks, max least widest, c)
    | some n =>
      let indent := least + n - 1
      let (breaks, c) := blockBreaks indent c fuel
      (breaks, indent, c)
  let (text, lastBreak, tail, last) := blockLines folded indent breaks c fuel
  let ending := match chomping with
    | .strip => []
    | .clip => lastBreak
    | .keep => lastBreak ++ tail
  return (text ++ ending, last)

end FuzzyLogic.Data.Yaml
