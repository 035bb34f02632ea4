import FuzzyLogic.Data.Yaml.Directive
import FuzzyLogic.Data.Yaml.Scalar

set_option autoImplicit false

/-! # YAML tokens

The tokens of a YAML text make its indentation explicit: a token opens a block where a line is
indented deeper, and another closes it where the indentation goes back. That a scalar is the key of
a mapping shows only at the colon behind it. The scanner therefore remembers where a key may have
begun, one place for each depth of brackets, and puts the tokens for the key there afterwards. A
token is known only when no key can begin at it any more. So a text that breaks the rules still has
the tokens that were known before. -/

namespace FuzzyLogic.Data.Yaml

/-- The tokens of a text. -/
inductive Token where
  | directive (d : Directive)
  | documentStart
  | documentEnd
  | sequenceBlock
  | mappingBlock
  | blockEnd
  | sequenceOpen
  | sequenceClose
  | mappingOpen
  | mappingClose
  | entry
  | comma
  | key
  | value
  | anchor (name : String)
  | reference (name : String)
  | tag (t : TagText)
  | scalar (text : String) (plain : Bool)
  deriving Repr, DecidableEq

/-- A place where a key may have begun. A key that the indentation asks for is required. -/
structure KeyPlace where
  /-- The number of tokens before the key. -/
  position : Nat
  required : Bool
  index : Nat
  line : Nat
  column : Nat

/-- The scanner between two tokens. -/
structure Scanner where
  cursor : Cursor
  /-- The number of characters of the whole text, which bounds every loop over a part of it. -/
  size : Nat
  /-- The depth of brackets. -/
  depth : Nat
  indent : Int
  outer : List Int
  /-- Whether a key may begin here. -/
  keyAllowed : Bool
  keys : List (Nat × KeyPlace)
  tokens : Array Token

namespace Scanner

/-- The scanner at the beginning of a text. -/
def start (c : Cursor) : Scanner :=
  { cursor := c, size := c.rest.length, depth := 0, indent := -1, outer := [],
    keyAllowed := true, keys := [], tokens := #[] }

/-- Emits a token. -/
def push (s : Scanner) (t : Token) : Scanner :=
  { s with tokens := s.tokens.push t }

/-! ## Keys -/

/-- Gives up the key at the present depth, which must not be a required one. -/
def dropKey (s : Scanner) : Except ReadError Scanner :=
  match s.keys.lookup s.depth with
  | some k =>
    if k.required then .error .malformed
    else .ok { s with keys := s.keys.filter (·.1 != s.depth) }
  | none => .ok s

/-- Remembers that a key may begin here. -/
def markKey (s : Scanner) : Except ReadError Scanner :=
  if s.keyAllowed then do
    let s ← s.dropKey
    let place : KeyPlace :=
      { position := s.tokens.size
        required := s.depth == 0 && s.indent == s.cursor.column
        index := s.cursor.index
        line := s.cursor.line
        column := s.cursor.column }
    return { s with keys := (s.depth, place) :: s.keys }
  else .ok s

/-- The greatest length of a key. -/
def maxKeyLength : Nat :=
  1024

/-- Whether a key that may have begun there can begin there no more: it lies on another line or is
too long. -/
def isOld (s : Scanner) (k : KeyPlace) : Bool :=
  k.line != s.cursor.line || s.cursor.index - k.index > maxKeyLength

/-- Gives up the old keys. -/
def dropOldKeys (s : Scanner) : Except ReadError Scanner :=
  if s.keys.any fun k => s.isOld k.2 && k.2.required then .error .malformed
  else .ok { s with keys := s.keys.filter fun k => !s.isOld k.2 }

/-- The tokens that are known: those before all places where a key may still begin. -/
def known (s : Scanner) : List Token :=
  let places := (s.keys.filter fun k => !s.isOld k.2).map (·.2.position)
  s.tokens.toList.take (places.foldl min s.tokens.size)

/-! ## Indentation -/

/-- Opens a block at the column, if it is deeper than the present one. -/
def openBlock (s : Scanner) (column : Nat) : Bool × Scanner :=
  if s.indent < column then
    (true, { s with outer := s.indent :: s.outer, indent := column })
  else (false, s)

/-- Closes the blocks deeper than the column. -/
def closeBlocks (column : Int) (s : Scanner) : List Int → Scanner
  | [] => s
  | o :: os =>
    if s.indent > column then
      closeBlocks column { s with indent := o, outer := os, tokens := s.tokens.push .blockEnd } os
    else s

/-- Closes the blocks deeper than the column, outside of brackets. -/
def unwind (s : Scanner) (column : Int) : Scanner :=
  if s.depth == 0 then closeBlocks column s s.outer else s

/-! ## Tokens -/

/-- A token of one character. -/
def single (s : Scanner) (t : Token) : Scanner :=
  { s with cursor := s.cursor.advance, tokens := s.tokens.push t }

/-- A token between documents, behind `n` characters. -/
def documentToken (s : Scanner) (t : Token) (n : Nat) : Except ReadError Scanner := do
  let s ← (s.unwind (-1)).dropKey
  return { s with keyAllowed := false, cursor := s.cursor.advanceBy n, tokens := s.tokens.push t }

/-- A line with a directive. -/
def directive (s : Scanner) : Except ReadError Scanner := do
  let s ← (s.unwind (-1)).dropKey
  let (d, lineEnd) ← orMalformed (takeDirective? s.cursor)
  let next := ((lineEnd.takeBreak?).map Prod.snd).getD lineEnd
  return { s with keyAllowed := false, cursor := next, tokens := s.tokens.push (.directive d) }

/-- An opening bracket. -/
def openBracket (s : Scanner) (t : Token) : Except ReadError Scanner := do
  let s ← s.markKey
  return { s.single t with depth := s.depth + 1, keyAllowed := true }

/-- A closing bracket. -/
def closeBracket (s : Scanner) (t : Token) : Except ReadError Scanner :=
  if s.depth == 0 then .error .malformed
  else do
    let s ← s.dropKey
    return { s.single t with depth := s.depth - 1, keyAllowed := false }

/-- A comma inside brackets. -/
def comma (s : Scanner) : Except ReadError Scanner := do
  let s ← s.dropKey
  return { s.single .comma with keyAllowed := true }

/-- The dash of a sequence. Inside brackets it has no place, which shows when nodes are read. -/
def entry (s : Scanner) : Except ReadError Scanner := do
  if s.depth == 0 && !s.keyAllowed then .error .malformed
  let (opened, s) := if s.depth == 0 then s.openBlock s.cursor.column else (false, s)
  let s := if opened then s.push .sequenceBlock else s
  let s ← s.dropKey
  return { s.single .entry with keyAllowed := true }

/-- The question mark of a key. -/
def explicitKey (s : Scanner) : Except ReadError Scanner := do
  if s.depth == 0 && !s.keyAllowed then .error .malformed
  let (opened, s) := if s.depth == 0 then s.openBlock s.cursor.column else (false, s)
  let s := if opened then s.push .mappingBlock else s
  let s ← s.dropKey
  return { s.single .key with keyAllowed := s.depth == 0 }

/-- The colon behind a key that was remembered. -/
def valueOf (s : Scanner) (k : KeyPlace) : Scanner :=
  let s := { s with
    keys := s.keys.filter (·.1 != s.depth)
    tokens := s.tokens.insertIdxIfInBounds k.position .key }
  let (opened, s) := if s.depth == 0 then s.openBlock k.column else (false, s)
  let s :=
    if opened then { s with tokens := s.tokens.insertIdxIfInBounds k.position .mappingBlock }
    else s
  { s.single .value with keyAllowed := false }

/-- A colon. -/
def value (s : Scanner) : Except ReadError Scanner :=
  match s.keys.lookup s.depth with
  | some k => .ok (s.valueOf k)
  | none => do
    if s.depth == 0 && !s.keyAllowed then .error .malformed
    let (opened, s) := if s.depth == 0 then s.openBlock s.cursor.column else (false, s)
    let s := if opened then s.push .mappingBlock else s
    let s ← s.dropKey
    return { s.single .value with keyAllowed := s.depth == 0 }

/-- Emits a token and goes on behind it. -/
def advanceTo (s : Scanner) (t : Token) (keyAllowed : Bool) (next : Cursor) : Scanner :=
  { s with keyAllowed, cursor := next, tokens := s.tokens.push t }

/-- A name behind `&` or `*`. -/
def named (s : Scanner) (token : String → Token) : Except ReadError Scanner := do
  let s ← s.markKey
  let (name, next) := s.cursor.advance.takeWhile isNameChar
  let ends := isWordEnd next.peek || next.peek.any fun c => "?:,]\x7d%@\x60".contains c
  if name.isEmpty || !ends then .error .malformed
  return s.advanceTo (token (String.ofList name)) false next

/-- A tag. -/
def tag (s : Scanner) : Except ReadError Scanner := do
  let s ← s.markKey
  let (t, next) ← orMalformed (takeTag? s.cursor)
  return s.advanceTo (.tag t) false next

/-- A plain scalar. -/
def plain (s : Scanner) : Except ReadError Scanner := do
  let s ← s.markKey
  let (text, broken, next) :=
    plainScalar (s.depth != 0) (s.indent + 1) [] false s.cursor (s.size + 1)
  return s.advanceTo (.scalar (String.ofList text) true) broken next

/-- A scalar between marks. -/
def quoted (s : Scanner) (mark : Char) : Except ReadError Scanner := do
  let s ← s.markKey
  let (text, next) ← quotedScalar mark s.cursor.advance (s.size + 1)
  return s.advanceTo (.scalar (String.ofList text) false) false next

/-- A block scalar. -/
def block (s : Scanner) (folded : Bool) : Except ReadError Scanner := do
  let s ← s.dropKey
  let (text, next) ← orMalformed (blockScalar? folded s.indent s.cursor.advance)
  return s.advanceTo (.scalar (String.ofList text) false) true next

/-- Whether a plain scalar may begin with the character. -/
def beginsPlain (s : Scanner) (c : Char) : Bool :=
  !("-?:,[]\x7b\x7d#&*!|>'\"%@\x60".contains c || isWordEnd (some c))
    || (!isWordEnd (s.cursor.peekAt 1) && (c == '-' || (s.depth == 0 && (c == '?' || c == ':'))))

/-- The token that begins with the character at the cursor. -/
def token (s : Scanner) (c : Char) : Except ReadError Scanner :=
  let atLineStart := s.cursor.column == 0
  let wordEnds := isWordEnd (s.cursor.peekAt 1)
  if atLineStart && c == '%' then s.directive
  else if atLineStart && c == '-' && s.cursor.atDocumentMark then s.documentToken .documentStart 3
  else if atLineStart && c == '.' && s.cursor.atDocumentMark then s.documentToken .documentEnd 3
  else if c == '[' then s.openBracket .sequenceOpen
  else if c == '\x7b' then s.openBracket .mappingOpen
  else if c == ']' then s.closeBracket .sequenceClose
  else if c == '\x7d' then s.closeBracket .mappingClose
  else if c == ',' then s.comma
  else if c == '-' && wordEnds then s.entry
  else if c == '?' && (s.depth != 0 || wordEnds) then s.explicitKey
  else if c == ':' && (s.depth != 0 || wordEnds) then s.value
  else if c == '*' then s.named .reference
  else if c == '&' then s.named .anchor
  else if c == '!' then s.tag
  else if c == '|' && s.depth == 0 then s.block false
  else if c == '>' && s.depth == 0 then s.block true
  else if c == '\'' || c == '"' then s.quoted c
  else if s.beginsPlain c then s.plain
  else .error .malformed

/-- The scanner behind the next tokens, and whether it has reached the end of the text. -/
def step (s : Scanner) : Except ReadError (Scanner × Bool) := do
  let (broken, cursor) := s.cursor.toToken (s.size + 1)
  let s := { s with cursor, keyAllowed := s.keyAllowed || (broken && s.depth == 0) }
  let s ← s.dropOldKeys
  let s := s.unwind s.cursor.column
  match s.cursor.peek with
  | none => return (← (s.unwind (-1)).dropKey, true)
  | some c => return (← s.token c, false)

/-- Scans up to the end of the text, or up to where it breaks the rules. The fuel bounds the number
of steps. -/
def scan (s : Scanner) : Nat → List Token × Option ReadError
  | 0 => (s.known, some .malformed)
  | fuel + 1 =>
    match s.step with
    | .error e => (s.known, some e)
    | .ok (last, true) => (last.tokens.toList, none)
    | .ok (next, false) => next.scan fuel

end Scanner

/-- The tokens of a text, and why there are no more of them if it breaks the rules. A mark of the
byte order at its beginning is skipped. -/
def tokens (text : String) : List Token × Option ReadError :=
  let cs := text.toList
  if cs.all isAllowed then
    let begin := Cursor.start cs
    let begin := if begin.peek == some (Char.ofNat 0xFEFF) then begin.advance else begin
    (Scanner.start begin).scan (cs.length + 2)
  else ([], some .malformed)

end FuzzyLogic.Data.Yaml
