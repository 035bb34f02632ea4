import FuzzyLogic.Data.Json.Reader
import FuzzyLogic.Data.Yaml.Cursor

set_option autoImplicit false

/-! # Tags and directives as they are written

A tag names the kind of a node. It is written in full between angle brackets, or cut short by a
handle: `!`, `!!`, or a name between two exclamation marks. A directive before a document gives the
version of the format or the meaning of a handle; other directives are passed over. -/

namespace FuzzyLogic.Data.Yaml

/-! ## Parts of tags -/

/-- A character of a handle or of a directive's name. -/
def isNameChar (c : Char) : Bool :=
  c.isAlphanum || c == '-' || c == '_'

/-- A character that stands for itself in a tag. -/
def isTagChar (c : Char) : Bool :=
  c.isAlphanum || "-;/?:@&=+$,_.!~*'()[]".contains c

/-- The end of a line or of the text, or a space. -/
def isSpaceOrEnd (c : Option Char) : Bool :=
  isLineEnd c || c == some ' '

/-- The bytes of the escapes `%xx` at the front, and the place behind them. -/
def takeEscapedBytes? (c : Cursor) : Nat → Option (List UInt8 × Cursor)
  | 0 => none
  | fuel + 1 =>
    if c.peek == some '%' then do
      let digits := c.advance.rest.take 2
      if digits.length < 2 then none
      let n ← Json.hexNumber? digits
      let (bytes, last) ← takeEscapedBytes? (c.advanceBy 3) fuel
      return (UInt8.ofNat n :: bytes, last)
    else some ([], c)

/-- The text of a tag behind its handle, and the place behind it. Escaped bytes that follow one
another spell characters. -/
def takeTagText? (c : Cursor) : Nat → Option (List Char × Cursor)
  | 0 => none
  | fuel + 1 =>
    if c.peek == some '%' then do
      let (bytes, next) ← takeEscapedBytes? c (c.rest.length + 1)
      let text ← String.fromUTF8? ⟨bytes.toArray⟩
      let (more, last) ← takeTagText? next fuel
      return (text.toList ++ more, last)
    else
      let (part, next) := c.takeWhile isTagChar
      if part.isEmpty then some ([], c)
      else (takeTagText? next fuel).map fun (more, last) => (part ++ more, last)

/-- The text of a tag, which must not be empty, and the place behind it. -/
def takeTagWord? (c : Cursor) : Option (String × Cursor) := do
  let (text, next) ← takeTagText? c (c.rest.length + 1)
  if next.index == c.index then none
  return (String.ofList text, next)

/-- A handle, and the place behind it. -/
def takeHandle? (c : Cursor) : Option (String × Cursor) :=
  if c.peek != some '!' then none
  else if c.peekAt 1 == some ' ' then some ("!", c.advance)
  else
    let (name, next) := c.advance.takeWhile isNameChar
    if next.peek == some '!' then some ("!" ++ String.ofList name ++ "!", next.advance)
    else none

/-- A tag: its handle, if it has one, and the rest of it. -/
structure TagText where
  handle : Option String
  text : String
  deriving Repr, DecidableEq

/-- The tag at the cursor, without regard to what follows it. -/
def takeTagForm? (c : Cursor) : Option (TagText × Cursor) :=
  if c.peekAt 1 == some '<' then do
    let (text, next) ← takeTagWord? (c.advanceBy 2)
    if next.peek != some '>' then none
    return (⟨none, text⟩, next.advance)
  else if isWordEnd (c.peekAt 1) then some (⟨none, "!"⟩, c.advance)
  else
    let word := c.advance.rest.takeWhile fun ch => !isSpaceOrEnd (some ch)
    if word.contains '!' then do
      let (handle, next) ← takeHandle? c
      let (text, next) ← takeTagWord? next
      return (⟨some handle, text⟩, next)
    else do
      let (text, next) ← takeTagWord? c.advance
      return (⟨some "!", text⟩, next)

/-- The tag at the cursor, which a space or the end of the line has to follow. -/
def takeTag? (c : Cursor) : Option (TagText × Cursor) := do
  let (tag, next) ← takeTagForm? c
  if isSpaceOrEnd next.peek then some (tag, next) else none

/-! ## Directives -/

/-- A directive before a document. -/
inductive Directive where
  /-- The first number of the version. -/
  | version (major : Nat)
  /-- What a handle stands for. -/
  | handle (name expansion : String)
  | other
  deriving Repr, DecidableEq

/-- The place behind the spaces. -/
def Cursor.skipSpaces (c : Cursor) : Cursor :=
  c.skipWhile (· == ' ')

/-- A number of a version, and the place behind it. -/
def takeVersionNumber? (c : Cursor) : Option (Nat × Cursor) :=
  let (digits, next) := c.takeWhile Char.isDigit
  if digits.isEmpty || digits.length > Value.maxDigits then none
  else some (Decimal.ofDigits (digits.map fun d => d.toNat - '0'.toNat), next)

/-- The version behind the name of its directive. -/
def takeVersion? (c : Cursor) : Option (Directive × Cursor) := do
  let (major, next) ← takeVersionNumber? c.skipSpaces
  if next.peek != some '.' then none
  let (_, next) ← takeVersionNumber? next.advance
  if isSpaceOrEnd next.peek then some (.version major, next) else none

/-- The handle and its meaning behind the name of their directive. -/
def takeHandleMeaning? (c : Cursor) : Option (Directive × Cursor) := do
  let (name, next) ← takeHandle? c.skipSpaces
  if next.peek != some ' ' then none
  let (expansion, next) ← takeTagWord? next.skipSpaces
  if isSpaceOrEnd next.peek then some (.handle name expansion, next) else none

/-- The directive at the cursor, and the end of its line. A comment may follow it. -/
def takeDirective? (c : Cursor) : Option (Directive × Cursor) := do
  let (name, next) := c.advance.takeWhile isNameChar
  if name.isEmpty || !isSpaceOrEnd next.peek then none
  let (directive, next) ←
    if name == "YAML".toList then takeVersion? next
    else if name == "TAG".toList then takeHandleMeaning? next
    else some (.other, next.skipWhile fun ch => !isBreak ch)
  let next := next.skipSpaces
  let next := if next.peek == some '#' then next.skipWhile (fun ch => !isBreak ch) else next
  if isLineEnd next.peek then some (directive, next) else none

end FuzzyLogic.Data.Yaml
