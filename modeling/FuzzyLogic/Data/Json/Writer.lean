import FuzzyLogic.Data.Value

set_option autoImplicit false

/-! # Writing JSON

The JSON text of a data value, on one line or indented. It uses ASCII only: characters beyond it are
written as escaped UTF-16 units, an unpaired half as the one unit that it is. -/

namespace FuzzyLogic.Data.Json

/-! ## Texts and numbers -/

/-- A UTF-16 unit as an escape. -/
def unitEscape (n : Nat) : List Char :=
  '\\' :: 'u' :: Text.hexDigits 4 n

/-- One character of a text. -/
def writeChar (c : Char) : List Char :=
  let n := (Text.half? c).getD c.toNat
  if c == '"' || c == '\\' then ['\\', c]
  else if c == '\n' then ['\\', 'n']
  else if c == '\x0d' then ['\\', 'r']
  else if c == '\t' then ['\\', 't']
  else if n == 0x08 then ['\\', 'b']
  else if n == 0x0C then ['\\', 'f']
  else if 0x20 ≤ n ∧ n ≤ 0x7E then [c]
  else if n < 0x10000 then unitEscape n
  else
    unitEscape (0xD800 + (n - 0x10000) / 0x400) ++ unitEscape (0xDC00 + (n - 0x10000) % 0x400)

/-- A text in quotation marks. -/
def writeText (s : String) : String :=
  String.ofList ('"' :: s.toList.flatMap writeChar ++ ['"'])

/-- A floating-point number. -/
def writeNumber (x : Float) : String :=
  match Decimal.Parts.ofFloat x with
  | .nan => "NaN"
  | .infinite negative => if negative then "-Infinity" else "Infinity"
  | .finite .. => Decimal.numeral x

/-! ## Values -/

/-- How a collection is laid out at some depth: the break before an item, and the break before the
closing bracket. -/
structure Layout where
  item : Nat → String
  close : Nat → String
  /-- Between two items, before the break. -/
  comma : String
  colon : String

/-- Every item on a line of its own, two spaces for each level. -/
def Layout.indented : Layout :=
  let line := fun depth : Nat => "\n" ++ String.ofList (List.replicate (2 * depth) ' ')
  { item := fun depth => line (depth + 1), close := line, comma := ",", colon := ": " }

/-- Everything on one line. -/
def Layout.compact : Layout :=
  { item := fun _ => "", close := fun _ => "", comma := ",", colon := ":" }

mutual

/-- The value at the given depth. A value that JSON has no form for is written as a text. -/
def writeAt (layout : Layout) (depth : Nat) : Value → String
  | .null => "null"
  | .bool b => if b then "true" else "false"
  | .integer i => toString i
  | .number x => writeNumber x
  | .text s => writeText s
  | .list [] => "[]"
  | .list items =>
    "[" ++ layout.comma.intercalate (writeItems layout (depth + 1) items)
      ++ layout.close depth ++ "]"
  | .mapping [] => "\x7b\x7d"
  | .mapping entries =>
    "\x7b" ++ layout.comma.intercalate (writeEntries layout (depth + 1) entries)
      ++ layout.close depth ++ "\x7d"
  | v => writeText v.plainForm

/-- The items of a list, each behind its break. -/
def writeItems (layout : Layout) (depth : Nat) : List Value → List String
  | [] => []
  | v :: rest => (layout.item (depth - 1) ++ writeAt layout depth v) :: writeItems layout depth rest

/-- The members of an object, each behind its break. -/
def writeEntries (layout : Layout) (depth : Nat) : List (Value × Value) → List String
  | [] => []
  | (k, v) :: rest =>
    (layout.item (depth - 1) ++ writeText k.plainForm ++ layout.colon ++ writeAt layout depth v)
      :: writeEntries layout depth rest

end

/-- The JSON text of a value. -/
def write (layout : Layout) (v : Value) : String :=
  writeAt layout 0 v

end FuzzyLogic.Data.Json
