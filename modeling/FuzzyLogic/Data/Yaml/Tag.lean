import FuzzyLogic.Data.Json.Reader
import FuzzyLogic.Data.Yaml.Time

set_option autoImplicit false

/-! # Kinds of YAML nodes

Every node has a kind, which its tag names. A plain scalar without a tag is null, a truth value, an
integer, a floating-point number, a time, a mark of a mapping or a text, by the rules of YAML 1.1:
integers may be binary, octal, hexadecimal or in base sixty, a number with an exponent needs a point
and a sign of the exponent, and underscores between digits do not count. -/

namespace FuzzyLogic.Data.Yaml

/-- The kind of a node. -/
inductive Tag where
  | null
  | truth
  | integer
  | float
  | binary
  | time
  | text
  | list
  | mapping
  | set
  | orderedMap
  | pairs
  /-- The key that stands for the entries of other mappings. -/
  | merge
  /-- The key whose value stands for its mapping where a scalar is asked for. -/
  | value
  /-- A kind without values. -/
  | unknown
  deriving Repr, DecidableEq

/-- What the handle `!!` stands for. -/
def standardTags : String :=
  "tag:yaml.org,2002:"

/-- The kinds by the names that they have behind the handle `!!`. -/
def Tag.names : List (String × Tag) := [
  ("null", .null), ("bool", .truth), ("int", .integer), ("float", .float), ("binary", .binary),
  ("timestamp", .time), ("str", .text), ("seq", .list), ("map", .mapping), ("set", .set),
  ("omap", .orderedMap), ("pairs", .pairs), ("merge", .merge), ("value", .value)]

/-- The kind that a tag names. -/
def Tag.ofName (name : String) : Tag :=
  match Tag.names.find? fun e => standardTags ++ e.1 == name with
  | some (_, t) => t
  | none => .unknown

/-! ## Patterns -/

/-- A digit, or an underscore between digits. -/
def isDigitMark (c : Char) : Bool :=
  c.isDigit || c == '_'

/-- A digit, then digits and underscores. -/
def isDigitRun : List Char → Bool
  | c :: rest => c.isDigit && rest.all isDigitMark
  | [] => false

/-- One or two digits below sixty. -/
def isSixtieth : List Char → Bool
  | [a] => a.isDigit
  | [a, b] => '0' ≤ a && a ≤ '5' && b.isDigit
  | _ => false

/-- The parts between colons. -/
def splitAtColons : List Char → List (List Char)
  | [] => [[]]
  | c :: rest =>
    if c == ':' then [] :: splitAtColons rest
    else
      match splitAtColons rest with
      | [] => [[c]]
      | part :: parts => (c :: part) :: parts

/-- An integer without its sign. -/
def isNatural (cs : List Char) : Bool :=
  match cs with
  | '0' :: 'b' :: digits =>
    !digits.isEmpty && digits.all fun c => c == '0' || c == '1' || c == '_'
  | '0' :: 'x' :: digits =>
    !digits.isEmpty && digits.all fun c => (Json.hexValue? c).isSome || c == '_'
  | '0' :: digits => digits.all fun c => ('0' ≤ c && c ≤ '7') || c == '_'
  | _ =>
    match splitAtColons cs with
    | [] => false
    | first :: parts => isDigitRun first && parts.all isSixtieth

/-- An exponent, which has to have a sign, or nothing. -/
def isExponent : List Char → Bool
  | [] => true
  | e :: sign :: digits =>
    (e == 'e' || e == 'E') && (sign == '+' || sign == '-') && !digits.isEmpty
      && digits.all Char.isDigit
  | _ => false

/-- Digits with a point and perhaps an exponent. There is no sign before a leading point. -/
def isPointNumber (signed : Bool) (cs : List Char) : Bool :=
  match cs.span isDigitMark with
  | ([], '.' :: rest) =>
    let (fraction, exponent) := rest.span isDigitMark
    !signed && isDigitRun fraction && isExponent exponent
  | (whole, '.' :: rest) => isDigitRun whole && isExponent (rest.dropWhile isDigitMark)
  | _ => false

/-- A number in base sixty with a point in its last part. -/
def isSixtyNumber (cs : List Char) : Bool :=
  match splitAtColons cs with
  | first :: part :: parts =>
    let parts := part :: parts
    match ((parts.getLast?).getD []).span Char.isDigit with
    | (whole, '.' :: fraction) =>
      isDigitRun first && parts.dropLast.all isSixtieth && isSixtieth whole
        && fraction.all isDigitMark
    | _ => false
  | _ => false

/-- A floating-point number without its sign. -/
def isFloat (signed : Bool) (cs : List Char) : Bool :=
  isPointNumber signed cs || isSixtyNumber cs
    || [".inf", ".Inf", ".INF"].contains (String.ofList cs)
    || (!signed && [".nan", ".NaN", ".NAN"].contains (String.ofList cs))

/-! ## Plain scalars -/

/-- The text without its sign, and whether it has one. -/
def dropSign : List Char → Bool × List Char
  | '+' :: rest => (true, rest)
  | '-' :: rest => (true, rest)
  | cs => (false, cs)

/-- The words for truth values. -/
def truthWords : List String := [
  "yes", "Yes", "YES", "no", "No", "NO", "true", "True", "TRUE", "false", "False", "FALSE",
  "on", "On", "ON", "off", "Off", "OFF"]

/-- The words for null besides the empty one. -/
def nullWords : List String :=
  ["~", "null", "Null", "NULL"]

/-- The marks by which other formats of a node begin. They have no values of their own. -/
def reservedWords : List String :=
  ["!", "&", "*"]

/-- The text without one line feed at its end. -/
def withoutFinalBreak (cs : List Char) : List Char :=
  if cs.getLast? == some '\n' then cs.dropLast else cs

/-- The kind of a scalar by its text. A line feed at the end does not count. -/
def Tag.ofPlain (text : String) : Tag :=
  let cs := withoutFinalBreak text.toList
  let word := String.ofList cs
  let (signed, number) := dropSign cs
  if text.isEmpty || nullWords.contains word then .null
  else if truthWords.contains word then .truth
  else if isFloat signed number then .float
  else if isNatural number then .integer
  else if isTime cs then .time
  else if word == "<<" then .merge
  else if word == "=" then .value
  else if reservedWords.contains word then .unknown
  else .text

end FuzzyLogic.Data.Yaml
