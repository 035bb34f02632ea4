import FuzzyLogic.Data.Value
import FuzzyLogic.Decimal.Reader
import FuzzyLogic.Membership
import FuzzyLogic.Registry
import FuzzyLogic.Text.Blank

set_option autoImplicit false

/-! # Assignments

Inputs are given as assignments `key=value`. Several may stand in one text, separated by commas;
blank items are skipped. A configuration gives them as such a text, as a list of them, or as a
mapping from keys to values. A later assignment to a key replaces the earlier one in its place. -/

namespace FuzzyLogic

/-! ## One assignment -/

/-- Why a text is no assignment. -/
inductive AssignmentError where
  | noEqualsSign (item : String)
  | emptyPart (item : String)
  | valueNotANumber (value item : String)
  deriving Repr, DecidableEq

/-- The wording of the error. -/
def AssignmentError.message : AssignmentError → String
  | noEqualsSign item => "Invalid item: '" ++ item ++ "' (expected 'var=value')."
  | emptyPart item => "Empty key or value in: '" ++ item ++ "'."
  | valueNotANumber value item => "Not a number: '" ++ value ++ "' in '" ++ item ++ "'."

namespace Assignment

/-- The parts before and behind the first equals sign. -/
def splitAtEquals (cs : List Char) : Option (List Char × List Char) :=
  match cs.span (· != '=') with
  | (_, []) => none
  | (key, _ :: value) => some (key, value)

/-- Reads `key=value`. -/
def read (item : String) : Except AssignmentError (String × Float) :=
  match splitAtEquals item.toList with
  | none => .error (.noEqualsSign item)
  | some (key, value) =>
    let key := Text.trim (String.ofList key)
    let value := Text.trim (String.ofList value)
    if key.isEmpty || value.isEmpty then .error (.emptyPart item)
    else
      match Decimal.read? value with
      | some x => .ok (key, x)
      | none => .error (.valueNotANumber value item)

/-! ## Several assignments -/

/-- The parts between commas. -/
def splitAtCommas : List Char → List (List Char)
  | [] => [[]]
  | c :: rest =>
    if c == ',' then [] :: splitAtCommas rest
    else
      match splitAtCommas rest with
      | [] => [[c]]
      | part :: parts => (c :: part) :: parts

/-- The items of a text, without the blank ones. -/
def items (text : String) : List String :=
  ((splitAtCommas text.toList).map fun part => Text.trim (String.ofList part)).filter
    fun item => !item.isEmpty

/-! ## Assignments in a configuration -/

/-- Why a value of a configuration gives no assignments. -/
inductive ValueError where
  | assignment (error : AssignmentError)
  /-- A text or bytes that spell no number, as they are shown. -/
  | notANumber (shown : String)
  /-- A value that is neither a number nor a text. -/
  | notNumeric
  /-- A value that is neither a text nor a collection. -/
  | notACollection
  /-- An integer beyond the range of floating-point numbers. -/
  | integerTooLarge
  /-- An integer with too many digits to be written. -/
  | integerTooLong
  deriving Repr, DecidableEq

/-- The floating-point number nearest to an integer. -/
def integerToFloat (i : Int) : Except ValueError Float :=
  if Decimal.integerLimit ≤ i.natAbs then .error .integerTooLarge
  else
    let x := Decimal.toFloat i.natAbs 0
    .ok (if i < 0 then -x else x)

/-- The number that a value stands for. -/
def toNumber : Data.Value → Except ValueError Float
  | .number x => .ok x
  | .integer i => integerToFloat i
  | .bool b => .ok (if b then 1.0 else 0.0)
  | .text s =>
    match Decimal.read? s with
    | some x => .ok x
    | none => .error (.notANumber (Text.quoted s))
  | .bytes bs =>
    match Decimal.read? (String.ofList (bs.map fun b => Char.ofNat b.toNat)) with
    | some x =>
      if bs.all (· < 0x80) then .ok x else .error (.notANumber (Text.quotedBytes bs))
    | none => .error (.notANumber (Text.quotedBytes bs))
  | _ => .error .notNumeric

/-- The text of a value on its own, unless an integer in it is too long. -/
def written (v : Data.Value) : Except ValueError String :=
  if v.isWritable then .ok v.plainForm else .error .integerTooLong

/-- Reads the entries of a mapping. -/
def ofEntries (entries : List (Data.Value × Data.Value)) : Except ValueError (Registry Float) := do
  let pairs ← entries.mapM fun (k, v) => do
    let key ← written k
    let x ← toNumber v
    return (key, x)
  return .ofList pairs

/-- Reads the assignments in a text as a part of a configuration. -/
def ofText (text : String) : Except ValueError (List (String × Float)) :=
  match (items text).mapM read with
  | .ok pairs => .ok pairs
  | .error e => .error (.assignment e)

/-- Reads the assignments in the texts of all values in turn. -/
def ofItems (values : List Data.Value) : Except ValueError (Registry Float) := do
  let pairs ← values.mapM fun v => do
    let text ← written v
    ofText text
  return .ofList pairs.flatten

/-- The assignments that a value of a configuration gives. The items of bytes are their numbers. -/
def ofValue (v : Data.Value) : Except ValueError (Registry Float) :=
  if v.isBlank then .ok ∅
  else
    match v with
    | .mapping entries => ofEntries entries
    | .text s => ofItems [.text s]
    | .list values => ofItems values
    | .set values => ofItems values
    | .bytes bs => ofItems (bs.map fun b => .integer b.toNat)
    | _ => .error .notACollection

end Assignment

end FuzzyLogic
