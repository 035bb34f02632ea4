import FuzzyLogic.Data.Calendar
import FuzzyLogic.Decimal.Numeral
import FuzzyLogic.Text.Quoted

set_option autoImplicit false

/-! # Data values

The values that a configuration file can hold. Integers have any size; numbers with a point or an
exponent are floating-point numbers. A mapping keeps its keys in order; a later value for a key
takes the place of the earlier one. -/

namespace FuzzyLogic.Data

/-- A value of a configuration. -/
inductive Value where
  | null
  | bool (b : Bool)
  | integer (i : Int)
  | number (x : Float)
  | text (s : String)
  | list (items : List Value)
  | mapping (entries : List (Value × Value))
  | bytes (bs : List UInt8)
  | date (d : Date)
  | moment (m : Moment)
  /-- Different values, each of which can be a key. -/
  | set (items : List Value)
  /-- An entry of a mapping that stands in a list. -/
  | pair (key value : Value)
  /-- A collection once more, inside of itself. -/
  | again (whole : Value)
  deriving Inhabited

namespace Value

/-! ## Emptiness -/

/-- Whether the value counts as absent: nothing, false, zero, or a text or collection without
content. -/
def isBlank : Value → Bool
  | null => true
  | bool b => !b
  | integer i => i == 0
  | number x => x == 0
  | text s => s.isEmpty
  | list items => items.isEmpty
  | mapping entries => entries.isEmpty
  | bytes bs => bs.isEmpty
  | set items => items.isEmpty
  | again v => v.isBlank
  | _ => false

/-- The value out of the collection that it stands in. -/
def takenOut : Value → Value
  | again v => v
  | v => v

/-! ## Written form -/

/-- What stands for a collection inside of itself. -/
def dots : Value → String
  | mapping _ => "\x7b...\x7d"
  | _ => "[...]"

mutual

/-- The value as it stands inside a collection: texts are quoted. -/
def quotedForm : Value → String
  | null => "None"
  | bool b => if b then "True" else "False"
  | integer i => toString i
  | number x => Decimal.numeral x
  | text s => Text.quoted s
  | list items => "[" ++ ", ".intercalate (quotedItems items) ++ "]"
  | mapping entries => "\x7b" ++ ", ".intercalate (quotedEntries entries) ++ "\x7d"
  | bytes bs => Text.quotedBytes bs
  | date d => d.quotedForm
  | moment m => m.quotedForm
  | set [] => "set()"
  | set items => "\x7b" ++ ", ".intercalate (quotedItems items) ++ "\x7d"
  | pair k v => "(" ++ k.quotedForm ++ ", " ++ v.quotedForm ++ ")"
  | again v => v.dots

/-- The items of a list as they stand inside it. -/
def quotedItems : List Value → List String
  | [] => []
  | v :: rest => v.quotedForm :: quotedItems rest

/-- The entries of a mapping as they stand inside it. -/
def quotedEntries : List (Value × Value) → List String
  | [] => []
  | (k, v) :: rest => (k.quotedForm ++ ": " ++ v.quotedForm) :: quotedEntries rest

end

/-- The value on its own: a text stands for itself, and times have a form of their own. -/
def plainForm : Value → String
  | text s => s
  | date d => d.text
  | moment m => m.text
  | again v => v.quotedForm
  | v => v.quotedForm

/-! ## Integers that are too long to be written -/

/-- The greatest number of digits with which an integer is read or written. -/
def maxDigits : Nat :=
  4300

/-- Whether an integer has more digits than it can be written with. -/
def isTooLong (i : Int) : Bool :=
  Nat.pow 10 maxDigits ≤ i.natAbs

mutual

/-- Whether the value can be written: no integer in it is too long. -/
def isWritable : Value → Bool
  | integer i => !isTooLong i
  | list items => areWritable items
  | set items => areWritable items
  | mapping entries => entriesAreWritable entries
  | pair k v => k.isWritable && v.isWritable
  | again v => v.isWritable
  | _ => true

/-- Whether all items can be written. -/
def areWritable : List Value → Bool
  | [] => true
  | v :: rest => v.isWritable && areWritable rest

/-- Whether all entries can be written. -/
def entriesAreWritable : List (Value × Value) → Bool
  | [] => true
  | (k, v) :: rest => k.isWritable && v.isWritable && entriesAreWritable rest

end

/-! ## Keys -/

/-- Whether a value can be a key: collections cannot. -/
def isKey : Value → Bool
  | list _ | mapping _ | set _ | again _ => false
  | pair k v => k.isKey && v.isKey
  | _ => true

/-- The numeric value of a key, under which truth values count as zero and one. -/
def numericKey? : Value → Option (Int ⊕ Float)
  | bool b => some (.inl (if b then 1 else 0))
  | integer i => some (.inl i)
  | number x => some (.inr x)
  | _ => none

/-- Whether an integer and a floating-point number are the same number. -/
def sameNumber (i : Int) (x : Float) : Bool :=
  match Decimal.Parts.ofFloat x with
  | .finite negative m q =>
    let magnitude := Decimal.Ratio.scaled m 2 Nat.two_pos q
    i.natAbs * magnitude.den == magnitude.num && (m == 0 || negative == decide (i < 0))
  | _ => false

/-- Whether two values are the same key of a mapping. -/
def sameKey (a b : Value) : Bool :=
  match a, b with
  | null, null => true
  | text s, text t => s == t
  | bytes bs, bytes cs => bs == cs
  | date d, date e => d == e
  | moment m, moment n => m.same n
  | a, b =>
    match numericKey? a, numericKey? b with
    | some (.inl i), some (.inl j) => i == j
    | some (.inl i), some (.inr x) => sameNumber i x
    | some (.inr x), some (.inl i) => sameNumber i x
    | some (.inr x), some (.inr y) => x == y
    | _, _ => false

/-- Enters a value under a key, in the key's place if it is in use. -/
def putEntry (key v : Value) : List (Value × Value) → List (Value × Value)
  | [] => [(key, v)]
  | (k, w) :: rest => if sameKey key k then (k, v) :: rest else (k, w) :: putEntry key v rest

/-- The value under a text key. -/
def field? (entries : List (Value × Value)) (name : String) : Option Value :=
  (entries.find? fun e => sameKey e.1 (.text name)).map fun e => e.2.takenOut

end Value

end FuzzyLogic.Data
