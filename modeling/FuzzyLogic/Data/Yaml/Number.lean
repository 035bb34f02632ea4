import FuzzyLogic.Data.Yaml.Tag
import FuzzyLogic.Text.LowerCase

set_option autoImplicit false

/-! # Numbers in YAML

The numbers that scalars spell once it is known that they are numbers. Underscores are dropped
first. An integer is binary behind `0b`, hexadecimal behind `0x`, octal behind another zero, and in
base sixty with colons between its parts; a floating-point number can be in base sixty too. -/

namespace FuzzyLogic.Data.Yaml

/-- The characters without underscores. -/
def withoutMarks (cs : List Char) : List Char :=
  cs.filter (· != '_')

/-! ## Integers -/

/-- The value of a digit in the given base. -/
def digitIn? (base : Nat) (c : Char) : Option Nat :=
  ((Text.digitValue? c).or (Json.hexValue? c)).filter (· < base)

/-- The mark behind a leading zero that tells the base. -/
def baseMarks : Nat → List Char
  | 2 => ['b', 'B']
  | 8 => ['o', 'O']
  | 16 => ['x', 'X']
  | _ => []

/-- The digits without a leading zero and mark of their base. -/
def dropBaseMark (base : Nat) : List Char → List Char
  | '0' :: m :: digits => if (baseMarks base).contains m then digits else '0' :: m :: digits
  | cs => cs

/-- The integer that digits of the given base spell, with an optional sign and white space around.
Only in base ten their number is limited. -/
def integerIn? (base : Nat) (cs : List Char) : Option Int := do
  let (negative, cs) := Decimal.takeSign (Text.trimBy Text.isWhiteSpace cs)
  let digits ← (dropBaseMark base cs).mapM (digitIn? base)
  if digits.isEmpty || (base == 10 && digits.length > Value.maxDigits) then none
  let n : Nat := digits.foldl (fun n d => base * n + d) 0
  return if negative then -(n : Int) else n

/-- The integer behind its sign. -/
def unsignedInteger (cs : List Char) : Except ReadError Int :=
  match cs with
  | [] => .error .noDigits
  | ['0'] => .ok 0
  | '0' :: 'b' :: digits => orMalformed (integerIn? 2 digits)
  | '0' :: 'x' :: digits => orMalformed (integerIn? 16 digits)
  | '0' :: digits => orMalformed (integerIn? 8 ('0' :: digits))
  | cs => do
    let parts ← orMalformed ((splitAtColons cs).mapM (integerIn? 10))
    return parts.foldl (fun n p => 60 * n + p) 0

/-- The integer that a scalar spells. -/
def integerOf (text : String) : Except ReadError Int :=
  match withoutMarks text.toList with
  | [] => .error .noDigits
  | '-' :: cs => (unsignedInteger cs).map (- ·)
  | '+' :: cs => unsignedInteger cs
  | cs => unsignedInteger cs

/-! ## Floating-point numbers -/

/-- The sum of the parts of a number in base sixty, given from the last part on, where `place` is
the power of sixty of the first of them. -/
def sixtySum (place : Nat) (sum : Float) : List Float → Except ReadError Float
  | [] => .ok sum
  | x :: rest =>
    let power := Nat.pow 60 place
    if Decimal.integerLimit ≤ power then .error .tooLarge
    else sixtySum (place + 1) (sum + x * Decimal.toFloat power 0) rest

/-- The number behind its sign, without capitals. -/
def unsignedFloat (cs : List Char) : Except ReadError Float :=
  if cs == ".inf".toList then .ok (1.0 / 0.0)
  else if cs == ".nan".toList then .ok (0.0 / 0.0)
  else do
    let parts ← orMalformed ((splitAtColons cs).mapM fun p => Decimal.read? (String.ofList p))
    match parts with
    | [x] => return x
    | parts => sixtySum 0 0.0 parts.reverse

/-- The floating-point number that a scalar spells. -/
def floatOf (text : String) : Except ReadError Float :=
  match withoutMarks (Text.lower text).toList with
  | [] => .error .noDigits
  | '-' :: cs => (unsignedFloat cs).map (- ·)
  | '+' :: cs => unsignedFloat cs
  | cs => unsignedFloat cs

end FuzzyLogic.Data.Yaml
