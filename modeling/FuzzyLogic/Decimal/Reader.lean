import FuzzyLogic.Decimal.Binary
import FuzzyLogic.Text.Blank
import FuzzyLogic.Text.Digit

set_option autoImplicit false

/-! # Reading numbers

A number is an optional sign, decimal digits of any script with an optional point among them, and
an optional exponent. Single underscores may stand between two digits. The words `inf`, `infinity`
and `nan` are numbers too, in any letter case. White space around the number is ignored. The value
is rounded correctly; a number beyond the range reads as infinity. -/

namespace FuzzyLogic.Decimal

/-! ## From decimal to binary -/

/-- The floating-point number nearest to `coefficient * 10 ^ exponent`. Exponents far outside the
range are decided without computing the power. -/
def toFloat (coefficient : Nat) (exponent : Int) : Float :=
  let magnitude := exponent + digitCount coefficient
  if coefficient == 0 || magnitude < -400 then 0.0
  else if magnitude > 400 then 1.0 / 0.0
  else .ofScientific coefficient (exponent < 0) exponent.natAbs

/-- The least integer beyond the range: halfway between the greatest floating-point number and the
next power of two. -/
def integerLimit : Nat :=
  Nat.pow 2 1024 - Nat.pow 2 970

/-! ## Digits with underscores -/

/-- The digits at the front, at least one, single underscores between them left out, and the rest
of the text. -/
def takeDigits : List Char → List Nat × List Char
  | c :: '_' :: next :: rest =>
    match Text.digitValue? c, Text.digitValue? next with
    | some d, some _ =>
      let (ds, tail) := takeDigits (next :: rest)
      (d :: ds, tail)
    | some d, none => ([d], '_' :: next :: rest)
    | none, _ => ([], c :: '_' :: next :: rest)
  | c :: rest =>
    match Text.digitValue? c with
    | some d =>
      let (ds, tail) := takeDigits rest
      (d :: ds, tail)
    | none => ([], c :: rest)
  | [] => ([], [])

/-- The number whose decimal digits are given, the most significant first. -/
def ofDigits (ds : List Nat) : Nat :=
  ds.foldl (fun n d => 10 * n + d) 0

/-! ## The grammar -/

/-- An optional sign: whether it is a minus, and the rest of the text. -/
def takeSign : List Char → Bool × List Char
  | '+' :: rest => (false, rest)
  | '-' :: rest => (true, rest)
  | cs => (false, cs)

/-- The digits after an optional point. -/
def takeFraction : List Char → List Nat × List Char
  | '.' :: rest => takeDigits rest
  | cs => ([], cs)

/-- An optional exponent that has to end the text. -/
def exponent? : List Char → Option Int
  | [] => some 0
  | e :: rest =>
    if e == 'e' || e == 'E' then
      let (negative, rest) := takeSign rest
      match takeDigits rest with
      | (d :: ds, []) =>
        let n : Int := ofDigits (d :: ds)
        some (if negative then -n else n)
      | _ => none
    else none

/-- The words for infinity and for an undefined number. -/
def namedNumber? (cs : List Char) : Option Float :=
  let word := String.ofList (cs.map Char.toLower)
  if word == "inf" || word == "infinity" then some (1.0 / 0.0)
  else if word == "nan" then some (0.0 / 0.0)
  else none

/-- A number without sign, given as its characters. -/
def unsigned? (cs : List Char) : Option Float :=
  match namedNumber? cs with
  | some x => some x
  | none =>
    let (whole, rest) := takeDigits cs
    let (fraction, rest) := takeFraction rest
    if whole.isEmpty && fraction.isEmpty then none
    else (exponent? rest).map fun e => toFloat (ofDigits (whole ++ fraction)) (e - fraction.length)

/-- The number that a text spells. -/
def read? (s : String) : Option Float :=
  let (negative, rest) := takeSign (Text.trimBy Text.isWhiteSpace s.toList)
  (unsigned? rest).map fun x => if negative then -x else x

end FuzzyLogic.Decimal
