import FuzzyLogic.Data.Calendar

set_option autoImplicit false

/-! # Times in YAML

A time is a day, `2001-12-14`, or a day with a time of day and perhaps the distance from universal
time, `2001-12-14 21:59:43.10 -5:30`. A day that stands alone without being said to be a time has
two digits for the month and for the day of the month. -/

namespace FuzzyLogic.Data.Yaml

/-- A time by its parts, which need not be valid. -/
inductive TimeText where
  /-- A day, and whether all its numbers are padded. -/
  | day (d : Date) (padded : Bool)
  | moment (m : Moment)
  deriving Repr

/-- A number of at least `least` and at most `most` digits at the front, the count of its digits,
and the rest. -/
def takeDigitsUpTo (least most : Nat) (cs : List Char) : Option (Nat × Nat × List Char) :=
  let digits := (cs.take most).takeWhile Char.isDigit
  if digits.length < least then none
  else
    let number := digits.foldl (fun n c => 10 * n + (c.toNat - '0'.toNat)) 0
    some (number, digits.length, cs.drop digits.length)

/-- The rest of the text behind the character `c`. -/
def takeMark (c : Char) : List Char → Option (List Char)
  | d :: rest => if d == c then some rest else none
  | [] => none

/-- The rest of the text behind spaces and tabs. -/
def dropSpaces (cs : List Char) : List Char :=
  cs.dropWhile fun c => c == ' ' || c == '\t'

/-- The day at the front, whether its numbers are padded, and the rest. -/
def takeDay (cs : List Char) : Option (Date × Bool × List Char) := do
  let (year, _, rest) ← takeDigitsUpTo 4 4 cs
  let rest ← takeMark '-' rest
  let (month, monthDigits, rest) ← takeDigitsUpTo 1 2 rest
  let rest ← takeMark '-' rest
  let (day, dayDigits, rest) ← takeDigitsUpTo 1 2 rest
  return (⟨year, month, day⟩, monthDigits == 2 && dayDigits == 2, rest)

/-- What separates a time of day from the day. -/
def takeSeparator : List Char → Option (List Char)
  | c :: rest =>
    if c == 'T' || c == 't' then some rest
    else if c == ' ' || c == '\t' then some (dropSpaces rest)
    else none
  | [] => none

/-- The microseconds that the digits behind a point spell; digits beyond the sixth do not count. -/
def microseconds (digits : List Char) : Nat :=
  let six := (digits ++ List.replicate 6 '0').take 6
  six.foldl (fun n c => 10 * n + (c.toNat - '0'.toNat)) 0

/-- The distance from universal time at the end of a text, in minutes. -/
def takeOffset : List Char → Option (Option Int)
  | [] => some none
  | cs =>
    match dropSpaces cs with
    | ['Z'] => some (some 0)
    | sign :: rest =>
      if sign == '+' || sign == '-' then do
        let (hours, _, rest) ← takeDigitsUpTo 1 2 rest
        let minutes ← match rest with
          | [] => some 0
          | ':' :: rest =>
            match takeDigitsUpTo 2 2 rest with
            | some (n, _, []) => some n
            | _ => none
          | _ => none
        let offset : Int := hours * 60 + minutes
        return some (if sign == '-' then -offset else offset)
      else none
    | [] => none

/-- The time that a text spells. -/
def TimeText.read? (cs : List Char) : Option TimeText := do
  let (date, padded, rest) ← takeDay cs
  if rest.isEmpty then return .day date padded
  let rest ← takeSeparator rest
  let (hour, _, rest) ← takeDigitsUpTo 1 2 rest
  let rest ← takeMark ':' rest
  let (minute, _, rest) ← takeDigitsUpTo 2 2 rest
  let rest ← takeMark ':' rest
  let (second, _, rest) ← takeDigitsUpTo 2 2 rest
  let (fraction, rest) := match rest with
    | '.' :: rest => rest.span Char.isDigit
    | rest => ([], rest)
  let offset ← takeOffset rest
  return .moment { date, hour, minute, second, microsecond := microseconds fraction, offset }

/-- Whether a text is a time although nothing says so. -/
def isTime (cs : List Char) : Bool :=
  match TimeText.read? cs with
  | some (.day _ padded) => padded
  | some (.moment _) => true
  | none => false

end FuzzyLogic.Data.Yaml
