import FuzzyLogic.Data.ReadError
import FuzzyLogic.Data.Value
import FuzzyLogic.Decimal.Reader

set_option autoImplicit false

/-! # Reading JSON

The data value that a JSON text spells. Beyond the standard the words `NaN`, `Infinity` and
`-Infinity` are numbers. Of two members of an object with one key the later counts. -/

namespace FuzzyLogic.Data.Json

/-! ## Blanks and literals -/

/-- Skips the blanks between tokens. -/
def skipBlanks (cs : List Char) : List Char :=
  cs.dropWhile fun c => c == ' ' || c == '\t' || c == '\n' || c == '\x0d'

/-- The rest of the text behind a literal. -/
def literal? : List Char → List Char → Option (List Char)
  | [], cs => some cs
  | l :: ls, c :: cs => if l == c then literal? ls cs else none
  | _ :: _, [] => none

/-! ## Texts -/

/-- The value of a hexadecimal digit. -/
def hexValue? (c : Char) : Option Nat :=
  if '0' ≤ c ∧ c ≤ '9' then some (c.toNat - '0'.toNat)
  else if 'a' ≤ c ∧ c ≤ 'f' then some (c.toNat - 'a'.toNat + 10)
  else if 'A' ≤ c ∧ c ≤ 'F' then some (c.toNat - 'A'.toNat + 10)
  else none

/-- The number that the hexadecimal digits spell. -/
def hexNumber? (cs : List Char) : Option Nat :=
  cs.foldlM (fun n c => (hexValue? c).map (16 * n + ·)) 0

/-- The character of a letter behind a backslash. -/
def escapeChar? : Char → Option Char
  | '"' => some '"'
  | '\\' => some '\\'
  | '/' => some '/'
  | 'b' => some '\x08'
  | 'f' => some '\x0c'
  | 'n' => some '\n'
  | 'r' => some '\x0d'
  | 't' => some '\t'
  | _ => none

/-- The units up to the closing mark, and the rest. An escape by number gives a UTF-16 unit, every
other character its code point. -/
def textUnits : List Char → Option (List Nat × List Char)
  | [] => none
  | '"' :: rest => some ([], rest)
  | '\\' :: 'u' :: a :: b :: c :: d :: rest =>
    match hexNumber? [a, b, c, d] with
    | some n => (textUnits rest).map fun (units, tail) => (n :: units, tail)
    | none => none
  | '\\' :: e :: rest =>
    match escapeChar? e with
    | some c => (textUnits rest).map fun (units, tail) => (c.toNat :: units, tail)
    | none => none
  | c :: rest =>
    if c == '\\' || c.toNat < 0x20 then none
    else (textUnits rest).map fun (units, tail) => (c.toNat :: units, tail)

/-- The characters of the units. Two halves of a pair are one character. -/
def joinUnits : List Nat → List Char
  | [] => []
  | high :: low :: rest =>
    if Text.isHighHalf high && Text.isLowHalf low then
      Char.ofNat (0x10000 + (high - 0xD800) * 0x400 + (low - 0xDC00)) :: joinUnits rest
    else Text.ofCode high :: joinUnits (low :: rest)
  | [n] => [Text.ofCode n]

/-- The text up to the closing mark, and the rest. -/
def textBody (cs : List Char) : Option (String × List Char) :=
  (textUnits cs).map fun (units, rest) => (String.ofList (joinUnits units), rest)

/-! ## Numbers -/

/-- The ASCII digits at the front, and the rest. -/
def takeDigits (cs : List Char) : List Char × List Char :=
  cs.span Char.isDigit

/-- The whole part: no digit may follow a leading zero. -/
def takeWhole : List Char → Option (List Char × List Char)
  | '0' :: rest => some (['0'], rest)
  | cs =>
    match takeDigits cs with
    | ([], _) => none
    | (ds, rest) => some (ds, rest)

/-- The digits behind a point, if there are any. -/
def takeFraction (cs : List Char) : List Char × List Char :=
  match cs with
  | '.' :: rest =>
    match takeDigits rest with
    | ([], _) => ([], cs)
    | (ds, tail) => (ds, tail)
  | _ => ([], cs)

/-- The exponent, if there is one. -/
def takeExponent (cs : List Char) : Option Int × List Char :=
  match cs with
  | e :: rest =>
    if e == 'e' || e == 'E' then
      let (negative, rest) := Decimal.takeSign rest
      match takeDigits rest with
      | ([], _) => (none, cs)
      | (ds, tail) =>
        let n : Int := Decimal.ofDigits (ds.map fun d => d.toNat - '0'.toNat)
        (some (if negative then -n else n), tail)
    else (none, cs)
  | [] => (none, cs)

/-- A number without its minus sign. -/
def takeNumber (negative : Bool) (cs : List Char) : Option (Value × List Char) := do
  let (whole, rest) ← takeWhole cs
  let (fraction, rest) := takeFraction rest
  let (exponent, rest) := takeExponent rest
  let coefficient := Decimal.ofDigits ((whole ++ fraction).map fun d => d.toNat - '0'.toNat)
  if fraction.isEmpty && exponent.isNone then
    if whole.length > Value.maxDigits then none
    else
      let n : Int := coefficient
      some (.integer (if negative then -n else n), rest)
  else
    let x := Decimal.toFloat coefficient (exponent.getD 0 - fraction.length)
    some (.number (if negative then -x else x), rest)

/-! ## Values -/

/-- A value that is neither a collection nor a text. -/
def scalar? (cs : List Char) : Option (Value × List Char) :=
  match cs with
  | 'n' :: _ => (literal? "null".toList cs).map (.null, ·)
  | 't' :: _ => (literal? "true".toList cs).map (.bool true, ·)
  | 'f' :: _ => (literal? "false".toList cs).map (.bool false, ·)
  | 'N' :: _ => (literal? "NaN".toList cs).map (.number (0.0 / 0.0), ·)
  | 'I' :: _ => (literal? "Infinity".toList cs).map (.number (1.0 / 0.0), ·)
  | '-' :: 'I' :: rest => (literal? "Infinity".toList ('I' :: rest)).map (.number (-1.0 / 0.0), ·)
  | '-' :: rest => takeNumber true rest
  | _ => takeNumber false cs

/-- The greatest depth of collections inside one another. -/
def maxDepth : Nat :=
  988

mutual

/-- The value at the front, inside of `depth` collections. The fuel bounds the number of steps. -/
def value (fuel depth : Nat) (cs : List Char) : Except ReadError (Value × List Char) :=
  match fuel with
  | 0 => .error .malformed
  | fuel + 1 =>
    match cs with
    | '"' :: rest => orMalformed ((textBody rest).map fun (s, tail) => (.text s, tail))
    | '[' :: rest =>
      if depth ≥ maxDepth then .error .tooDeep
      else
        match skipBlanks rest with
        | ']' :: tail => .ok (.list [], tail)
        | rest => items fuel (depth + 1) [] rest
    | '\x7b' :: rest =>
      if depth ≥ maxDepth then .error .tooDeep
      else
        match skipBlanks rest with
        | '\x7d' :: tail => .ok (.mapping [], tail)
        | rest => members fuel (depth + 1) [] rest
    | _ => orMalformed (scalar? cs)

/-- The items of a list up to its end. -/
def items (fuel depth : Nat) (acc : List Value) (cs : List Char) :
    Except ReadError (Value × List Char) :=
  match fuel with
  | 0 => .error .malformed
  | fuel + 1 =>
    match value fuel depth cs with
    | .error e => .error e
    | .ok (v, rest) =>
      match skipBlanks rest with
      | ',' :: tail => items fuel depth (v :: acc) (skipBlanks tail)
      | ']' :: tail => .ok (.list (v :: acc).reverse, tail)
      | _ => .error .malformed

/-- The members of a mapping up to its end. -/
def members (fuel depth : Nat) (acc : List (Value × Value)) (cs : List Char) :
    Except ReadError (Value × List Char) :=
  match fuel with
  | 0 => .error .malformed
  | fuel + 1 =>
    match cs with
    | '"' :: rest =>
      match textBody rest with
      | none => .error .malformed
      | some (key, rest) =>
        match skipBlanks rest with
        | ':' :: rest =>
          match value fuel depth (skipBlanks rest) with
          | .error e => .error e
          | .ok (v, rest) =>
            let entries := Value.putEntry (.text key) v acc
            match skipBlanks rest with
            | ',' :: tail => members fuel depth entries (skipBlanks tail)
            | '\x7d' :: tail => .ok (.mapping entries, tail)
            | _ => .error .malformed
        | _ => .error .malformed
    | _ => .error .malformed

end

/-- The value that a text spells. Every step but the opening of a value consumes a character, so
twice the length is fuel enough. -/
def read (s : String) : Except ReadError Value :=
  let cs := s.toList
  match value (2 * cs.length + 2) 0 (skipBlanks cs) with
  | .error e => .error e
  | .ok (v, rest) => if (skipBlanks rest).isEmpty then .ok v else .error .malformed

end FuzzyLogic.Data.Json
