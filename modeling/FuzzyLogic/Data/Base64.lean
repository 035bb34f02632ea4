set_option autoImplicit false

/-! # Reading base 64

Four characters of the alphabet stand for three bytes, six bits each. Characters outside the
alphabet are skipped. The text ends at the padding that completes a group of four; without padding
it must end between two groups. -/

namespace FuzzyLogic.Data.Base64

/-- The six bits of a character. -/
def sixBits? (c : Char) : Option Nat :=
  if 'A' ≤ c ∧ c ≤ 'Z' then some (c.toNat - 'A'.toNat)
  else if 'a' ≤ c ∧ c ≤ 'z' then some (c.toNat - 'a'.toNat + 26)
  else if '0' ≤ c ∧ c ≤ '9' then some (c.toNat - '0'.toNat + 52)
  else if c == '+' then some 62
  else if c == '/' then some 63
  else none

/-- The place behind the next character of a group of four. -/
inductive Place where
  | first
  /-- Behind one character; all its six bits are held. -/
  | second (held : Nat)
  /-- Behind two characters and `pads` marks of padding; four bits are held. -/
  | third (held pads : Nat)
  /-- Behind three characters; two bits are held. -/
  | fourth (held : Nat)
  deriving Repr, DecidableEq

/-- The bytes of the characters from a place on. -/
def decodeFrom : Place → List Char → Option (List UInt8)
  | .first, [] => some []
  | _, [] => none
  | place, c :: rest =>
    if c == '=' then
      match place with
      | .third held 0 => decodeFrom (.third held 1) rest
      | .third _ _ => some []
      | .fourth _ => some []
      | place => decodeFrom place rest
    else
      match sixBits? c with
      | none => decodeFrom place rest
      | some v =>
        match place with
        | .first => decodeFrom (.second v) rest
        | .second held =>
          (decodeFrom (.third (v % 16) 0) rest).map (UInt8.ofNat (held * 4 + v / 16) :: ·)
        | .third held _ =>
          (decodeFrom (.fourth (v % 4)) rest).map (UInt8.ofNat (held * 16 + v / 4) :: ·)
        | .fourth held => (decodeFrom .first rest).map (UInt8.ofNat (held * 64 + v) :: ·)

/-- The bytes that a text spells. -/
def decode? (text : String) : Option (List UInt8) :=
  decodeFrom .first text.toList

end FuzzyLogic.Data.Base64
