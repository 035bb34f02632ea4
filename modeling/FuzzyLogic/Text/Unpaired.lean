set_option autoImplicit false

/-! # Unpaired halves

A character beyond the first plane is a pair of two UTF-16 units. An escape in a data file can give
one half of such a pair without the other. A half is no character, yet a text keeps it and shows it
by its number. It is held as a character of the last private plane: the half `n` is the character
`0x100000 + n`. -/

namespace FuzzyLogic.Text

/-- Whether the unit is the first half of a pair. -/
def isHighHalf (n : Nat) : Bool :=
  0xD800 ≤ n && n ≤ 0xDBFF

/-- Whether the unit is the second half of a pair. -/
def isLowHalf (n : Nat) : Bool :=
  0xDC00 ≤ n && n ≤ 0xDFFF

/-- The character with the given number; a half is held in the private plane. -/
def ofCode (n : Nat) : Char :=
  Char.ofNat (if isHighHalf n || isLowHalf n then 0x100000 + n else n)

/-- The half that a character holds, if it holds one. -/
def half? (c : Char) : Option Nat :=
  if 0x10D800 ≤ c.toNat && c.toNat ≤ 0x10DFFF then some (c.toNat - 0x100000) else none

end FuzzyLogic.Text
