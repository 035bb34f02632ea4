set_option autoImplicit false

/-! # Blanks

Blanks separate the words of a rule and surround the parts of an assignment. A character is blank
when it has the Unicode property White_Space or is one of the four information separators
(U+001C to U+001F). Numbers are surrounded by white space in the narrow sense, without the
separators, so both classes are defined here. -/

namespace FuzzyLogic.Text

/-! ## The two classes -/

/-- The characters with the Unicode property White_Space. -/
def isWhiteSpace (c : Char) : Bool :=
  let n := c.toNat
  (0x09 ≤ n && n ≤ 0x0D) || n == 0x20 || n == 0x85 || n == 0xA0 || n == 0x1680
    || (0x2000 ≤ n && n ≤ 0x200A) || n == 0x2028 || n == 0x2029 || n == 0x202F || n == 0x205F
    || n == 0x3000

/-- White space or an information separator. -/
def isBlank (c : Char) : Bool :=
  isWhiteSpace c || (0x1C ≤ c.toNat && c.toNat ≤ 0x1F)

theorem isBlank_of_isWhiteSpace {c : Char} (h : isWhiteSpace c = true) : isBlank c = true := by
  simp [isBlank, h]

/-! ## Trimming -/

/-- The characters without those at both ends that satisfy `p`. -/
def trimBy (p : Char → Bool) (cs : List Char) : List Char :=
  ((cs.dropWhile p).reverse.dropWhile p).reverse

/-- The text without the blanks at its two ends. -/
def trim (s : String) : String :=
  String.ofList (trimBy isBlank s.toList)

/-- The text without the characters `c` at its end. -/
def trimRightOf (c : Char) (s : String) : String :=
  String.ofList ((s.toList.reverse.dropWhile (· == c)).reverse)

end FuzzyLogic.Text
