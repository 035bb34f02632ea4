import FuzzyLogic.Operator
import FuzzyLogic.Text.Blank

set_option autoImplicit false

/-! # The tokens of a rule

A rule is read as a list of tokens: every parenthesis is a token of its own, and every maximal run
of characters that are neither blank nor a parenthesis is one. The words IF, IS, THEN, AND and OR
are keywords in any letter case; every other word is a name.

The main statement here is `flatten_tokenize`: reading a rule loses its blanks and nothing else. -/

namespace FuzzyLogic.Rule

/-! ## Splitting -/

/-- Whether the character is a token on its own. -/
def isParenthesis (c : Char) : Bool :=
  c == '(' || c == ')'

/-- The word read so far (its characters in reverse), unless it is empty. -/
def closeWord (word : List Char) : List (List Char) :=
  if word.isEmpty then [] else [word.reverse]

/-- The tokens of a text before which `word` (in reverse) was read. -/
def tokenizeFrom (word : List Char) : List Char → List (List Char)
  | [] => closeWord word
  | c :: rest =>
    if Text.isBlank c then closeWord word ++ tokenizeFrom [] rest
    else if isParenthesis c then closeWord word ++ [c] :: tokenizeFrom [] rest
    else tokenizeFrom (c :: word) rest

/-- The tokens of a rule's text. -/
def tokenize (text : String) : List String :=
  (tokenizeFrom [] text.toList).map String.ofList

theorem flatten_closeWord (word : List Char) : (closeWord word).flatten = word.reverse := by
  cases word <;> simp [closeWord]

theorem flatten_tokenizeFrom (word cs : List Char) :
    (tokenizeFrom word cs).flatten = word.reverse ++ cs.filter (fun c => !Text.isBlank c) := by
  induction cs generalizing word with
  | nil => simp [tokenizeFrom, flatten_closeWord]
  | cons c rest ih =>
    simp only [tokenizeFrom]
    split
    · next h => simp [h, ih, flatten_closeWord]
    · next h =>
      split
      · simp [h, ih, flatten_closeWord]
      · simp [h, ih]

/-- Put together, the tokens are the text without its blanks. -/
theorem flatten_tokenize (text : String) :
    ((tokenize text).map String.toList).flatten
      = text.toList.filter (fun c => !Text.isBlank c) := by
  simp [tokenize, flatten_tokenizeFrom, Function.comp_def]

/-! ## Keywords -/

/-- The words with a meaning of their own. -/
inductive Keyword where
  | ifWord
  | isWord
  | thenWord
  | operator (o : Operator)
  deriving Repr, DecidableEq

/-- What a token is to the compiler. -/
inductive TokenKind where
  | opening
  | closing
  | keyword (k : Keyword)
  | name
  deriving Repr, DecidableEq

/-- The capital form of a character as far as keywords are concerned. Besides the ASCII letters,
the dotless i and the long s have an ASCII capital; all other capitals occur in no keyword. -/
def capital (c : Char) : Char :=
  if 'a' ≤ c ∧ c ≤ 'z' then Char.ofNat (c.toNat - 0x20)
  else if c.toNat = 0x131 then 'I'
  else if c.toNat = 0x17F then 'S'
  else c

/-- The keyword that a word spells, if it spells one. -/
def Keyword.ofWord? (word : String) : Option Keyword :=
  match word.toList.map capital with
  | ['I', 'F'] => some .ifWord
  | ['I', 'S'] => some .isWord
  | ['T', 'H', 'E', 'N'] => some .thenWord
  | ['A', 'N', 'D'] => some (.operator .and)
  | ['O', 'R'] => some (.operator .or)
  | _ => none

/-- The kind of a token. -/
def TokenKind.ofToken (token : String) : TokenKind :=
  match token.toList with
  | ['('] => opening
  | [')'] => closing
  | _ =>
    match Keyword.ofWord? token with
    | some k => keyword k
    | none => name

/-- Whether the tokens begin a rule. -/
def startsWithIf (tokens : List String) : Bool :=
  match tokens with
  | token :: _ => TokenKind.ofToken token == .keyword .ifWord
  | [] => false

end FuzzyLogic.Rule
