/-!
# Texts

Entries, written forms and the rows of a drawing are texts: lists of code points. A list
keeps every function on a text structurally recursive, and counts and cuts it by code point.

Only U+0020 is a *space* here. The wider class of blanks, which the token scanner skips, is
`Text.isBlank`.
-/

namespace TreeCalculator

/-- A text is the list of its code points. -/
abbrev Text := List Char

namespace Text

/-! ## Spaces -/

/-- The text without its spaces. Other blanks stay. -/
def withoutSpaces (t : Text) : Text := t.filter (· != ' ')

/-- The text without the spaces at its end. -/
def trimEnd (t : Text) : Text := (t.reverse.dropWhile (· == ' ')).reverse

/-- The words with one space between neighbours. -/
def unwords (words : List Text) : Text := List.intercalate [' '] words

/-- The lines with one line feed between neighbours. -/
def unlines (lines : List Text) : Text := List.intercalate ['\n'] lines

/-- A row of `n` spaces. -/
def spaces (n : Nat) : Text := List.replicate n ' '

/-- The text between parentheses. -/
def parenthesize (t : Text) : Text := '(' :: (t ++ [')'])

/-! ## Neighbours -/

/-- The pairs of neighbouring characters, from left to right. -/
def neighbours (t : Text) : List (Char × Char) := t.zip t.tail

/-! ## Decimal numbers -/

/-- The decimal digits of a natural number, without leading zeros. -/
def ofNat (n : Nat) : Text := Nat.toDigits 10 n

/-- An integer in decimal, with a leading `-` when it is negative. -/
def ofInt : Int → Text
  | .ofNat n => ofNat n
  | .negSucc n => '-' :: ofNat (n + 1)

/-- A rational number in lowest terms: `n` when it is an integer, `n/d` otherwise. -/
def ofRat (r : Rat) : Text :=
  if r.den = 1 then ofInt r.num else ofInt r.num ++ '/' :: ofNat r.den

end Text

end TreeCalculator
