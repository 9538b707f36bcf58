import TreeCalculator.Text.Blank
import TreeCalculator.Token.Basic

/-!
# From text to tokens

Blanks are skipped, a maximal run of digits is a number, and every symbol is a token of its own.
A `-` is a sign where an operand has to follow: at the start, after an operator and after `(`.
Characters that belong to no token are skipped too, but unlike blanks they separate their
neighbours: they end a number, and a `-` after one is a subtraction.
-/

namespace TreeCalculator.Token

/-- What stands before the next character. -/
inductive Before where
  /-- An operand has to follow: the start, an operator or `(`. -/
  | opening
  /-- The digits read so far of a number that is not yet known to end. -/
  | digits (n : Nat)
  | other
  deriving DecidableEq

namespace Before

/-- What stands before the character after `c`, which is no digit. -/
def after (c : Char) : Before :=
  if c == '(' || Operator.isSymbol c then opening else other

/-- What stands before the character after the digit `c`. -/
def extend (before : Before) (c : Char) : Before :=
  let leading := match before with
    | digits n => n
    | opening | other => 0
  digits (10 * leading + (c.toNat - '0'.toNat))

/-- The number that ends here, if there is one. -/
def number? : Before → Option Token
  | digits n => some (num n)
  | opening | other => none

end Before

/-- The token that the single character `c` makes, if it makes one. -/
def ofChar? (before : Before) (c : Char) : Option Token :=
  match c with
  | '-' => some (if before = .opening then sign else minus)
  | '+' => some plus
  | '*' => some star
  | '/' => some slash
  | '^' => some caret
  | '(' => some lparen
  | ')' => some rparen
  | _ => none

/-- The tokens of a text without blanks that follows `before`. -/
def scanAfter (before : Before) : Text → List Token
  | [] => before.number?.toList
  | c :: rest =>
    if c.isDigit then scanAfter (before.extend c) rest
    else before.number?.toList ++ (ofChar? before c).toList ++ scanAfter (.after c) rest

/-- The tokens of a text. -/
def scan (t : Text) : List Token := scanAfter .opening (t.filter fun c => !Text.isBlank c)

end TreeCalculator.Token
