import TreeCalculator.Operator
import TreeCalculator.Text

/-!
# Tokens

The words of an expression. A `-` is two different tokens, the subtraction and the sign, and the
echo of a token list tells them apart by writing the sign `u-`.

Every operator has a token of its own, `Token.op`. Where it does not matter which operator a token
is, proofs split tokens into numbers, operators and the two parentheses (`Token.casesOp`).
-/

namespace TreeCalculator

/-- A word of an expression. -/
inductive Token where
  | num (n : Int)
  | plus
  /-- The subtraction. -/
  | minus
  /-- The `-` before an operand. -/
  | sign
  | star
  | slash
  | caret
  | lparen
  | rparen
  deriving DecidableEq

namespace Token

/-- How a token is echoed. -/
def text : Token → Text
  | num n => Text.ofInt n
  | plus => ['+']
  | minus => ['-']
  | sign => ['u', '-']
  | star => ['*']
  | slash => ['/']
  | caret => ['^']
  | lparen => ['(']
  | rparen => [')']

/-- The echo of a token list: its tokens with one space between neighbours. -/
def echo (tokens : List Token) : Text := Text.unwords (tokens.map text)

/-! ## The tokens of operators -/

/-- The token of an operator. -/
def op : Operator → Token
  | .add => plus
  | .sub => minus
  | .mul => star
  | .div => slash
  | .pow => caret
  | .neg => sign

/-- A token is a number, an operator or a parenthesis. -/
@[elab_as_elim, cases_eliminator]
def casesOp {motive : Token → Sort u} (t : Token) (num : ∀ n, motive (num n))
    (op : ∀ o, motive (op o)) (lparen : motive lparen) (rparen : motive rparen) : motive t :=
  match t with
  | .num n => num n
  | .plus => op .add
  | .minus => op .sub
  | .sign => op .neg
  | .star => op .mul
  | .slash => op .div
  | .caret => op .pow
  | .lparen => lparen
  | .rparen => rparen

variable {o o' : Operator} {n : Int}

/-- No two operators share a token. -/
@[simp]
theorem op_inj : op o = op o' ↔ o = o' := by
  cases o <;> cases o' <;> decide

@[simp]
theorem op_ne_num : op o ≠ num n := by cases o <;> nofun

@[simp]
theorem op_ne_lparen : op o ≠ lparen := by cases o <;> nofun

@[simp]
theorem lparen_ne_op : lparen ≠ op o := op_ne_lparen.symm

@[simp]
theorem op_ne_rparen : op o ≠ rparen := by cases o <;> nofun

end Token

end TreeCalculator
