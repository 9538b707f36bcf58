import TreeCalculator.Expr.Basic
import TreeCalculator.Text

/-!
# Written forms of an expression

The Polish form writes an operator before its operands, the reverse Polish form after them, and
neither has parentheses. The infix form writes it between them, with the parentheses that the
grouping of the tree needs; the right operand of a power that is itself a power gets parentheses
although it would group that way without. A sign and its operand always stand in parentheses.
-/

namespace TreeCalculator.Expr

/-! ## Polish forms -/

/-- The words of the Polish form: every operator before its operands. -/
def polishWords : Expr → List Text
  | num n => [Text.ofInt n]
  | unary op x => [op.symbol] :: x.polishWords
  | binary op l r => [op.symbol] :: (l.polishWords ++ r.polishWords)

/-- The words of the reverse Polish form: every operator after its operands. -/
def reversePolishWords : Expr → List Text
  | num n => [Text.ofInt n]
  | unary op x => x.reversePolishWords ++ [[op.symbol]]
  | binary op l r => l.reversePolishWords ++ r.reversePolishWords ++ [[op.symbol]]

/-- The Polish form. -/
def polish (e : Expr) : Text := Text.unwords e.polishWords

/-- The reverse Polish form. -/
def reversePolish (e : Expr) : Text := Text.unwords e.reversePolishWords

/-! ## Infix form -/

/-- The side of an operator that an operand stands on. -/
inductive Side where
  | left
  | right
  deriving DecidableEq

/-- The side on which an operand of the operator's own precedence would be regrouped. -/
def Side.againstGrouping (parent : Operator) : Side :=
  match parent.associativity with
  | .left => right
  | .right => left

/-- Whether an operand with the operator `child` at its root needs parentheses under `parent`. -/
def needsParens (parent child : Operator) (side : Side) : Bool :=
  child.precedence < parent.precedence ||
    (child.precedence == parent.precedence && side == .againstGrouping parent) ||
    (parent == .pow && side == .right && parent.precedence ≤ child.precedence)

/-- Whether the operand `child` stands in parentheses under `parent`. A literal never does, and a
sign brings its own. -/
def isParenthesized (parent : Operator) (child : Expr) (side : Side) : Bool :=
  match child with
  | num _ | unary .. => false
  | binary op .. => needsParens parent op side

/-- The operand `child` of `parent`, whose infix form is `form`, as it stands under `parent`. -/
def operandForm (parent : Operator) (child : Expr) (side : Side) (form : Text) : Text :=
  if isParenthesized parent child side then Text.parenthesize form else form

/-- The operand of a sign, whose infix form is `form`, as it stands after the sign. -/
def signedForm (x : Expr) (form : Text) : Text :=
  match x with
  | binary .. => Text.parenthesize form
  | num _ | unary .. => form

/-- The infix form. -/
def infixForm : Expr → Text
  | num n => Text.ofInt n
  | unary _ x => Text.parenthesize ('-' :: signedForm x x.infixForm)
  | binary op l r =>
    operandForm op l .left l.infixForm ++ ' ' :: op.symbol :: ' ' ::
      operandForm op r .right r.infixForm

end TreeCalculator.Expr
