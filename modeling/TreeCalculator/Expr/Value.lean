import TreeCalculator.Error
import TreeCalculator.Expr.Basic

/-!
# The value of an expression

The value as a float: a literal is rounded to the nearest float, ties to even, and every operator
rounds its result. Division by either zero is an error, and so is an operator at a node of the
wrong arity. Operands are evaluated first, the left one before the right one, so the error of the
leftmost operand is the one reported; the operand of a misplaced unary operator is not evaluated.
-/

namespace TreeCalculator.Expr

/-- The value of a tree. -/
def value : Expr → Except CalcError Float
  | num n => .ok (Float.ofInt n)
  | unary .neg x => do return -(← x.value)
  | unary op _ => .error (.unknownOperator (op.name ++ " (unaire)"))
  | binary op l r => do
    let a ← l.value
    let b ← r.value
    match op with
    | .add => .ok (a + b)
    | .sub => .ok (a - b)
    | .mul => .ok (a * b)
    | .div => if b == 0 then .error .divisionByZero else .ok (a / b)
    | .pow => .ok (a.pow b)
    | .neg => .error (.unknownOperator (op.name ++ " (binaire)"))

/-- The value of a tree that may be absent. Nothing is worth zero. -/
def value? : Option Expr → Except CalcError Float
  | some e => e.value
  | none => .ok 0

end TreeCalculator.Expr
