import TreeCalculator.Expr.Basic

/-!
# The exact value of an expression

The value as a rational number, where there is one. It is absent where the value is undefined (a
division by zero, a negative power of zero), where it is not known to be rational (an exponent that
is no integer), and where a power is too large: before it is computed, the exponent and the number
of bits of the result are held against `exponentLimit` and `bitLimit`.
-/

namespace TreeCalculator.Expr

/-- The number of binary digits of `n`; zero has none. -/
def bitLength (n : Nat) : Nat := if n = 0 then 0 else n.log2 + 1

/-- The largest absolute value of an exponent. -/
def exponentLimit : Nat := 1024

/-- The most bits that the numerator and the denominator of a power may have together. -/
def bitLimit : Nat := 65536

/-- The quotient, if the divisor is not zero. -/
def quotient? (a b : Rat) : Option Rat := if b = 0 then none else some (a / b)

/-- Whether the power of `a` with the integer exponent `n` is small enough to be computed. -/
def powerFits (a : Rat) (n : Int) : Bool :=
  n.natAbs ≤ exponentLimit &&
    (bitLength a.num.natAbs + bitLength a.den) * n.natAbs ≤ bitLimit

/-- The power, if the exponent is an integer, the power is defined and it is small enough. -/
def power? (a b : Rat) : Option Rat :=
  if b.den = 1 && powerFits a b.num then
    let p := a ^ b.num.natAbs
    if 0 ≤ b.num then some p
    else if p = 0 then none
    else some p⁻¹
  else none

/-- The exact value of a tree, where it has one. Every operator at a node with one operand negates
it, and the sign at a node with two has no value. -/
def exactValue? : Expr → Option Rat
  | num n => some n
  | unary _ x => return -(← x.exactValue?)
  | binary op l r => do
    let a ← l.exactValue?
    let b ← r.exactValue?
    match op with
    | .add => some (a + b)
    | .sub => some (a - b)
    | .mul => some (a * b)
    | .div => quotient? a b
    | .pow => power? a b
    | .neg => none

end TreeCalculator.Expr
