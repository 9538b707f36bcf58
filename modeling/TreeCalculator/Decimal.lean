import TreeCalculator.Text

/-!
# Decimals

A decimal `coefficient * 10 ^ exponent`, written without an exponent: zeros fill the places
between its digits and the unit.
-/

namespace TreeCalculator

/-- The number `coefficient * 10 ^ exponent`. -/
structure Decimal where
  coefficient : Nat
  exponent : Int
  deriving DecidableEq

namespace Decimal

/-- The digits with a point before the last `places` of them, and zeros in front where there are
too few. -/
def withPoint (digits : Text) (places : Nat) : Text :=
  let padded := List.replicate (places + 1 - digits.length) '0' ++ digits
  padded.take (padded.length - places) ++ '.' :: padded.drop (padded.length - places)

/-- A decimal in positional notation. An integer has no point. -/
def text (d : Decimal) : Text :=
  match d.exponent with
  | .ofNat zeros => Text.ofNat d.coefficient ++ List.replicate zeros '0'
  | .negSucc n => withPoint (Text.ofNat d.coefficient) (n + 1)

end Decimal

end TreeCalculator
