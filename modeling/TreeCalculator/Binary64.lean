import TreeCalculator.Decimal

/-!
# Writing a float

A float is written with the fewest digits that read back to it. A finite float other than zero is
`m * 2 ^ q` with its bits in `m` and `q`, and the reals that round to it form an interval around
it, which holds its ends if and only if `m` is even. Of the grids of multiples of `10 ^ p`, the
coarsest with a point in the interval is the one with the fewest digits; of its points in the
interval the nearest is written, and the higher of two equally near.

All comparisons are between natural numbers: both sides are scaled until they are integers.
-/

namespace TreeCalculator

/-- A float by its kind. A finite one is `mantissa * 2 ^ exponent`, and `atBinade` says that the
float below it is only half as far away as the one above. -/
inductive Binary64 where
  | nan
  | infinite (negative : Bool)
  | finite (negative : Bool) (mantissa : Nat) (exponent : Int) (atBinade : Bool)
  deriving DecidableEq

/-- The reals that round to a positive float, in units of `2 ^ exponent`. -/
structure RoundingInterval where
  low : Nat
  value : Nat
  high : Nat
  closed : Bool
  exponent : Int
  deriving DecidableEq

namespace RoundingInterval

/-- The interval of `mantissa * 2 ^ exponent`. It reaches half of the way to the float above and
half of the way to the one below; a unit is a quarter of the distance to the one above. -/
def ofFinite (mantissa : Nat) (exponent : Int) (atBinade : Bool) : RoundingInterval where
  low := 4 * mantissa - if atBinade then 1 else 2
  value := 4 * mantissa
  high := 4 * mantissa + 2
  closed := mantissa % 2 == 0
  exponent := exponent - 2

variable (r : RoundingInterval)

/-- The factor that takes units to the common scale of the interval and the grid of multiples of
`10 ^ p`. -/
def unitScale (p : Int) : Nat := Nat.pow 2 r.exponent.toNat * Nat.pow 10 (-p).toNat

/-- The factor that takes multiples of `10 ^ p` to the common scale. -/
def gridScale (p : Int) : Nat := Nat.pow 2 (-r.exponent).toNat * Nat.pow 10 p.toNat

/-- Whether `c * 10 ^ p` lies in the interval. -/
def contains (p : Int) (c : Nat) : Bool :=
  let x := c * r.gridScale p
  if r.closed then r.low * r.unitScale p ≤ x && x ≤ r.high * r.unitScale p
  else r.low * r.unitScale p < x && x < r.high * r.unitScale p

/-- The multiple of `10 ^ p` in the interval that is nearest to the float, the higher of two
equally near. If any multiple lies in the interval, so does one of the float's two neighbours. -/
def nearest? (p : Int) : Option Nat :=
  let value := r.value * r.unitScale p
  let below := value / r.gridScale p
  let above := below + 1
  if r.contains p above then
    if r.contains p below && value - below * r.gridScale p < above * r.gridScale p - value then
      some below
    else some above
  else if r.contains p below then some below
  else none

/-- The least exponent of a decimal: multiples of `10 ^ leastExponent` are closer together than
any two floats. -/
def leastExponent : Int := -324

/-- The nearest multiple on the coarsest grid that has one, among the `n + 1` grids from
`10 ^ leastExponent` on. -/
def coarsest : Nat → Decimal
  | 0 => ⟨(r.nearest? leastExponent).getD 0, leastExponent⟩
  | n + 1 =>
    match r.nearest? (leastExponent + (n + 1 : Nat)) with
    | some c => ⟨c, leastExponent + (n + 1 : Nat)⟩
    | none => coarsest n

/-- The decimal with the fewest digits that reads back to the float. No float reaches
`10 ^ 309`. -/
def shortest : Decimal := r.coarsest 633

end RoundingInterval

namespace Binary64

/-- The float that 64 bits encode: a sign, eleven bits of exponent and 52 of fraction. -/
def ofBits (bits : Nat) : Binary64 :=
  let negative := bits >>> 63 % 2 == 1
  let exponent := bits >>> 52 % 0x800
  let fraction := bits % 0x10000000000000
  if exponent == 2047 then
    if fraction == 0 then infinite negative else nan
  else if exponent == 0 then finite negative fraction (-1074) false
  else
    finite negative (0x10000000000000 + fraction) (exponent - 1075) (fraction == 0 && exponent != 1)

/-- A float by its kind. -/
def ofFloat (x : Float) : Binary64 := ofBits x.toBits.toNat

/-- The text with a `-` in front if `negative`. -/
def signed (negative : Bool) (t : Text) : Text := if negative then '-' :: t else t

/-- How a float is written: positionally, without a point when it is an integer. Zero keeps its
sign. -/
def text : Binary64 → Text
  | nan => ['N', 'a', 'N']
  | infinite negative => signed negative ['i', 'n', 'f']
  | finite negative mantissa exponent atBinade =>
    signed negative <|
      if mantissa == 0 then ['0']
      else (RoundingInterval.ofFinite mantissa exponent atBinade).shortest.text

end Binary64

/-- How a float is written. -/
def Text.ofFloat (x : Float) : Text := (Binary64.ofFloat x).text

end TreeCalculator
