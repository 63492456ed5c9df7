/-!
# Shortest decimals

The shortest decimal in an interval around a value: the grids of the multiples
of powers of ten are tried from coarse to fine, and the first one with a point
in the interval decides. If a grid has a point there, then one of the two
neighbours of the value on that grid is such a point, so only these are tried.
Of two hits the nearer wins, and of two equally near the greater.

All numbers are natural multiples of one unit, so the arithmetic is exact.
-/

namespace WebAssembly

-- Whatever else is imported, powers are those of the core library.
attribute [local instance (high)] instPowNat

/-- The decimal number `coefficient * 10 ^ exponent`. -/
structure Decimal where
  coefficient : Nat
  exponent : Int
  deriving DecidableEq

namespace Decimal

/-- A value within the interval of the numbers that may stand for it. -/
structure Interval where
  low : Nat
  value : Nat
  high : Nat
  /-- Whether the two ends belong to the interval. -/
  closed : Bool
  deriving DecidableEq

namespace Interval

/-- Whether a number lies in the interval. -/
def contains (interval : Interval) (number : Nat) : Bool :=
  if interval.closed then
    decide (interval.low ≤ number ∧ number ≤ interval.high)
  else
    decide (interval.low < number ∧ number < interval.high)

/-- The better of the two neighbours of the value among the multiples of `step`,
if any lies in the interval. -/
def neighbour? (interval : Interval) (step : Nat) : Option Nat :=
  let below := interval.value / step
  let above := below + 1
  match interval.contains (below * step), interval.contains (above * step) with
  | true, true =>
      if interval.value - below * step < above * step - interval.value then some below
      else some above
  | true, false => some below
  | false, true => some above
  | false, false => none

/-- The first hit on the grids of `10 ^ places` and finer ones. The value itself
is a hit on the grid of the units. -/
def shortestFrom (interval : Interval) : (places : Nat) → Decimal
  | 0 => { coefficient := interval.value, exponent := 0 }
  | places + 1 =>
      match interval.neighbour? (10 ^ (places + 1)) with
      | some coefficient => { coefficient, exponent := (places + 1 : Nat) }
      | none => interval.shortestFrom places

/-- The shortest decimal in the interval. The coarsest grid to try is that of
the leading digit of the value. -/
def shortest (interval : Interval) : Decimal :=
  interval.shortestFrom ((Nat.toDigits 10 interval.value).length - 1)

end Interval

/-- The digits of a positive number, without zeros at the end. -/
def significantDigits (number : Nat) : List Char :=
  ((Nat.toDigits 10 number).reverse.dropWhile (· == '0')).reverse

/-- A positive decimal in scientific notation: one digit, a point and the other
digits if there are any, and the exponent of the first digit. -/
def scientific (decimal : Decimal) : String :=
  let exponent := decimal.exponent + ((Nat.toDigits 10 decimal.coefficient).length - 1 : Nat)
  let mantissa :=
    match significantDigits decimal.coefficient with
    | [] => ['0']
    | [first] => [first]
    | first :: others => first :: '.' :: others
  String.ofList mantissa ++ "e" ++ toString exponent

end Decimal

end WebAssembly
