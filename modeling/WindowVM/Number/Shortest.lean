/-
# Shortest decimals

The text of a `Binary64` is the decimal with the fewest digits among those that are
nearer to it than to any other value, and of several with as few digits the nearest to
it, the greater of two.  It is written positionally, whatever its size.

All comparisons are exact.  A finite value, and half the distance to its neighbours,
is a whole number of `2^(-1076)`, and so of `10^(-1076)`, the *tick* all decimals here
are counted in.
-/

import WindowVM.Number.Binary64

namespace WindowVM

/-- A value with the least and the greatest decimal that may stand for it, in ticks. -/
structure Interval where
  low : Nat
  value : Nat
  high : Nat
  /-- Whether `low` and `high` themselves may stand for the value. -/
  closed : Bool

namespace Interval

/-- Whether a decimal may stand for the value. -/
def holds (i : Interval) (x : Nat) : Bool :=
  if i.closed then decide (i.low ≤ x ∧ x ≤ i.high) else decide (i.low < x ∧ x < i.high)

/-- The decimal to write, of those that are multiples of `10^k`, if one may stand for
the value, and else of those with more digits.  Only the neighbours of the value matter
on each grid. -/
def shortestFrom (i : Interval) : (k : Nat) → Nat
  | 0 => i.value
  | k + 1 =>
    let below := i.value / Nat.pow 10 (k + 1) * Nat.pow 10 (k + 1)
    let above := below + Nat.pow 10 (k + 1)
    if i.holds below && (!i.holds above || decide (i.value - below < above - i.value)) then below
    else if i.holds above then above
    else shortestFrom i k

/-- The decimal with the fewest digits that may stand for the value. -/
def shortest (i : Interval) : Nat :=
  i.shortestFrom ((Nat.toDigits 10 i.value).length - 1)

end Interval

/-- The text of a number of units of `10^(-places)`, without zeros at the end of its
fraction. -/
def positional (places x : Nat) : String :=
  let whole := x / Nat.pow 10 places
  let fraction := (Nat.toDigits 10 (Nat.pow 10 places + x % Nat.pow 10 places)).tail
  let kept := (fraction.reverse.dropWhile (· == '0')).reverse
  if kept.isEmpty then toString whole else toString whole ++ "." ++ String.ofList kept

namespace Binary64

/-- A tick is `10^(-tickPlaces)`. -/
def tickPlaces : Nat := leastExponent + 2

/-- How many ticks a quarter of the least positive value has. -/
def quarter : Nat := Nat.pow 5 tickPlaces

/-- The decimals that a finite value is nearest to.  The value below a power of two is
only half as far away as the one above, unless both are counted in the least unit. -/
def interval (x : Binary64) : Interval :=
  let unit := quarter <<< x.shift
  let value := 4 * x.significand * unit
  let isPower := decide (x.significand = 1 <<< 52 ∧ 0 < x.shift)
  { low := value - (if isPower then unit else 2 * unit)
    value
    high := value + 2 * unit
    closed := x.significand % 2 == 0 }

/-- The text of a number. -/
def render (x : Binary64) : String :=
  let sign := if x.isNegative then "-" else ""
  if infinity < x.magnitude then "NaN"
  else if x.magnitude = infinity then sign ++ "inf"
  else sign ++ positional tickPlaces x.interval.shortest

end Binary64
end WindowVM
