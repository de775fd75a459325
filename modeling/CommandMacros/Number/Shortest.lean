import CommandMacros.Number.Double

/-!
The shortest decimal that reads back as a given double. The decimals that round to
`mantissa * 2 ^ exponent` fill an interval; on the grid of multiples of `10 ^ k` only the two
neighbours of the value itself need to be tested, and the coarsest grid with a neighbour inside the
interval gives the fewest digits.
-/

namespace CommandMacros.Number

/-- A positive value with the interval of the numbers that round to it, over one denominator. The
ends belong to the interval when `closed`. -/
structure RoundingInterval where
  low : Nat
  value : Nat
  high : Nat
  denominator : Nat
  closed : Bool

/-- The rounding interval of `mantissa * 2 ^ exponent`. Below a power of two the doubles lie twice
as close, so that the interval reaches half as far down there. -/
def roundingInterval (mantissa : Nat) (exponent : Int) : RoundingInterval :=
  let below := if mantissa = hiddenBit ∧ minExponent < exponent then 1 else 2
  let quarter := exponent - 2
  let factor := if 0 ≤ quarter then Nat.pow 2 quarter.toNat else 1
  { low := (4 * mantissa - below) * factor
    value := 4 * mantissa * factor
    high := (4 * mantissa + 2) * factor
    denominator := if 0 ≤ quarter then 1 else Nat.pow 2 (-quarter).toNat
    closed := mantissa % 2 == 0 }

/-- The interval measured in units of `10 ^ k`. -/
def RoundingInterval.inUnits (interval : RoundingInterval) (k : Int) : RoundingInterval :=
  if 0 ≤ k then
    { interval with denominator := interval.denominator * Nat.pow 10 k.toNat }
  else
    let factor := Nat.pow 10 (-k).toNat
    { interval with
      low := interval.low * factor
      value := interval.value * factor
      high := interval.high * factor }

/-- Whether the integer `n` lies in the interval. -/
def RoundingInterval.holds (interval : RoundingInterval) (n : Nat) : Bool :=
  let scaled := n * interval.denominator
  if interval.closed then
    decide (interval.low ≤ scaled ∧ scaled ≤ interval.high)
  else
    decide (interval.low < scaled ∧ scaled < interval.high)

/-- The integer of the interval nearest to its value, of two equally near ones the larger. -/
def RoundingInterval.nearestInteger? (interval : RoundingInterval) : Option Nat :=
  let floor := interval.value / interval.denominator
  let nearerAbove := interval.denominator ≤ 2 * (interval.value % interval.denominator)
  match interval.holds floor, interval.holds (floor + 1) with
  | true, true => some (if nearerAbove then floor + 1 else floor)
  | true, false => some floor
  | false, true => some (floor + 1)
  | false, false => none

def decimalLength (n : Nat) : Nat :=
  if n = 0 then 0 else (Nat.toDigits 10 n).length

/-- A power of ten above the value. -/
def RoundingInterval.topExponent (interval : RoundingInterval) : Int :=
  if interval.denominator ≤ interval.value then
    decimalLength (interval.value / interval.denominator)
  else
    1 - (decimalLength ((interval.denominator - 1) / interval.value) : Int)

/-- The first grid, from `10 ^ k` downwards, with an integer in the interval. Seventeen digits
always suffice. -/
def RoundingInterval.coarsest (interval : RoundingInterval) : Nat → Int → Nat × Int
  | 0, k => ((interval.inUnits k).value / (interval.inUnits k).denominator, k)
  | steps + 1, k =>
    match (interval.inUnits k).nearestInteger? with
    | some n => (n, k)
    | none => interval.coarsest steps (k - 1)

/-- Digits and exponent of ten of the shortest decimal for `mantissa * 2 ^ exponent`, which is
positive. -/
def shortest (mantissa : Nat) (exponent : Int) : Nat × Int :=
  let interval := roundingInterval mantissa exponent
  interval.coarsest 20 interval.topExponent

end CommandMacros.Number
