import TreeScript.Number.Binary64

/-!
# Shortest decimals

The decimal with the fewest digits that still reads back as a given binary64
number.

* `Decimal` — digits and a power of ten
* `Interval` — the reals that round to one binary64 number
* `shortest` — the decimal of fewest digits in that interval
* `Decimal.text` — positional notation, never an exponent
-/

namespace TreeScript

/-- The number `digits * 10 ^ exponent`. -/
structure Decimal where
  digits : Nat
  exponent : Int
  deriving DecidableEq, Repr

namespace Decimal

/-! ## The interval of a number -/

/-- The reals that round to one binary64 number: those between `low / den` and
`high / den`, the ends included when `closed`.  The number itself is
`value / den`. -/
structure Interval where
  low : Nat
  value : Nat
  high : Nat
  den : Nat
  closed : Bool
  deriving DecidableEq, Repr

/-- The interval of `significand * 2 ^ exponent`, measured in quarters of a unit
in the last place.  Below a power of two the neighbour is half as far away.  A
tie rounds to the even significand, so the ends belong to an even one. -/
def Interval.of (significand : Nat) (exponent : Int) : Interval :=
  let quarter := exponent - 2
  let atPowerOfTwo := decide (significand = powerOfTwo 52 ∧ -1074 < exponent)
  let scale := if quarter < 0 then 1 else powerOfTwo quarter.toNat
  { low := (4 * significand - if atPowerOfTwo then 1 else 2) * scale
    value := 4 * significand * scale
    high := (4 * significand + 2) * scale
    den := if quarter < 0 then powerOfTwo (-quarter).toNat else 1
    closed := significand % 2 == 0 }

/-- Whether `digits / scale` lies in an interval, where the interval's numbers are
taken over `den`. -/
def Interval.holds (i : Interval) (top bottom : Nat) : Bool :=
  if i.closed then
    decide (i.low * bottom ≤ top * i.den ∧ top * i.den ≤ i.high * bottom)
  else
    decide (i.low * bottom < top * i.den ∧ top * i.den < i.high * bottom)

/-! ## Search over the decimal grids -/

/-- The number of decimal digits of `n`. -/
def width (n : Nat) : Nat :=
  (Nat.toDigits 10 n).length

/-- The power of ten at which the first digit of `num / den` stands. -/
def decade (num den : Nat) : Int :=
  if den ≤ num then width (num / den) - 1
  else -(width ((den - 1) / num) : Int)

/-- A number of the grid of multiples of `10 ^ exponent`, as a fraction. -/
def asFraction (d : Decimal) : Nat × Nat :=
  if d.exponent < 0 then (d.digits, powerOfTen (-d.exponent).toNat)
  else (d.digits * powerOfTen d.exponent.toNat, 1)

/-- The point of the grid of multiples of `10 ^ exponent` that lies in the
interval, if there is one: of the two neighbours of the value the nearer, and of
two equally near ones the larger. -/
def onGrid? (i : Interval) (exponent : Int) : Option Decimal :=
  let (up, down) :=
    if exponent < 0 then (powerOfTen (-exponent).toNat, 1)
    else (1, powerOfTen exponent.toNat)
  let below := i.value * up / (i.den * down)
  let rest := i.value * up % (i.den * down)
  let lower : Decimal := { digits := below, exponent }
  let upper : Decimal := { digits := below + 1, exponent }
  let holds := fun (d : Decimal) => i.holds d.asFraction.1 d.asFraction.2
  if holds lower && !(holds upper && decide (i.den * down ≤ 2 * rest)) then some lower
  else if holds upper then some upper
  else none

/-- The first of `count` ever finer grids, from `10 ^ exponent` down, that has a
point in the interval. -/
def search (i : Interval) : (count : Nat) → (exponent : Int) → Option Decimal
  | 0, _ => none
  | count + 1, exponent =>
    match onGrid? i exponent with
    | some found => some found
    | none => search i count (exponent - 1)

/-- The decimal of fewest digits that reads back as `significand * 2 ^ exponent`.
Seventeen digits always suffice, and one grid more is tried because the value may
round up to the next power of ten. -/
def shortest (significand : Nat) (exponent : Int) : Decimal :=
  let i := Interval.of significand exponent
  (search i 18 (decade i.value i.den + 1)).getD { digits := 0, exponent := 0 }

/-! ## Positional text -/

/-- Positional notation of a decimal that is not negative. -/
def chars (d : Decimal) : List Char :=
  let digits := Nat.toDigits 10 d.digits
  if d.exponent < 0 then
    let places := (-d.exponent).toNat
    let padded := List.replicate (places + 1 - digits.length) '0' ++ digits
    padded.take (padded.length - places) ++ '.' :: padded.drop (padded.length - places)
  else
    digits ++ List.replicate d.exponent.toNat '0'

/-- Positional notation, never an exponent. -/
def text (d : Decimal) : String :=
  String.ofList d.chars

end Decimal

end TreeScript
