import TreeScript.Number.Power

/-!
# Binary64 numbers in exact arithmetic

Script numbers are IEEE 754 binary64.  This module takes such a number apart into
an integer significand and a power of two, and puts one together from an exact
fraction, so that whatever the hardware operations do not offer is computed on
natural numbers.

* `Datum` — what a 64-bit word stands for
* `decode` — the datum of a number
* `nearest` — the number nearest to a fraction, ties to the even significand
* `integral?` — the integer that a number is, if it is one
* `remainder` — the remainder of a division truncated toward zero
-/

namespace TreeScript.Binary64

/-! ## Taking a number apart -/

/-- What a 64-bit word stands for.  A finite number is
`± significand * 2 ^ exponent`. -/
inductive Datum where
  | finite (negative : Bool) (significand : Nat) (exponent : Int)
  | infinite (negative : Bool)
  | notANumber
  deriving DecidableEq, Repr

/-- The fields of a word are one sign bit, eleven exponent bits and fifty-two
fraction bits.  The exponent field 0 has no hidden bit, the field 2047 is kept
for infinities and for what is not a number. -/
def Datum.ofWord (word : Nat) : Datum :=
  let negative := decide (powerOfTwo 63 ≤ word)
  let field : Nat := word / powerOfTwo 52 % powerOfTwo 11
  let fraction : Nat := word % powerOfTwo 52
  if field = 2047 then
    if fraction = 0 then .infinite negative else .notANumber
  else if field = 0 then
    .finite negative fraction (-1074)
  else
    .finite negative (powerOfTwo 52 + fraction) ((field : Int) - 1075)

/-- The datum of a number. -/
def decode (x : Float) : Datum :=
  Datum.ofWord x.toBits.toNat

/-! ## Rounding a fraction -/

/-- The integer nearest to `num / den`; a tie goes to the even one. -/
def roundDiv (num den : Nat) : Nat :=
  let quotient := num / den
  let twice := 2 * (num % den)
  if den < twice then quotient + 1
  else if twice = den then quotient + quotient % 2
  else quotient

/-- The fraction `num / den * 2 ^ (-exponent)` as numerator and denominator. -/
def scaleDown (num den : Nat) (exponent : Int) : Nat × Nat :=
  if exponent < 0 then (num * powerOfTwo (-exponent).toNat, den)
  else (num, den * powerOfTwo exponent.toNat)

/-- The exponent at which `num / den` has a significand of fifty-three bits, or
the least exponent there is when the fraction is too small for that. -/
def exponentOf (num den : Nat) : Int :=
  let guess := max ((num.log2 : Int) - den.log2 - 53) (-1074)
  let (top, bottom) := scaleDown num den guess
  if powerOfTwo 53 ≤ top / bottom then guess + 1 else guess

/-- The word, without its sign bit, of the binary64 number nearest to
`num / den`.  A significand that rounds up to `2 ^ 53` carries into the exponent
field, and everything beyond the largest finite number is infinite. -/
def nearestWord (num den : Nat) : Nat :=
  if num = 0 then 0
  else
    let exponent := exponentOf num den
    let (top, bottom) := scaleDown num den exponent
    min ((exponent + 1074).toNat * powerOfTwo 52 + roundDiv top bottom) (2047 * powerOfTwo 52)

/-- The binary64 number nearest to `± num / den`. -/
def nearest (negative : Bool) (num den : Nat) : Float :=
  let word := nearestWord num den
  Float.ofBits (UInt64.ofNat (if negative then powerOfTwo 63 + word else word))

/-- The number that stands for no number. -/
def nan : Float :=
  Float.ofBits 0x7ff8000000000000

/-! ## Integers and remainders -/

/-- The integer that a number is, if it is one.  Negative zero is the integer 0. -/
def integral? (x : Float) : Option Int :=
  match decode x with
  | .finite negative significand exponent =>
    let (top, bottom) := scaleDown significand 1 (-exponent)
    if top % bottom = 0 then
      let magnitude : Int := (top / bottom : Nat)
      some (if negative then -magnitude else magnitude)
    else none
  | _ => none

/-- Whether the sign bit of a number is set.  What is not a number has no sign. -/
def isNegative (x : Float) : Bool :=
  match decode x with
  | .finite negative _ _ => negative
  | .infinite negative => negative
  | .notANumber => false

/-- The remainder `x - n * y` where `n` is `x / y` truncated toward zero.  It has
the sign of `x` and is exact: both operands are integers at the smaller of their
two exponents. -/
def remainder (x y : Float) : Float :=
  match decode x, decode y with
  | .finite negative a ea, .finite _ b eb =>
    if b = 0 then nan
    else
      let unit := min ea eb
      let rest := a * powerOfTwo (ea - unit).toNat % (b * powerOfTwo (eb - unit).toNat)
      let (top, bottom) := scaleDown rest 1 (-unit)
      nearest negative top bottom
  | .finite _ _ _, .infinite _ => x
  | _, _ => nan

end TreeScript.Binary64
