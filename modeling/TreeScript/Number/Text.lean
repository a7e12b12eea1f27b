import TreeScript.Number.Decimal

/-!
# How numbers are read and written

* `Number.ofDigits` — the number that a digit sequence denotes
* `Number.plainText` — the shortest decimal that reads back
* `Number.text` — a script value: integers below 10^15 lose the fraction but keep
  the sign of zero
* `Number.literalText` — a literal in a token listing: such integers end in `.0`
-/

namespace TreeScript.Number

/-- The number that the digits `whole`, a point and the digits `fraction` denote,
rounded to the nearest binary64 number. -/
def ofDigits (whole fraction : List Char) : Float :=
  let digits := (whole ++ fraction).foldl (fun n c => 10 * n + (c.toNat - '0'.toNat)) 0
  Binary64.nearest false digits (powerOfTen fraction.length)

/-- A minus sign, or nothing. -/
def sign (negative : Bool) : String :=
  if negative then "-" else ""

/-- The shortest decimal that reads back, in positional notation. -/
def plainText (x : Float) : String :=
  match Binary64.decode x with
  | .notANumber => "NaN"
  | .infinite negative => sign negative ++ "inf"
  | .finite negative significand exponent =>
    sign negative ++
      if significand = 0 then "0" else (Decimal.shortest significand exponent).text

/-- The integer that a number is, if it is one of magnitude below 10^15. -/
def smallInteger? (x : Float) : Option Int :=
  (Binary64.integral? x).filter (fun n => n.natAbs < powerOfTen 15)

/-- The text of a number as a script value. -/
def text (x : Float) : String :=
  match smallInteger? x with
  | some n => sign (Binary64.isNegative x) ++ String.ofList (Nat.toDigits 10 n.natAbs)
  | none => plainText x

/-- The text of a number literal in a token listing. -/
def literalText (x : Float) : String :=
  match smallInteger? x with
  | some n => sign (decide (n < 0)) ++ String.ofList (Nat.toDigits 10 n.natAbs) ++ ".0"
  | none => plainText x

end TreeScript.Number
