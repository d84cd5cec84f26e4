import PatternMachines.Decimal.Binary64

/-!
# The written form of floating-point numbers

A number is written with the fewest digits that read back as the same number.

## Main definitions

* `Decimal.FloatFormat`: the decisions that the digits leave open.
* `Decimal.FloatFormat.write`: the written form.
-/

namespace PatternMachines.Decimal

/-- The decisions of a format for floating-point numbers. -/
structure FloatFormat where
  /-- The greatest power of ten above a number that is written without an exponent. -/
  maxPositional : Int
  /-- The least power of ten above a number that is written without an exponent. -/
  minPositional : Int
  /-- The least number of digits of an exponent. -/
  exponentDigits : Nat
  /-- What is written for a number that is not a number. -/
  nan : String
  /-- What is written for positive infinity. -/
  infinity : String

namespace FloatFormat

/-- The digits of a number, with leading zeros up to a least count. -/
def padded (count n : Nat) : String :=
  let digits := Nat.toDigits 10 n
  String.ofList (List.replicate (count - digits.length) '0' ++ digits)

/-- The digits `digits` with the point after the first `point` of them, zeros being supplied on
either side. -/
def positional (digits : List Char) (point : Int) : String :=
  if point ≤ 0 then
    "0." ++ String.ofList (List.replicate point.natAbs '0' ++ digits)
  else
    let whole := digits.take point.natAbs
    let zeros := List.replicate (point.natAbs - digits.length) '0'
    let fraction := digits.drop point.natAbs
    String.ofList (whole ++ zeros) ++ "." ++
      (if fraction.isEmpty then "0" else String.ofList fraction)

/-- The digits `digits` with the point after the first of them and an exponent. -/
def scientific (f : FloatFormat) (digits : List Char) (point : Int) : String :=
  let exponent := point - 1
  let mantissa :=
    match digits with
    | [] => "0"
    | [d] => String.singleton d
    | d :: rest => String.singleton d ++ "." ++ String.ofList rest
  mantissa ++ (if exponent < 0 then "e-" else "e+") ++ padded f.exponentDigits exponent.natAbs

/-- The written form of a number. -/
def write (f : FloatFormat) : Binary64 → String
  | .nan => f.nan
  | .infinity negative => (if negative then "-" else "") ++ f.infinity
  | .finite negative mantissa exponent =>
    let sign := if negative then "-" else ""
    if mantissa = 0 then sign ++ "0.0"
    else
      let d := Binary64.shortest mantissa exponent
      let all := Nat.toDigits 10 d.digits
      let point := all.length + d.exponent
      let digits := (all.reverse.dropWhile (· == '0')).reverse
      sign ++ if f.minPositional ≤ point ∧ point ≤ f.maxPositional then positional digits point
        else f.scientific digits point

end FloatFormat

end PatternMachines.Decimal
