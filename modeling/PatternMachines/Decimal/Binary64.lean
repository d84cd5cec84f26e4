/-!
# Binary floating-point numbers

The numbers of the 64-bit binary format: a sign, a mantissa below `2 ^ 53` and a power of two, the
two infinities, and one number that is not a number. All arithmetic on them is exact arithmetic on
natural numbers.

## Main definitions

* `Decimal.Binary64`: the numbers of the format.
* `Decimal.Binary64.ofDecimal`: the nearest number to a decimal one, a tie going to the even
  mantissa.
* `Decimal.Binary64.shortest`: the fewest decimal digits that read back as the number.
-/

namespace PatternMachines.Decimal

/-- A number of the 64-bit binary format. -/
inductive Binary64 where
  /-- Not a number. -/
  | nan
  /-- An infinity. -/
  | infinity (negative : Bool)
  /-- The number `mantissa * 2 ^ exponent` with a sign. -/
  | finite (negative : Bool) (mantissa : Nat) (exponent : Int)
  deriving DecidableEq, Repr

/-- The quotient of two numbers, rounded to the nearest number, a tie going to the even one. -/
def roundHalfEven (numerator denominator : Nat) : Nat :=
  let q := numerator / denominator
  let r := numerator % denominator
  if 2 * r < denominator then q
  else if denominator < 2 * r then q + 1
  else if q % 2 = 0 then q else q + 1

/-- The fraction `numerator / denominator` divided by `2 ^ exponent`. -/
def scaled (numerator denominator : Nat) (exponent : Int) : Nat × Nat :=
  if exponent < 0 then (numerator * Nat.pow 2 exponent.natAbs, denominator)
  else (numerator, denominator * Nat.pow 2 exponent.natAbs)

namespace Binary64

/-- The number of mantissas, a power of two. -/
def mantissaBound : Nat := Nat.pow 2 53

/-- The least exponent. -/
def minExponent : Int := -1074

/-- The greatest exponent. -/
def maxExponent : Int := 971

/-- The nearest number to a positive fraction. -/
def ofFraction (negative : Bool) (numerator denominator : Nat) : Binary64 :=
  let guess : Int := (Nat.log2 numerator : Int) - Nat.log2 denominator - 52
  let (n, d) := scaled numerator denominator guess
  let exponent := max minExponent (if n < d * Nat.pow 2 52 then guess - 1 else guess)
  let (n, d) := scaled numerator denominator exponent
  let mantissa := roundHalfEven n d
  let (mantissa, exponent) :=
    if mantissa = mantissaBound then (mantissa / 2, exponent + 1) else (mantissa, exponent)
  if maxExponent < exponent then .infinity negative else .finite negative mantissa exponent

/-- How many decimal digits a number has. -/
def digitCount (n : Nat) : Nat := (Nat.toDigits 10 n).length

/-- The nearest number to `digits * 10 ^ exponent`. A number too large for the format is infinite,
and one that lies below half of the least positive number is zero. -/
def ofDecimal (negative : Bool) (digits : Nat) (exponent : Int) : Binary64 :=
  if digits = 0 then .finite negative 0 minExponent
  else
    let magnitude := digitCount digits + exponent
    if 400 < magnitude then .infinity negative
    else if magnitude < -400 then .finite negative 0 minExponent
    else if exponent < 0 then ofFraction negative digits (Nat.pow 10 exponent.natAbs)
    else ofFraction negative (digits * Nat.pow 10 exponent.natAbs) 1

/-- The decimal numbers that are closest to a fraction among those with the unit `10 ^ unit`, from
below and from above, in units. -/
def neighbours (numerator denominator : Nat) (unit : Int) : Nat × Nat :=
  let q :=
    if unit < 0 then numerator * Nat.pow 10 unit.natAbs / denominator
    else numerator / (denominator * Nat.pow 10 unit.natAbs)
  (q, q + 1)

/-- Compares `units * 10 ^ unit` with a fraction. -/
def compareDecimal (units : Nat) (unit : Int) (numerator denominator : Nat) : Ordering :=
  if unit < 0 then compare (units * denominator) (numerator * Nat.pow 10 unit.natAbs)
  else compare (units * Nat.pow 10 unit.natAbs * denominator) numerator

/-- The decimal number `units * 10 ^ unit` among the neighbours of `value / denominator` that reads
back as the number, that is, which lies between `low / denominator` and `high / denominator`, the
ends included where `closed` holds. The nearer neighbour is preferred, and in a tie the even one. -/
def readsBack (low value high denominator : Nat) (closed : Bool) (unit : Int) : Option Nat :=
  let (below, above) := neighbours value denominator unit
  let inside (units : Nat) : Bool :=
    match compareDecimal units unit low denominator, compareDecimal units unit high denominator with
    | .gt, .lt => true
    | .eq, .lt | .gt, .eq | .eq, .eq => closed
    | _, _ => false
  match inside below, inside above with
  | false, false => none
  | true, false => some below
  | false, true => some above
  | true, true =>
    match compareDecimal (below + above) unit (2 * value) denominator with
    | .gt => some below
    | .lt => some above
    | .eq => if below % 2 = 0 then some below else some above

/-- The least power of ten above a fraction, from a guess that is not too large. -/
def magnitudeFrom (numerator denominator : Nat) : (tries : Nat) → Int → Int
  | 0, guess => guess
  | tries + 1, guess =>
    if compareDecimal 1 guess numerator denominator = .gt then guess
    else magnitudeFrom numerator denominator tries (guess + 1)

/-- Decimal digits and the power of ten of the last one. -/
structure Digits where
  /-- The digits as a number. -/
  digits : Nat
  /-- The power of ten by which the digits are multiplied. -/
  exponent : Int
  deriving DecidableEq, Repr

/-- The first decimal with at most `count + tries` digits that reads back, tried from `count`
digits upwards. -/
def shortestFrom (low value high denominator : Nat) (closed : Bool) (magnitude : Int) :
    (tries count : Nat) → Digits
  | 0, _ => ⟨0, 0⟩
  | tries + 1, count =>
    match readsBack low value high denominator closed (magnitude - count) with
    | some units => ⟨units, magnitude - count⟩
    | none => shortestFrom low value high denominator closed magnitude tries (count + 1)

/-- The fewest decimal digits that read back as `mantissa * 2 ^ exponent`, the nearest to it among
them. The numbers that read back lie within half a unit, and on the side of the smaller numbers
within a quarter of a unit where the mantissa is a power of two. Seventeen digits always suffice. -/
def shortest (mantissa : Nat) (exponent : Int) : Digits :=
  let quarter : Bool := mantissa = mantissaBound / 2 && minExponent < exponent
  let scale := Nat.pow 2 (exponent - 2).natAbs
  let (factor, denominator) := if exponent < 2 then (1, scale) else (scale, 1)
  let value := 4 * mantissa * factor
  let low := (4 * mantissa - if quarter then 1 else 2) * factor
  let high := (4 * mantissa + 2) * factor
  let magnitude :=
    magnitudeFrom value denominator 800
      (if exponent < 2 then (digitCount value : Int) - digitCount denominator - 1
       else (digitCount value : Int) - 2)
  shortestFrom low value high denominator (mantissa % 2 = 0) magnitude 17 1

/-- Whether the number is zero, with either sign. -/
def isZero : Binary64 → Bool
  | .finite _ mantissa _ => mantissa = 0
  | _ => false

end Binary64

end PatternMachines.Decimal
