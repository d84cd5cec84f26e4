import PatternMachines.Json.Value

/-!
# Numbers by value

Whole numbers, floating-point numbers and truth values are compared by their exact values. A truth
value counts as one or zero. The number that is not a number equals itself and is the greatest.

## Main definitions

* `Json.Magnitude`, `Json.magnitude?`: the exact value of a number.
* `Json.insertNumber`: adds a number to numbers in ascending order.
-/

namespace PatternMachines.Json

/-- The exact value of a number. Values of a higher rank are greater: an infinity below, then the
finite values, then an infinity above, then what is not a number. -/
structure Magnitude where
  /-- The rank. -/
  rank : Int
  /-- The value in units of the least positive floating-point number, if it is finite. -/
  units : Int
  deriving DecidableEq, Repr

/-- How many units of the least positive floating-point number make one. -/
def unitsOfOne : Int := (Nat.pow 2 1074 : Nat)

/-- The exact value of a number. -/
def magnitude? : Json → Option Magnitude
  | .bool b => some ⟨0, if b then unitsOfOne else 0⟩
  | .int n => some ⟨0, n * unitsOfOne⟩
  | .float (.finite negative mantissa exponent) =>
    let units : Int :=
      (mantissa * Nat.pow 2 (exponent - Decimal.Binary64.minExponent).toNat : Nat)
    some ⟨0, if negative then -units else units⟩
  | .float (.infinity negative) => some ⟨if negative then -1 else 1, 0⟩
  | .float .nan => some ⟨2, 0⟩
  | _ => none

/-- Compares exact values. -/
def Magnitude.compare (a b : Magnitude) : Ordering :=
  (Ord.compare a.rank b.rank).then (Ord.compare a.units b.units)

/-- Adds a number to numbers in ascending order, unless one of the same value is among them. -/
def insertNumber (v : Json) (m : Magnitude) : List (Json × Magnitude) → List (Json × Magnitude)
  | [] => [(v, m)]
  | (w, n) :: rest =>
    match m.compare n with
    | .lt => (v, m) :: (w, n) :: rest
    | .eq => (w, n) :: rest
    | .gt => (w, n) :: insertNumber v m rest

end PatternMachines.Json
