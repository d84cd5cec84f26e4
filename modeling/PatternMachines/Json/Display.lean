import PatternMachines.Json.Value
import PatternMachines.Text.Quoted

/-!
# Values shown as text

A value that is not a text may stand where a text is wanted. It is then shown: a truth value or the
absent value by a word, a number by its digits, an array in brackets and an object in braces, with
the texts inside them quoted.

## Main definitions

* `Json.display`: a value as text; a text is itself.
* `Json.displayNested`: a value inside another one.
* `Json.kind`: the word for the kind of a value.
-/

namespace PatternMachines.Json

/-- Floating-point numbers shown as text. Positional notation is used from `1e-4` up to `1e16`. -/
def shownNumberFormat : Decimal.FloatFormat where
  maxPositional := 16
  minPositional := -3
  exponentDigits := 2
  nan := "nan"
  infinity := "inf"

mutual

/-- A value inside another one. -/
def displayNested : Json → String
  | .null => "None"
  | .bool b => if b then "True" else "False"
  | .int n => toString n
  | .float x => shownNumberFormat.write x
  | .text t => Text.quotedLoose t
  | .array items => "[" ++ Text.join ", " (displayItems items) ++ "]"
  | .object members => "\x7b" ++ Text.join ", " (displayMembers members) ++ "\x7d"

/-- The values of an array. -/
def displayItems : List Json → List String
  | [] => []
  | v :: rest => displayNested v :: displayItems rest

/-- The members of an object. -/
def displayMembers : List (LooseText × Json) → List String
  | [] => []
  | (name, v) :: rest => (Text.quotedLoose name ++ ": " ++ displayNested v) :: displayMembers rest

end

/-- A value as text. -/
def display : Json → LooseText
  | .text t => t
  | v => displayNested v

/-- The word for the kind of a value. -/
def kind : Json → String
  | .null => "NoneType"
  | .bool _ => "bool"
  | .int _ => "int"
  | .float _ => "float"
  | .text _ => "str"
  | .array _ => "list"
  | .object _ => "dict"

end PatternMachines.Json
