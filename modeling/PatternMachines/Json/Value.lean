import PatternMachines.Decimal.Notation
import PatternMachines.Text.Loose
import PatternMachines.Text.Part

/-!
# Data documents

The values of data documents: null, truth values, whole and floating-point numbers, texts, arrays
and objects. Whole and floating-point numbers are kept apart, and an object keeps its members in the
order in which their names first appeared.

## Main definitions

* `Json`: the values.
* `Json.member?`: the member of an object.
* `Json.isTruthy`: whether a value counts as true.
* `Json.render`: the document of a value, in ASCII.
-/

namespace PatternMachines

/-- A value of a data document. -/
inductive Json where
  /-- The absent value. -/
  | null
  /-- A truth value. -/
  | bool (b : Bool)
  /-- A whole number. -/
  | int (n : Int)
  /-- A floating-point number. -/
  | float (x : Decimal.Binary64)
  /-- A text. -/
  | text (t : LooseText)
  /-- A list of values. -/
  | array (items : List Json)
  /-- Named values. -/
  | object (members : List (LooseText × Json))
  deriving Repr

namespace Json

/-- A text of characters. -/
def ofText (s : String) : Json := .text (.proper s)

/-- A list of texts. -/
def texts (ss : List String) : Json := .array (ss.map ofText)

/-- A text, or null where there is none. -/
def ofText? : Option String → Json
  | some s => ofText s
  | none => .null

/-- The member of a given name, where the value is an object that has one. -/
def member? (name : String) : Json → Option Json
  | .object members => members.lookup (.proper name)
  | _ => none

/-- The members with one more, or with one replaced in its place. -/
def setMember (name : LooseText) (value : Json) :
    List (LooseText × Json) → List (LooseText × Json)
  | [] => [(name, value)]
  | (other, old) :: rest =>
    if other = name then (name, value) :: rest else (other, old) :: setMember name value rest

/-- Whether a value counts as true: all but null, false, zeros, and empty texts, arrays and
objects. -/
def isTruthy : Json → Bool
  | .null => false
  | .bool b => b
  | .int n => n != 0
  | .float x => !x.isZero
  | .text t => t != .proper ""
  | .array items => !items.isEmpty
  | .object members => !members.isEmpty

/-! ### Documents -/

/-- Floating-point numbers in documents. Positional notation is used from `1e-4` up to `1e16`. -/
def numberFormat : Decimal.FloatFormat where
  maxPositional := 16
  minPositional := -3
  exponentDigits := 2
  nan := "NaN"
  infinity := "Infinity"

/-- A code unit of sixteen bits as an escape. -/
def escapeUnit (n : Nat) : List Char := '\\' :: 'u' :: Text.hexDigits 4 n

/-- A character within the quotes of a document. What is not printable ASCII is escaped, beyond the
first plane by two units. -/
def escapeChar (c : Char) : List Char :=
  if c = '"' then ['\\', '"']
  else if c = '\\' then ['\\', '\\']
  else if c = '\n' then ['\\', 'n']
  else if c = '\r' then ['\\', 'r']
  else if c = '\t' then ['\\', 't']
  else if 0x20 ≤ c.toNat ∧ c.toNat < 0x7f then [c]
  else if c.toNat < 0x10000 then escapeUnit c.toNat
  else
    escapeUnit (0xd800 + (c.toNat - 0x10000) / 0x400) ++
      escapeUnit (0xdc00 + (c.toNat - 0x10000) % 0x400)

/-- A code within the quotes of a document. -/
def escapeCode (n : Nat) : List Char :=
  if Text.isHalf n then escapeUnit n else escapeChar (Char.ofNat n)

/-- A text in the quotes of a document. -/
def renderText (t : LooseText) : String :=
  "\"" ++ String.ofList (t.codes.flatMap escapeCode) ++ "\""

mutual

/-- The document of a value. -/
def render : Json → String
  | .null => "null"
  | .bool b => if b then "true" else "false"
  | .int n => toString n
  | .float x => numberFormat.write x
  | .text t => renderText t
  | .array items => "[" ++ Text.join "," (renderItems items) ++ "]"
  | .object members => "\x7b" ++ Text.join "," (renderMembers members) ++ "\x7d"

/-- The documents of the values of an array. -/
def renderItems : List Json → List String
  | [] => []
  | v :: rest => render v :: renderItems rest

/-- The documents of the members of an object. -/
def renderMembers : List (LooseText × Json) → List String
  | [] => []
  | (name, v) :: rest => (renderText name ++ ":" ++ render v) :: renderMembers rest

end

end Json

end PatternMachines
