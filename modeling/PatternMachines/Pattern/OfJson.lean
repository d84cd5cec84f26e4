import PatternMachines.Json.Display
import PatternMachines.Json.Number
import PatternMachines.Pattern.Reader

/-!
# Patterns in data documents

A pattern in a data document is usually a text. It may also be an array, whose texts are read as one
symbol each, up to the first null. An empty object is the empty pattern. No other value is a
pattern. A compound value in an array is an error, which depends on what stands before it: an atom,
a backslash or something else.

A number or truth value in an array is an error too, unless a backslash stands before it. It is then
a symbol of its own. Numbers of the same value are the same symbol, for which the first of them
stands, and symbols are ordered by value. Since numbers and texts have no common order, a pattern
names only numbers or only texts.

## Main definitions

* `Pattern.Unreadable`: why a value is not a pattern.
* `Pattern.Expected`: what is expected next after the symbols read so far.
* `Pattern.Source`: a pattern with the numbers among its symbols.
* `Pattern.ofJson`: the pattern of a value.
-/

namespace PatternMachines.Pattern

/-- Why a value is not a pattern. -/
inductive Unreadable where
  /-- The value has no length. -/
  | noLength (kind : String)
  /-- The value is an object, which has no first item. -/
  | noFirstItem
  /-- An item is not a text where an atom is expected. -/
  | notAnAtom (kind : String)
  /-- An item is a compound value where a quantifier or an escaped symbol is expected. -/
  | compound (kind : String)
  /-- A number, of a given kind, and a text are both symbols. -/
  | incomparable (kind : String)
  deriving DecidableEq, Repr

namespace Unreadable

/-- The text of the error. -/
def message : Unreadable → String
  | .noLength kind => "object of type '" ++ kind ++ "' has no len()"
  | .noFirstItem => "0"
  | .notAnAtom kind => "'" ++ kind ++ "' object has no attribute 'isalpha'"
  | .compound kind => "unhashable type: '" ++ kind ++ "'"
  | .incomparable kind => "'<' not supported between instances of 'str' and '" ++ kind ++ "'"

/-- The class of the error in reports. -/
def category : Unreadable → String
  | .noLength _ | .compound _ | .incomparable _ => "TypeError"
  | .noFirstItem => "KeyError"
  | .notAnAtom _ => "AttributeError"

end Unreadable

/-- What is expected next. -/
inductive Expected where
  /-- An atom, or what ends a term. -/
  | atom
  /-- A quantifier for the atom before. -/
  | quantifier
  /-- The symbol that a backslash escapes. -/
  | escaped
  deriving DecidableEq, Repr

/-- Where a reader stands between two symbols. -/
structure Place where
  /-- How many groups are open. -/
  depth : Int := 0
  /-- What is expected next. -/
  expected : Expected := .atom
  deriving DecidableEq, Repr

namespace Place

/-- The place after a symbol that begins a factor, or ends a term or a group. -/
def afterAtom (p : Place) (x : Symbol) : Place :=
  if x = "(" ∧ p.depth < maxGroupDepth then ⟨p.depth + 1, .atom⟩
  else if x = ")" ∧ 0 < p.depth then ⟨p.depth - 1, .quantifier⟩
  else if x = "\\" then ⟨p.depth, .escaped⟩
  else if x = "." || Symbol.isRegular x then ⟨p.depth, .quantifier⟩
  else ⟨p.depth, .atom⟩

/-- The place after one more symbol. -/
def after (p : Place) (x : Symbol) : Place :=
  match p.expected with
  | .atom => p.afterAtom x
  | .quantifier =>
    if (Quantifier.ofSymbol? x).isSome then ⟨p.depth, .atom⟩ else p.afterAtom x
  | .escaped => if x.isReserved then ⟨p.depth, .atom⟩ else ⟨p.depth, .quantifier⟩

end Place

/-- An item of an array that is read as one symbol. -/
inductive Item where
  /-- A text. -/
  | text (x : Symbol)
  /-- An escaped number or truth value, with its exact value. -/
  | number (v : Json) (m : Json.Magnitude)

/-- The items of an array that are read as symbols, up to the first null. -/
def itemsOf (p : Place) : List Json → Except Unreadable (List Item)
  | [] | .null :: _ => .ok []
  | .text t :: rest => (itemsOf (p.after t.carried) rest).map (.text t.carried :: ·)
  | v :: rest =>
    match p.expected, v.magnitude? with
    | .quantifier, none | .escaped, none => .error (.compound v.kind)
    | .escaped, some m => (itemsOf ⟨p.depth, .quantifier⟩ rest).map (.number v m :: ·)
    | _, _ => .error (.notAnAtom v.kind)

/-- A pattern with the numbers among its symbols. -/
structure Source where
  /-- The pattern. -/
  pattern : Pattern
  /-- The numbers in ascending order, each with the symbol that stands for it in the pattern. -/
  numbers : List (Symbol × Json) := []

/-- The numbers among items, in ascending order. Of numbers of one value, the first is kept. -/
def numbersOf (items : List Item) : List (Json × Json.Magnitude) :=
  items.foldl (fun numbers item =>
    match item with
    | .text _ => numbers
    | .number v m => Json.insertNumber v m numbers) []

/-- A symbol that is longer than the texts among items, which can therefore stand for a number. -/
def strokes (items : List Item) (number : Nat) : Symbol :=
  let lengths := items.map fun
    | .text x => x.length
    | .number .. => 0
  String.ofList (List.replicate (lengths.foldl max 0 + 1 + number) '|')

/-- The pattern that items are read as. The numbers are represented by rows of strokes, the greater
number by the longer row, so that their order is that of the numbers. -/
def ofItems (items : List Item) : Source :=
  let numbers := numbersOf items
  let symbols := items.map fun
    | .text x => x
    | .number _ m => strokes items (numbers.findIdx (·.2 == m))
  { pattern := ofSymbols symbols
    numbers := numbers.zipIdx.map fun ((v, _), i) => (strokes items i, v) }

/-- The pattern of an array. -/
def ofArray (values : List Json) : Except Unreadable Source := do
  let source := ofItems (← itemsOf {} values)
  match source.numbers with
  | [] => return source
  | (_, v) :: _ =>
    if source.pattern.symbols.all fun x => (source.numbers.lookup x).isSome then return source
    else throw (.incomparable v.kind)

/-- The pattern of a value. -/
def ofJson : Json → Except Unreadable Source
  | .text t => .ok ⟨ofSymbols (Symbol.ofLooseText t), []⟩
  | .array values => ofArray values
  | .object [] => .ok ⟨ofSymbols [], []⟩
  | .object _ => .error .noFirstItem
  | v => .error (.noLength v.kind)

namespace Source

/-- The value that a symbol of the pattern stands for: a number or the text itself. -/
def valueOf (s : Source) (x : Symbol) : Json := (s.numbers.lookup x).getD (.ofText x)

/-- The kind of the least number among the symbols, if there is one. -/
def leastKind? (s : Source) : Option String := s.numbers.head?.map (·.2.kind)

end Source

end PatternMachines.Pattern
