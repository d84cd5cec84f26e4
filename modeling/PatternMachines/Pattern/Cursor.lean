import PatternMachines.Pattern.Reader

/-!
# Reading a pattern step by step

A cursor stands at a position of a pattern, inside a number of groups. From there one symbol can be
looked at, and a factor, a term or alternatives can be read, which moves the cursor and builds a
fragment. Negative positions count from the end; a cursor that moves on from there comes to the
beginning and reads the whole pattern again. A cursor may also stand at a negative depth, and then
more groups can be opened than in a whole pattern. So many groups can be read only where there is
room for them.

## Main definitions

* `Pattern.Cursor`: a position in a pattern, with the arena in which fragments are built.
* `Pattern.Cursor.Fault`: why nothing can be read.
* `Pattern.Cursor.remaining`: the symbols from the position on.
* `Pattern.Cursor.peek`, `Pattern.Cursor.read`: looking at a symbol and reading.
* `Pattern.Cursor.readWithin`: reading where there is room for a number of open groups.
-/

namespace PatternMachines.Pattern

/-- A position in a pattern. -/
structure Cursor where
  /-- The symbols of the pattern. -/
  symbols : List Symbol
  /-- Where the cursor stands. -/
  position : Int := 0
  /-- How many groups are open. -/
  depth : Int := 0
  /-- The arena in which fragments are built. -/
  arena : Arena := {}

/-- What can be read at once. -/
inductive Extent where
  /-- An atom with its quantifier, or a symbol that is passed over. -/
  | factor
  /-- Factors up to the end of a term. -/
  | term
  /-- Terms up to the end of a group. -/
  | alternatives
  deriving DecidableEq, Repr

namespace Cursor

/-- Why nothing can be read. -/
inductive Fault where
  /-- There is no symbol at a position where one is wanted. -/
  | outside (position : Int)
  /-- Too many groups are open at once. -/
  | tooDeep
  deriving DecidableEq, Repr

/-- The text of the error. -/
def Fault.message : Fault → String
  | .outside _ => "string index out of range"
  | .tooDeep => "maximum recursion depth exceeded"

/-- The symbols from the position on. -/
def remaining (c : Cursor) : Except Fault (List Symbol) :=
  if 0 ≤ c.position then .ok (c.symbols.drop c.position.toNat)
  else if -(c.symbols.length : Int) ≤ c.position then
    .ok (c.symbols.drop (c.position + c.symbols.length).toNat ++ c.symbols)
  else .error (.outside c.position)

/-- The symbol at the position, if the pattern has not ended. -/
def peek (c : Cursor) : Except Fault (Option Symbol) := c.remaining.map List.head?

/-- The pattern read from symbols, and the symbols after it. -/
def readUnit (depth position : Int) (s : List Symbol) :
    Extent → Except Fault (Pattern × List Symbol)
  | .factor =>
    match s with
    | [] => .error (.outside position)
    | x :: s =>
      let r := readFactor depth x s
      .ok (r.value, r.rest)
  | .term =>
    let r := readFactors depth s
    .ok (concatAll r.value, r.rest)
  | .alternatives =>
    let r := readAlternatives depth s
    .ok (r.value, r.rest)

/-- Reads at the position: the fragment of what was read, and the cursor after it. -/
def read (c : Cursor) (u : Extent) : Except Fault (Fragment × Cursor) := do
  let s ← c.remaining
  let (p, rest) ← readUnit c.depth c.position s u
  let (f, arena) := p.build c.arena
  return (f, { c with position := c.position + (s.length - rest.length), arena := arena })

/-- Whether reading inside `depth` groups, `opened` of which have been opened by it, opens more than
`room` groups at once. Outside the groups that have been opened, a term ends at a bar, and a factor
ends at once. -/
def opensTooMany (room : Nat) (u : Extent) (depth : Int) (opened : Nat) : List Symbol → Bool
  | [] => false
  | x :: s =>
    if x = "(" ∧ depth < maxGroupDepth then
      room ≤ opened || opensTooMany room u (depth + 1) (opened + 1) s
    else if opened = 0 ∧ (u = .factor ∨ u = .term ∧ x = "|") then false
    else if x = ")" ∧ 0 < depth then
      match opened with
      | 0 => false
      | opened + 1 =>
        if opened = 0 ∧ u = .factor then false
        else opensTooMany room u (depth - 1) opened s
    else if x = "\\" then
      match s with
      | [] => false
      | y :: s =>
        if y.isReserved then opensTooMany room u depth opened (y :: s)
        else opensTooMany room u depth opened s
    else opensTooMany room u depth opened s

/-- Reads at the position, where no more than `room` groups can be open at once. -/
def readWithin (room : Nat) (c : Cursor) (u : Extent) : Except Fault (Fragment × Cursor) := do
  if opensTooMany room u c.depth 0 (← c.remaining) then throw .tooDeep
  c.read u

end Cursor

end PatternMachines.Pattern
