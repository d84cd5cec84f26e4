import PatternMachines.Symbol
import Std.Data.ExtTreeMap
import Std.Data.ExtTreeSet

/-!
# Turing machines

A machine has one tape. Its transitions form a list, and the first one that fits the state and the
symbol under the head is the one that is taken. States, symbols and moves are texts; only the moves
`L` and `R` move the head.

## Main definitions

* `Turing.Transition`: transitions; `Turing.Transition.display`: their written form.
* `Turing.Machine`: machines.
* `Turing.Machine.findTransition`: the transition taken for a state and a symbol.
* `Turing.Machine.insertTransition`, `Turing.Machine.removeTransition`: changes to the list.
-/

namespace PatternMachines.Turing

open Std

/-- A transition: what is written, where the head moves and which state follows, for a state and the
symbol under the head. -/
structure Transition where
  /-- The state in which the transition is taken. -/
  source : String
  /-- The symbol under the head. -/
  read : Symbol
  /-- The state that follows. -/
  target : String
  /-- The symbol that is written. -/
  write : Symbol
  /-- How the head moves. -/
  move : String
  deriving DecidableEq, Repr

/-- The move to the left neighbour of a cell. -/
def moveLeft : String := "L"

/-- The move to the right neighbour of a cell. -/
def moveRight : String := "R"

/-- The written form of a transition. -/
def Transition.display (t : Transition) : String :=
  "(" ++ t.source ++ ", " ++ t.read ++ ") -> (" ++ t.target ++ ", " ++ t.write ++ ", " ++ t.move ++
    ")"

/-- A machine. -/
structure Machine where
  /-- The states. -/
  states : ExtTreeSet String := ∅
  /-- The symbols of inputs. -/
  inputAlphabet : ExtTreeSet Symbol := ∅
  /-- The symbols of the tape. -/
  tapeAlphabet : ExtTreeSet Symbol := ∅
  /-- The transitions. The first one for a state and a symbol is taken. -/
  transitions : List Transition := []
  /-- The state in which every run begins, if there is one. -/
  start : Option String := none
  /-- The states in which a run accepts. -/
  accepting : ExtTreeSet String := ∅
  /-- The state in which a run rejects, if there is one. -/
  reject : Option String := none
  /-- The content of blank cells. -/
  blank : Symbol := Symbol.blank
  /-- The symbol written after the input, if there is one. -/
  endMarker : Option Symbol := none

/-- The error of removing a transition. -/
inductive RemovalError where
  /-- There are no transitions. -/
  | noTransitions
  /-- There is no transition at the given position. -/
  | noSuchPosition
  deriving DecidableEq, Repr

/-- The text of the error. -/
def RemovalError.message : RemovalError → String
  | .noTransitions => "pop from empty list"
  | .noSuchPosition => "pop index out of range"

namespace Machine

/-- The machine whose tape alphabet holds the blank. -/
def withBlank (m : Machine) : Machine := { m with tapeAlphabet := m.tapeAlphabet.insert m.blank }

/-- The first transition for a state and a symbol. -/
def findTransition (m : Machine) (state : String) (x : Symbol) : Option Transition :=
  m.transitions.find? fun t => t.source == state && t.read == x

/-- The transition taken in a state, where there is a state. -/
def transitionAt (m : Machine) (state : Option String) (x : Symbol) : Option Transition :=
  state.bind fun q => m.findTransition q x

/-- The machine with a transition after all others. -/
def addTransition (m : Machine) (t : Transition) : Machine :=
  { m with transitions := m.transitions ++ [t] }

/-- The position counted from the front that `i` stands for. Negative positions count from the end,
so that `-1` is the last one. -/
def position (m : Machine) (i : Int) : Int :=
  if i < 0 then i + m.transitions.length else i

/-- The machine with a transition inserted before the position `i`, or at the nearest end where `i`
lies outside the list. -/
def insertTransition (m : Machine) (i : Int) (t : Transition) : Machine :=
  let (before, after) := m.transitions.splitAt (m.position i).toNat
  { m with transitions := before ++ t :: after }

/-- The transition at the position `i`, and the machine without it. -/
def removeTransition (m : Machine) (i : Int) : Except RemovalError (Transition × Machine) :=
  if m.transitions.isEmpty then .error .noTransitions
  else if m.position i < 0 then .error .noSuchPosition
  else
    match m.transitions[(m.position i).toNat]? with
    | none => .error .noSuchPosition
    | some t => .ok (t, { m with transitions := m.transitions.eraseIdx (m.position i).toNat })

end Machine

end PatternMachines.Turing
