import PatternMachines.Text.Part
import PatternMachines.Text.Quoted
import PatternMachines.Turing.Machine

/-!
# JFLAP documents

A machine is exported as a document of the automaton editor JFLAP. The states are numbered from the
start, which has the number `0`; the others follow in ascending order. A blank cell is written as an
empty element. The characters that the format reserves are escaped.

## Main definitions

* `Turing.Jflap.ExportError`: why a machine cannot be exported.
* `Turing.Jflap.escape`: a text in the document.
* `Turing.Machine.toJflap`: the document.
-/

namespace PatternMachines.Turing

open Std

namespace Jflap

/-- Why a machine cannot be exported. -/
inductive ExportError where
  /-- The machine has no start. -/
  | noStart
  /-- A transition names a state that the machine does not have. -/
  | unknownState (name : String)
  deriving DecidableEq, Repr

/-- The text of the error. -/
def ExportError.message : ExportError → String
  | .noStart => "'NoneType' object has no attribute 'replace'"
  | .unknownState name => Text.quoted name

/-- A character in the document. -/
def escapeChar (c : Char) : List Char :=
  if c = '&' then "&amp;".toList
  else if c = '<' then "&lt;".toList
  else if c = '>' then "&gt;".toList
  else [c]

/-- A text in the document. -/
def escape (s : String) : String := String.ofList (s.toList.flatMap escapeChar)

/-- The lines of a state. -/
def stateLines (m : Machine) (start name : String) (number : Nat) : List String :=
  ["    <state id=\"" ++ toString number ++ "\" name=\"" ++ escape name ++ "\">"] ++
    (if name = start then ["      <initial/>"] else []) ++
    (if m.accepting.contains name then ["      <final/>"] else []) ++
    ["    </state>"]

/-- The element of a symbol, which is empty for the blank. -/
def symbolLine (m : Machine) (element : String) (x : Symbol) : String :=
  if x = m.blank then "      <" ++ element ++ "/>"
  else "      <" ++ element ++ ">" ++ escape x ++ "</" ++ element ++ ">"

/-- The number of a state. -/
def numberOf (numbers : ExtTreeMap String Nat) (name : String) : Except ExportError String :=
  match numbers[name]? with
  | some i => .ok (toString i)
  | none => .error (.unknownState name)

/-- The lines of a transition. -/
def transitionLines (m : Machine) (numbers : ExtTreeMap String Nat) (t : Transition) :
    Except ExportError (List String) := do
  let source ← numberOf numbers t.source
  let target ← numberOf numbers t.target
  return [
    "    <transition>",
    "      <from>" ++ source ++ "</from>",
    "      <to>" ++ target ++ "</to>",
    symbolLine m "read" t.read,
    symbolLine m "write" t.write,
    "      <move>" ++ t.move ++ "</move>",
    "    </transition>"]

/-- The lines before the states. -/
def openingLines : List String :=
  ["<?xml version=\"1.0\" encoding=\"UTF-8\" standalone=\"no\"?>", "<structure>",
    "  <type>turing</type>", "  <automaton>"]

/-- The lines after the transitions. -/
def closingLines : List String := ["  </automaton>", "</structure>"]

/-- The states in the order of their numbers. -/
def stateOrder (m : Machine) (start : String) : List String :=
  start :: m.states.toList.filter (· != start)

end Jflap

open Jflap in
/-- The document of a machine. -/
def Machine.toJflap (m : Machine) : Except ExportError String :=
  match m.start with
  | none => .error .noStart
  | some start => do
    let order := stateOrder m start
    let numbers : ExtTreeMap String Nat := .ofList order.zipIdx
    let transitions ← m.transitions.mapM (transitionLines m numbers)
    let states := order.zipIdx.flatMap fun (name, i) => stateLines m start name i
    return Text.join "\n" (openingLines ++ states ++ transitions.flatten ++ closingLines)

end PatternMachines.Turing
