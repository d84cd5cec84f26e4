import PatternMachines.Dfa
import PatternMachines.Json.Value
import PatternMachines.Turing.Run

/-!
# Comparing an automaton with a machine

Words are run on a deterministic automaton and on a Turing machine, and the two verdicts are
compared.

## Main definitions

* `Comparison`: the verdicts on one text.
* `Comparison.of`, `Comparison.ofAll`: the comparison on one text, and on several.
* `Comparison.toJson`: the document of a comparison, with or without the course of the run.
-/

namespace PatternMachines

/-- The verdicts of an automaton and of a machine on one text. -/
structure Comparison where
  /-- The text. -/
  input : String
  /-- Whether the automaton accepts it. -/
  dfaAccepted : Bool
  /-- The run of the machine on it. -/
  run : Turing.Run

namespace Comparison

/-- Whether the verdicts are the same. -/
def agree (c : Comparison) : Bool := c.dfaAccepted == c.run.accepted

/-- Runs a text on an automaton and on a machine. -/
def of (d : Dfa) (m : Turing.Machine) (input : String) : Except MissingState Comparison := do
  return ⟨input, ← d.accepts (Symbol.ofText input), m.run input⟩

/-- Runs several texts on an automaton and on a machine. -/
def ofAll (d : Dfa) (m : Turing.Machine) (inputs : List String) :
    Except MissingState (List Comparison) :=
  inputs.mapM (of d m)

/-- The document of a step. -/
def stepJson (s : Turing.Step) : Json :=
  .object [
    ("step", .int s.number),
    ("transition", .text s.transition.display),
    ("state", .ofText? s.after.state),
    ("tape", .text (Text.join "" s.after.tape)),
    ("head", .int s.after.head)]

/-- The members of the document of a comparison after the text. -/
def members (withTrace : Bool) (c : Comparison) : List (LooseText × Json) :=
  let verdicts : List (LooseText × Json) :=
    [("dfa_accepted", .bool c.dfaAccepted),
      ("tm_accepted", .bool c.run.accepted),
      ("halt_reason", .text c.run.reason.name),
      ("steps", .int c.run.steps),
      ("agree", .bool c.agree)]
  let trace : List (LooseText × Json) := [("trace", .array (c.run.trace.map stepJson))]
  if withTrace then verdicts ++ trace else verdicts

/-- The document of a comparison. -/
def toJson (withTrace : Bool) (c : Comparison) : Json :=
  .object (("string", .text c.input) :: c.members withTrace)

end Comparison

end PatternMachines
