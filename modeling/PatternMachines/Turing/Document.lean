import PatternMachines.Json.Value
import PatternMachines.Turing.Machine

/-!
# Documents of Turing machines

The document of a machine lists its sets in ascending order and its transitions in the order in
which they are tried.

## Main definitions

* `Turing.Machine.toJson`: the document of a machine.
-/

namespace PatternMachines.Turing

/-- The document of a transition. -/
def Transition.toJson (t : Transition) : Json :=
  .object [("from", .text t.source), ("read", .text t.read), ("to", .text t.target),
    ("write", .text t.write), ("move", .text t.move)]

/-- The document of a machine. -/
def Machine.toJson (m : Machine) : Json :=
  .object [
    ("states", .texts m.states.toList),
    ("input_alphabet", .texts m.inputAlphabet.toList),
    ("tape_alphabet", .texts m.tapeAlphabet.toList),
    ("start", .ofText? m.start),
    ("accepting", .texts m.accepting.toList),
    ("reject", .ofText? m.reject),
    ("blank", .text m.blank),
    ("end_marker", .ofText? m.endMarker),
    ("transitions", .array (m.transitions.map Transition.toJson))]

end PatternMachines.Turing
