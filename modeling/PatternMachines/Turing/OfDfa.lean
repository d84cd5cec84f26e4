import PatternMachines.Dfa
import PatternMachines.Turing.Machine

/-!
# The machine of a deterministic automaton

The machine reads its input from left to right, writes back what it reads and moves through states
named after those of the automaton. The end of the input is marked on the tape. There the machine
accepts or rejects, according to the state of the automaton that it has come to.

## Main definitions

* `Turing.stateName`: the name of a state of the automaton.
* `Turing.Machine.ofDfa`: the machine.
-/

namespace PatternMachines.Turing

open Std

/-- The name of the machine's state for a state of the automaton. -/
def stateName (id : StateId) : String := "q" ++ toString id

/-- The state in which the machine of an automaton accepts. -/
def acceptState : String := "qAccept"

/-- The state in which the machine of an automaton rejects. -/
def rejectState : String := "qReject"

/-- The transitions for one state of an automaton: its edges in ascending order of their symbols,
and the decision at the end of the input. -/
def transitionsOf (id : StateId) (s : DfaState) : List Transition :=
  s.edges.toList.map (fun (x, target) => ⟨stateName id, x, stateName target, x, moveRight⟩) ++
    [⟨stateName id, Symbol.endMarker, if s.accepting then acceptState else rejectState,
      Symbol.endMarker, moveRight⟩]

/-- The machine of a deterministic automaton. -/
def Machine.ofDfa (d : Dfa) : Machine where
  states := .ofList (d.states.keys.map stateName ++ [acceptState, rejectState])
  inputAlphabet := d.alphabet
  tapeAlphabet := d.alphabet ∪ .ofList [Symbol.endMarker, Symbol.blank]
  transitions := d.states.toList.flatMap fun (id, s) => transitionsOf id s
  start := some (stateName d.start)
  accepting := .ofList [acceptState]
  reject := some rejectState
  blank := Symbol.blank
  endMarker := some Symbol.endMarker

end PatternMachines.Turing
