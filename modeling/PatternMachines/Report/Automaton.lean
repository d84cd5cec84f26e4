import PatternMachines.Dfa.Summary
import PatternMachines.Text.Part

/-!
# Printed automata

A deterministic automaton is printed with the aliases of its states. The edges of the dead states
stand apart from the others. Accepting and dead states are listed in the alphabetical order of their
aliases, so that `S10` comes before `S2`.

## Main definitions

* `Report.automaton`: the printed automaton.
-/

namespace PatternMachines.Report

/-- What stands for an empty list. -/
def nothing : String := "(ninguno)"

/-- Texts between commas, or the word for an empty list. -/
def listed (ss : List String) : String := if ss.isEmpty then nothing else Text.join ", " ss

/-- Texts in alphabetical order. -/
def alphabetical (ss : List String) : List String := ss.mergeSort fun s t => decide (s ≤ t)

/-- The edges that a printed automaton shows for the states of dead or of other states. -/
def edgesWhere (d : Dfa) (dead : Bool) :
    Except MissingState (List (String × List Dfa.AliasedEdge)) :=
  let numbers := d.aliases
  let deadStates := d.deadStates
  (d.statesByAlias.filter fun (_, id) => deadStates.contains id == dead).mapM
    fun (name, id) => do return (name, ← d.aliasedEdges numbers name id)

/-- The printed automaton. It fails when the start or the target of an edge names no state. -/
def automaton (d : Dfa) : Except MissingState String := do
  let start ← Dfa.aliasOf d.aliases d.start
  let accepting ← d.aliasesOf d.acceptingStates
  let live ← edgesWhere d false
  let dead ← edgesWhere d true
  let deadInOrder := dead.mergeSort fun s t => decide (s.1 ≤ t.1)
  return Text.ofLines <|
    ["=== AFD ===",
      "Alfabeto: " ++ listed d.alphabet.toList,
      "Estados: " ++ Text.join ", " (d.statesByAlias.map Prod.fst),
      "Estado inicial: " ++ start,
      "Estados de aceptación: " ++ listed (alphabetical accepting),
      "Transiciones:"] ++
    live.flatMap (fun (_, edges) => edges.map fun e => "  " ++ e.display) ++
    ["Estados muertos:"] ++
    (if dead.isEmpty then ["  " ++ nothing] else []) ++
    deadInOrder.flatMap (fun (name, edges) =>
      ("  " ++ name) :: edges.map fun e => "    " ++ e.display) ++
    [""]

end PatternMachines.Report
