import PatternMachines.Comparison
import PatternMachines.Dfa.Samples
import PatternMachines.Dfa.Summary
import PatternMachines.Pattern.OfJson
import PatternMachines.Turing.OfDfa

/-!
# Rows of a batch

A batch describes each of its patterns by a row of texts: the automaton, the machine, and whether
the two agree on the probes. A pattern that cannot be converted has a row with the error instead.

## Main definitions

* `Batch.columnNames`: the names of the columns.
* `Batch.Row`, `Batch.Row.of`, `Batch.Row.ofJson`: rows.
-/

namespace PatternMachines.Batch

/-- The names of the columns. -/
def columnNames : List String :=
  ["Regex", "Alfabeto", "Estados", "Estados de aceptación", "Transiciones AFD",
    "Transiciones MT", "Coinciden", "Error"]

/-- The row of a pattern. -/
structure Row where
  /-- The pattern. -/
  pattern : Json
  /-- The symbols of the automaton. -/
  alphabet : String := ""
  /-- The aliases of the states. -/
  states : String := ""
  /-- The aliases of the accepting states. -/
  accepting : String := ""
  /-- The edges of the automaton. -/
  edges : String := ""
  /-- The transitions of the machine. -/
  transitions : String := ""
  /-- Whether automaton and machine agree. -/
  agreement : String := ""
  /-- Why the pattern cannot be converted. -/
  error : String := ""

namespace Row

/-- The texts of a row in the order of the columns. -/
def fields (r : Row) : List String :=
  [r.pattern.display.shown, r.alphabet, r.states, r.accepting, r.edges, r.transitions, r.agreement,
    r.error]

/-- The document of a row. -/
def toJson (r : Row) : Json :=
  .object ((columnNames.map .proper).zip (r.pattern :: r.fields.tail.map .ofText))

/-- The row of an automaton. -/
def ofDfa (pattern : Json) (d : Dfa) : Except Dfa.SampleError Row := do
  let m := Turing.Machine.ofDfa d
  let s ← d.summary.mapError .missingState
  let probes ← d.probes
  let checks ← (Comparison.ofAll d m probes).mapError .missingState
  return {
    pattern := pattern
    alphabet := Text.join " " s.alphabet
    states := Text.join " " s.states
    accepting := Text.join " " s.accepting
    edges := Text.join " | " (s.edges.map Dfa.AliasedEdge.display)
    transitions := Text.join " | " (m.transitions.map Turing.Transition.display)
    agreement := if checks.all Comparison.agree then "si" else "no" }

/-- The row of a pattern that cannot be converted. -/
def ofError (line : Int) (pattern : Json) (category message : String) : Row :=
  { pattern := pattern
    error := "Línea " ++ toString line ++ ": " ++ category ++ ": " ++ message }

/-- The class of an error of an automaton in reports. -/
def category : Dfa.SampleError → String
  | .badCandidateCount => "ValueError"
  | .missingState _ => "KeyError"

/-- The text of the error that the least symbol of a pattern is a number of a given kind, which
cannot be joined with others to a text. -/
def numberMessage (kind : String) : String :=
  "sequence item 0: expected str instance, " ++ kind ++ " found"

/-- The row of a value that stands for a pattern in a given line. -/
def ofJson (line : Int) (pattern : Json) : Row :=
  match Pattern.ofJson pattern with
  | .error e => ofError line pattern e.category e.message
  | .ok source =>
    match (Dfa.ofNfa source.pattern.toNfa).mapError .missingState >>= ofDfa pattern with
    | .ok row =>
      match source.leastKind? with
      | some kind => ofError line pattern "TypeError" (numberMessage kind)
      | none => row
    | .error e => ofError line pattern (category e) e.message

/-- The row of the text of a pattern in a given line. -/
def ofText (line : Int) (pattern : String) : Row := ofJson line (.text pattern)

end Row

end PatternMachines.Batch
