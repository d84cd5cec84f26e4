import PatternMachines.Report.Automaton
import PatternMachines.Turing.Run

/-!
# Printed machines, tapes and runs

## Main definitions

* `Report.machine`: a printed machine.
* `Report.tape`: a printed tape, with the cell under the head in brackets.
* `Report.steps`: the first steps of a run.
-/

namespace PatternMachines.Report

open PatternMachines.Turing

/-- A state that may be missing. -/
def stateText (state : Option String) : String := state.getD "None"

/-- A printed machine. -/
def machine (m : Machine) : String :=
  let orNothing (s : String) : String := if s = "" then nothing else s
  Text.ofLines <|
    ["=== Máquina de Turing ===",
      "Estados: " ++ Text.join ", " m.states.toList,
      "Alfabeto de entrada: " ++ orNothing (Text.join ", " m.inputAlphabet.toList),
      "Alfabeto de cinta: " ++ Text.join ", " m.tapeAlphabet.toList,
      "Estado inicial: " ++ stateText m.start,
      "Estados de aceptación: " ++ orNothing (Text.join ", " m.accepting.toList),
      "Estado de rechazo: " ++ stateText m.reject,
      "Número de transiciones: " ++ toString m.transitions.length] ++
    m.transitions.map (fun t => "  " ++ t.display) ++
    [""]

/-- A printed tape, with the cell under the head in brackets. -/
def tape (cells : List Symbol) (head : Int) : String :=
  Text.join "" <| cells.zipIdx.map fun (x, i) => if (i : Int) = head then "[" ++ x ++ "]" else x

/-- A printed step. -/
def stepLine (s : Step) : String :=
  "Paso " ++ toString s.number ++ ": " ++ s.transition.display ++ " | Cinta: " ++
    tape s.after.tape s.after.head

/-- How many steps of a run are shown where nothing else is asked for. -/
def defaultStepLimit : Int := 10

/-- The lines for a step: the step itself up to the limit, then once that no more are shown. -/
def stepLines (limit : Int) (s : Step) : List String :=
  if s.number ≤ limit then [stepLine s]
  else if s.number = limit + 1 then
    ["... (solo se muestran los primeros " ++ toString limit ++ " pasos)"]
  else []

/-- The first steps of a run. -/
def steps (limit : Int) (r : Run) : String := Text.ofLines (r.trace.flatMap (stepLines limit))

end PatternMachines.Report
