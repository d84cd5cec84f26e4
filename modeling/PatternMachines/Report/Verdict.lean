import PatternMachines.Comparison
import PatternMachines.Report.Machine

/-!
# Printed verdicts

The verdicts of an automaton and of a machine on one text, with the first steps of the run.

## Main definitions

* `Report.verdict`: the printed comparison.
-/

namespace PatternMachines.Report

/-- The word for a verdict. -/
def verdictWord (accepted : Bool) : String := if accepted then "ACEPTADA" else "RECHAZADA"

/-- The printed comparison. -/
def verdict (c : Comparison) : String :=
  let rule := String.ofList (List.replicate 50 '-')
  Text.ofLines
    ["",
      rule,
      "Resultado AFD: " ++ verdictWord c.dfaAccepted ++ (if c.dfaAccepted then " ✓" else " ✗"),
      "",
      "Ejecutando Máquina de Turing:",
      "Cinta inicial para \"" ++ c.input ++ "\""] ++
  steps defaultStepLimit c.run ++
  Text.ofLines
    ["MT detenida en " ++ stateText c.run.final.state ++ " tras " ++ toString c.run.steps ++
        " paso(s) - motivo: " ++ c.run.reason.name,
      "",
      "Comparación:",
      "AFD: " ++ verdictWord c.dfaAccepted,
      "MT:  " ++ verdictWord c.run.accepted,
      if c.agree then "✓ Los resultados coinciden" else "⚠ Los resultados NO coinciden",
      rule]

end PatternMachines.Report
