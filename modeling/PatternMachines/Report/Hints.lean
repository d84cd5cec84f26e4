import PatternMachines.Text.Part
import PatternMachines.Text.Quoted

/-!
# Hints

Suggestions of texts to try on a pattern, and the notice printed when a pattern cannot be converted.

## Main definitions

* `Report.hints`: suggestions that go with the operators of a pattern.
* `Report.fallbackNotice`: the notice that the empty automaton stands in for a pattern.
-/

namespace PatternMachines.Report

/-- The suggestion that goes with an operator, if the pattern uses it. -/
def hintFor (pattern operator hint : String) : List String :=
  if Text.hasPart pattern operator then [hint] else []

/-- Suggestions of texts to try on a pattern. -/
def hints (pattern : String) : List String :=
  ["Cadena vacía: \"\"", "Caracteres sueltos: \"a\", \"b\", \"c\""] ++
  hintFor pattern "*" "Prueba la cadena vacía y el patrón repetido" ++
  hintFor pattern "+" "Prueba una sola aparición y varias apariciones" ++
  hintFor pattern "|" "Prueba cada una de las alternativas" ++
  hintFor pattern "?" "Prueba con y sin la parte opcional" ++
  ["Cadenas cortas: \"a\", \"ab\", \"abc\"",
    "Cadenas largas: \"hello\", \"world\", \"test123\"",
    "Números: \"123\", \"42\"",
    "Mixtas: \"a1b2c3\""]

/-- The notice that the empty automaton stands in for a pattern. -/
def fallbackNotice (pattern : String) : String :=
  "[REGEX_TO_DFA] Error estructural al procesar " ++ Text.quoted pattern ++
    ": RecursionError; se usa AFD vacío\n"

end PatternMachines.Report
