import PatternMachines.Pattern.Reader
import PatternMachines.Report.Hints
import PatternMachines.Report.Verdict
import PatternMachines.Text.Trim
import PatternMachines.Turing.OfDfa
import PatternMachines.Unicode.Lowercase

/-!
# Interactive sessions

An interactive session asks for a pattern, shows its automaton and its machine, and then runs texts
on both until told that it is done. It ends with the input or with the word `exit` in place of a
pattern. A session is a function from the lines of its input to the text that it prints.

## Main definitions

* `Console.Conversion`: a pattern with its automaton and its machine.
* `Console.State`, `Console.reply`: what a session asks for, and its reply to a line.
* `Console.transcript`: the text that a session prints.
-/

namespace PatternMachines.Console

/-- A pattern with its automaton and its machine. -/
structure Conversion where
  /-- The text of the pattern. -/
  pattern : String
  /-- The automaton. -/
  dfa : Dfa
  /-- The machine. -/
  machine : Turing.Machine

namespace Conversion

/-- Converts the text of a pattern. -/
def of (pattern : String) : Except MissingState Conversion := do
  let d ← Dfa.ofText pattern
  return ⟨pattern, d, Turing.Machine.ofDfa d⟩

/-- What is printed for a conversion that took the given time. -/
def report (elapsed : String) (c : Conversion) : Except MissingState String := do
  let rule := String.ofList (List.replicate 60 '=')
  let automaton ← Report.automaton c.dfa
  return Text.ofLines
      ["",
        rule,
        "Procesando regex: " ++ c.pattern,
        rule,
        "Paso 1: Regex -> AFD (Thompson + Subconjuntos)",
        "Conversión completada en " ++ elapsed ++ " ms"] ++
    automaton ++
    Text.ofLines ["Paso 2: AFD -> Máquina de Turing"] ++
    Report.machine c.machine

/-- What is printed for a text that is run on automaton and machine. -/
def check (c : Conversion) (text : String) : Except MissingState String := do
  return Report.verdict (← Comparison.of c.dfa c.machine text)

/-- What is printed for suggestions of texts to run. -/
def hints (c : Conversion) : String :=
  Text.ofLines <|
    ("Sugerencias para la regex '" ++ c.pattern ++ "':") ::
      (Report.hints c.pattern).map ("- " ++ ·)

end Conversion

/-- What a session opens with. -/
def banner : String :=
  let rule := String.ofList (List.replicate 70 '=')
  Text.ofLines
    [rule,
      "Conversor universal: Expresión Regular -> AFD -> Máquina de Turing",
      "Soporta:",
      "- Caracteres: a, b, c, 1, 2, 3, ...",
      "- Concatenación: ab, abc, hola",
      "- Alternancia: a|b, (gato|perro)",
      "- Estrella de Kleene: a*, (ab)*, (a|b)*",
      "- Uno o más: a+, (ab)+",
      "- Opcional: a?, (hola)?",
      "- Agrupación: (a|b)*c, a(b|c)*d",
      "- Escapes: \\*, \\+, \\(, \\)",
      "- Cualquier carácter: . (a-z, A-Z, 0-9)",
      "Ejemplos: a*, a+b, (a|b)*c, hola|mundo, a?b+c*",
      rule]

/-- The prompt for a pattern. -/
def patternPrompt : String := "\nIngresa una expresión regular ('exit' para salir): "

/-- The prompt for a text. -/
def textPrompt : String := "Cadena: "

/-- What is printed before the first text. -/
def textInstructions : String :=
  Text.ofLines
    ["Paso 3: Probar los autómatas",
      "Ingresa cadenas ('done' para terminar, 'examples' para sugerencias):"]

/-- Whether a line is a given word, in small letters or capitals. -/
def isWord (line word : String) : Bool := Unicode.lowercase line == word

/-- What a session asks for next: a pattern, or a text for the automaton and the machine of one. -/
abbrev State := Option Conversion

/-- The prompt of a session. -/
def State.prompt : State → String
  | none => patternPrompt
  | some _ => textPrompt

/-- The reply to a line: what is printed, and how the session goes on, if it does. -/
structure Reply where
  /-- What is printed. -/
  printed : String
  /-- How the session goes on. -/
  next : Option State

/-- The reply to a line that is given as a pattern. -/
def replyToPattern (elapsed : String) (line : String) : Except MissingState Reply := do
  let pattern := Text.trim line
  if isWord pattern "exit" then
    return ⟨"¡Gracias por usar el conversor!\n", none⟩
  else if pattern = "" then
    return ⟨"¡Ingresa una regex válida!\n", some none⟩
  else
    let c ← Conversion.of pattern
    return ⟨(← c.report elapsed) ++ textInstructions, some (some c)⟩

/-- The reply to a line that is given as a text to run. -/
def replyToText (c : Conversion) (line : String) : Except MissingState Reply := do
  let text := Text.trim line
  if isWord text "done" then
    return ⟨"", some none⟩
  else if isWord text "examples" then
    return ⟨c.hints, some (some c)⟩
  else
    return ⟨← c.check text, some (some c)⟩

/-- The reply to a line. A conversion is reported to have taken the time `elapsed`. -/
def reply (elapsed : String) (state : State) (line : String) : Except MissingState Reply :=
  match state with
  | none => replyToPattern elapsed line
  | some c => replyToText c line

/-- The text that the rest of a session prints on the lines that are left. -/
def transcriptFrom (elapsed : String) (state : State) :
    List String → Except MissingState String
  | [] => .ok state.prompt
  | line :: lines => do
    let r ← reply elapsed state line
    match r.next with
    | none => return state.prompt ++ r.printed
    | some next => return state.prompt ++ r.printed ++ (← transcriptFrom elapsed next lines)

/-- The text that a session prints on the given lines of input. -/
def transcript (elapsed : String) (lines : List String) : Except MissingState String := do
  return banner ++ (← transcriptFrom elapsed none lines)

/-- The lines of an input. Only a line feed ends a line, and nothing after the last one is no
line. -/
def inputLines (input : String) : List String :=
  match (Text.splitAt '\n' input).reverse with
  | "" :: lines => lines.reverse
  | lines => lines.reverse

end PatternMachines.Console
