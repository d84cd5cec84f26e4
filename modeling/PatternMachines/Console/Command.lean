import PatternMachines.Batch.Run
import PatternMachines.Console.Session
import PatternMachines.Turing.Jflap

/-!
# The command line

Without a pattern among its arguments the program holds an interactive session. With one it converts
the pattern, exports the machine if asked to, and runs the further arguments on automaton and
machine. With a batch file it runs the batch and nothing else.

## Main definitions

* `Console.Options`: what the arguments ask for.
* `Console.Outcome`: exit code and printed text of a call.
* `Console.Error`: why a call fails.
* `Console.command`: a call of the program.
-/

namespace PatternMachines.Console

open Directory

/-- What the arguments ask for. -/
structure Options where
  /-- The batch file. -/
  batch : Option String := none
  /-- The table that a batch writes. -/
  csv : Option String := none
  /-- The document that a conversion writes. -/
  jff : Option String := none
  /-- Whether a drawing is asked for. -/
  draw : Bool := false
  /-- The arguments that are not options: a pattern, and texts to run. -/
  positional : List String := []
  deriving DecidableEq, Repr

namespace Options

/-- What stands after the beginning `start` of a text, if the text begins so. -/
def after? (start text : String) : Option String :=
  if start.toList.isPrefixOf text.toList then
    some (String.ofList (text.toList.drop start.length))
  else none

/-- The value of an option: that of its first use. -/
def value? (start : String) (args : List String) : Option String := args.findSome? (after? start)

/-- What the arguments ask for. Unknown options are left out. -/
def ofArgs (args : List String) : Options where
  batch := value? "--batch=" args
  csv := value? "--csv=" args
  jff := value? "--jff=" args
  draw := args.contains "--draw"
  positional := args.filter fun a => (after? "--" a).isNone

end Options

/-- What a call ends with. -/
structure Outcome where
  /-- The exit code. -/
  exitCode : Nat
  /-- The printed text. -/
  printed : String

/-- Why a call fails. -/
inductive Error where
  /-- A batch fails. -/
  | batch (e : Batch.Error)
  /-- A document cannot be written. -/
  | file (e : FileError)
  /-- A machine cannot be exported. -/
  | jflap (e : Turing.Jflap.ExportError)
  /-- An automaton has an edge that leads nowhere. -/
  | missingState (e : MissingState)
  deriving DecidableEq, Repr

/-- The text of the error. -/
def Error.message : Error → String
  | .batch e => e.message
  | .file e => e.message
  | .jflap e => e.message
  | .missingState e => e.message

/-- Where a batch writes its table if nothing else is asked for. -/
def defaultTable : String := "resultado.csv"

/-- A call that runs a batch, with a library for tables. A file that does not exist is reported, and
any other error fails the call. -/
def runBatch (lib : Table.Library) (input output : String) : Steps Error Outcome := do
  match ← (Batch.run lib input output).run with
  | .ok rows =>
    return ⟨0, "[OK] CSV generado: " ++ output ++ " (" ++ toString rows.length ++ " regex)\n"⟩
  | .error e =>
    if e.category = "FileNotFoundError" then
      return ⟨1, "[!] Error en modo batch: " ++ e.message ++ "\n"⟩
    else throw (.batch e)

/-- Writes the document of a machine, if that is asked for: what is printed. -/
def exportMachine (m : Turing.Machine) : Option String → Steps Error String
  | none => return ""
  | some path => do
    let document ← attempt (m.toJflap.mapError .jflap)
    let place ← (openFile path).adapt Error.file
    modify (append · place (Text.encode document.toList))
    return "[OK] Exportado JFLAP: " ++ path ++ "\n"

/-- What is printed when a drawing is asked for, which takes a drawing program. -/
def drawingNotice : String :=
  Text.ofLines
    ["", "[!] Para ver el gráfico instala:", "    pip install networkx matplotlib"]

/-- A call that converts a pattern and runs texts. -/
def runPattern (elapsed : String) (o : Options) (pattern : String) (texts : List String) :
    Steps Error Outcome := do
  let c ← attempt ((Conversion.of pattern).mapError .missingState)
  let report ← attempt ((c.report elapsed).mapError .missingState)
  let exported ← exportMachine c.machine o.jff
  let checks ← attempt ((texts.mapM c.check).mapError .missingState)
  return ⟨0, report ++ exported ++ (if o.draw then drawingNotice else "") ++ Text.join "" checks⟩

/-- A call of the program with the given arguments and input, and with a library for tables.
Conversions are reported to have taken the time `elapsed`. -/
def command (lib : Table.Library) (elapsed : String) (args : List String) (input : String) :
    Steps Error Outcome :=
  let o := Options.ofArgs args
  match o.batch, o.positional with
  | some path, _ => runBatch lib path (o.csv.getD defaultTable)
  | none, [] => do
    let printed ← attempt ((transcript elapsed (inputLines input)).mapError .missingState)
    return ⟨0, printed⟩
  | none, pattern :: texts => runPattern elapsed o pattern texts

end PatternMachines.Console
