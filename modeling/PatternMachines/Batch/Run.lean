import PatternMachines.Batch.Patterns
import PatternMachines.Batch.Row
import PatternMachines.Directory.Steps

/-!
# Running a batch

A batch reads the patterns of one file and writes a table with a row for each of them. The table is
written by a library: if this does not refuse, its file is opened, which empties it, and the records
of the table are added to it piece by piece.

## Main definitions

* `Batch.Error`: why a batch fails.
* `Batch.rowsOf`, `Batch.recordsOf`: the rows of patterns, and the records of rows.
* `Batch.writeTable`, `Batch.run`: the steps that write a table, and those of a batch.
-/

namespace PatternMachines.Batch

open Directory

/-- Why a batch fails. -/
inductive Error where
  /-- A file cannot be found or opened. -/
  | file (e : FileError)
  /-- The batch file cannot be read. -/
  | input (e : InputError)
  /-- The table cannot be written. -/
  | output (fault : Table.Fault)
  deriving DecidableEq, Repr

/-- The text of the error. -/
def Error.message : Error → String
  | .file e => e.message
  | .input e => e.message
  | .output fault => fault.message

/-- The class of the error. -/
def Error.category : Error → String
  | .file e => e.category
  | .input e => e.category
  | .output fault => fault.category

/-- The rows of patterns, with lines numbered from one. -/
def rowsOf (patterns : List String) : List Row :=
  patterns.zipIdx.map fun (p, i) => Row.ofText (i + 1 : Nat) p

/-- The records of the table of rows: the names of the columns, and the texts of each row. -/
def recordsOf (rows : List Row) : List (List String) := columnNames :: rows.map Row.fields

variable (lib : Table.Library)

/-- Adds a piece of a table to the file that was opened for it. -/
def addPiece (output place : String) (piece : List UInt8) : Steps Error Unit := do
  if let some fault := lib.failure? (← get) output piece then
    throw (.output fault)
  modify (append · place piece)

/-- Writes a table. -/
def writeTable (output : String) (records : List (List String)) : Steps Error Unit := do
  if let some fault := lib.refusal? (← get) output then
    throw (.output fault)
  let place ← (openFile (lib.target output)).adapt Error.file
  (lib.pieces output records).forM (addPiece lib output place)

/-- Runs a batch from one file to another. -/
def run (input output : String) : Steps Error (List Row) := do
  let bytes ← attempt (((← get).read input).mapError .file)
  let patterns ← attempt ((patternsOf lib.read (fileName input) bytes).mapError .input)
  let rows := rowsOf patterns
  writeTable lib output (recordsOf rows)
  return rows

end PatternMachines.Batch
