import PatternMachines.Directory

/-!
# Tables

A table has named columns, of which there is at least one. Tables are read and written by a library.
It reads a table from the bytes of a file. When it writes a table it may refuse to open the file; it
opens a file at a path that it makes of the given one; and it adds to the file in several pieces,
any of which may fail. What it writes may depend on the path, as where a suffix asks for another
format.

## Main definitions

* `Table`, `Table.column`: tables and their columns.
* `Table.Fault`: why a library fails.
* `Table.Library`: libraries that read and write tables.
* `Table.Library.ReadsBack`, `Table.Library.KeepsCharacters`, `Table.Library.CompletesAt`: what can
  be relied on in a library.
-/

namespace PatternMachines

/-- A table of texts. -/
structure Table where
  /-- The name and the entries of the first column. -/
  first : String × List String
  /-- The names and the entries of the other columns, from the left. -/
  others : List (String × List String) := []
  deriving DecidableEq, Repr

namespace Table

/-- The entries of the first of the given columns that a table has, or else of its first column. -/
def column (t : Table) (preferred : List String) : List String :=
  (preferred.findSome? fun name => (t.first :: t.others).lookup name).getD t.first.2

/-- Why a library fails. -/
structure Fault where
  /-- The class of the error. -/
  category : String
  /-- The text of the error. -/
  message : String
  deriving DecidableEq, Repr

/-- A library that reads and writes tables. -/
structure Library where
  /-- The table in the bytes of a file. -/
  read : List UInt8 → Except Fault Table
  /-- Why a table cannot be written at a path, found before a file is opened. -/
  refusal? : Directory → String → Option Fault
  /-- The path at which a file is opened for a table that is to be written at a given path. -/
  target : String → String
  /-- The bytes of the records of a table that is written at a path, piece by piece. The first
  record names the columns. -/
  pieces : String → List (List String) → List (List UInt8)
  /-- Why a piece cannot be added to the file that was opened for a path. -/
  failure? : Directory → String → List UInt8 → Option Fault

namespace Library

variable (lib : Library) (path : String)

/-- The bytes of a table that is written at a path. -/
def bytes (records : List (List String)) : List UInt8 := (lib.pieces path records).flatten

/-- Whether `readRecords` reads the records of a table back from the file that is written at a path:
the names of the columns, and one record for each row. -/
def ReadsBack (readRecords : List UInt8 → Option (List (List String))) : Prop :=
  ∀ names rows, names ≠ [] → (∀ row ∈ rows, row.length = names.length) →
    readRecords (lib.bytes path (names :: rows)) = some (names :: rows)

/-- Whether a table is written at a path as a text that holds carriage returns just if a field of
the table does. -/
def KeepsCharacters : Prop :=
  ∀ records, ∃ written, lib.bytes path records = Text.encode written ∧
    ('\r' ∈ written ↔ ∃ record ∈ records, ∃ field ∈ record, '\r' ∈ field.toList)

/-- Whether a table that is written at a path is written as a whole once its file is open. -/
def CompletesAt : Prop := ∀ d piece, lib.failure? d path piece = none

end Library

end Table

end PatternMachines
