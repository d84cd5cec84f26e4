import PatternMachines.Batch.Run
import PatternMachines.Text.Lines

/-!
# Tables made by the service

The service runs on a machine that has files of its own. To make the table of a batch file that it
has received, it stores the file, opens a second file for the table, and runs a batch from the one
to the other. Then it reads the second file as a text, in which all line ends become line feeds.
Both files are removed in the end, whether or not the table could be made.

## Main definitions

* `Service.readText`: the steps that read a text file.
* `Service.Server`: what the service finds on its machine.
* `Service.Server.runBatch`, `Service.Server.makeTable`: the steps that make a table.
-/

namespace PatternMachines.Service

open Directory

/-- Reads a file as a text, in which every line end is a line feed. -/
def readText (path : String) : Steps Batch.Error (List Char) := do
  let bytes ← attempt (((← get).contents path).mapError .file)
  let cs ← attempt ((Text.decode bytes).mapError fun e => .input (.undecodable e))
  return Text.normaliseNewlines cs

/-- What the service finds on its machine. -/
structure Server where
  /-- The time. -/
  time : String
  /-- The library for tables. -/
  library : Table.Library
  /-- The files. -/
  store : Directory
  /-- The path of the file in which a batch file is stored, without its ending. -/
  receivedStem : String
  /-- The path of the file in which a table is made, without its ending. -/
  tableStem : String

namespace Server

variable (s : Server)

/-- The path of the file in which a batch file of a given ending is stored. -/
def receivedPath (ending : String) : String := s.receivedStem ++ ending

/-- The path of the file in which a table is made. -/
def tablePath : String := s.tableStem ++ ".csv"

/-- Runs a batch between the two files, and reads the table as a text. -/
def runBatch (ending : String) : Steps Batch.Error (List Char) := do
  let _ ← Batch.run s.library (s.receivedPath ending) s.tablePath
  readText s.tablePath

/-- Makes the table of a batch file of a given ending and content: its text. -/
def makeTable (ending : String) (content : List UInt8) : Steps Batch.Error (List Char) := do
  let received ← (openFile (s.receivedPath ending)).adapt .file
  finishing (remove · received) do
    modify (append · received content)
    let table ← (openFile s.tablePath).adapt .file
    finishing (remove · table) (s.runBatch ending)

end Server

end PatternMachines.Service
