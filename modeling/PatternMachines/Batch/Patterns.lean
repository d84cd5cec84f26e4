import PatternMachines.Table
import PatternMachines.Text.Lines
import PatternMachines.Text.Trim
import PatternMachines.Unicode.Lowercase

/-!
# The patterns of a batch file

A batch file is a table or a text. In a table the patterns stand in the column `Regex` or `regex`,
or else in the first one; in a text there is one on each line. Patterns are trimmed. Empty ones and
those that begin with `#`, which are comments, are left out.

## Main definitions

* `Batch.InputError`: why a batch file cannot be read.
* `Batch.keep`: the patterns among texts.
* `Batch.patternsOf`: the patterns of a file.
-/

namespace PatternMachines.Batch

/-- Why a batch file cannot be read. -/
inductive InputError where
  /-- The text cannot be decoded. -/
  | undecodable (e : Text.DecodingError)
  /-- The table cannot be read. -/
  | table (fault : Table.Fault)
  deriving DecidableEq, Repr

/-- The text of the error. -/
def InputError.message : InputError → String
  | .undecodable e => e.message
  | .table fault => fault.message

/-- The class of the error. -/
def InputError.category : InputError → String
  | .undecodable _ => "UnicodeDecodeError"
  | .table fault => fault.category

/-- The patterns among texts. -/
def keep (entries : List (List Char)) : List (List Char) :=
  (entries.map Text.trimChars).filter fun cs => !cs.isEmpty && cs.head? != some '#'

/-- The patterns of the characters of a text file. -/
def patternsOfText (cs : List Char) : List String :=
  (keep (Text.splitLines (Text.normaliseNewlines cs))).map String.ofList

/-- The patterns of a table. -/
def patternsOfTable (t : Table) : List String :=
  (keep ((t.column ["Regex", "regex"]).map String.toList)).map String.ofList

/-- Whether a file name is that of a table. -/
def isTableName (name : String) : Bool := Unicode.lowercase (Directory.suffix name) == ".csv"

/-- The patterns of a file, where `readTable` reads tables. -/
def patternsOf (readTable : List UInt8 → Except Table.Fault Table) (name : String)
    (bytes : List UInt8) : Except InputError (List String) :=
  if isTableName name then
    match readTable bytes with
    | .ok t => .ok (patternsOfTable t)
    | .error fault => .error (.table fault)
  else
    match Text.decode bytes with
    | .ok cs => .ok (patternsOfText cs)
    | .error e => .error (.undecodable e)

end PatternMachines.Batch
