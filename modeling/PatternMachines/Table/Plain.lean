import PatternMachines.Table

/-!
# The plain library

The plain library writes a table line by line, with commas between the fields. A field that holds a
comma, a quote or a line feed stands in quotes, with the quotes inside it doubled; every other field
is written as it is. Tables are read in the same form, and short rows are filled up with empty
fields.

## Main definitions

* `Table.Plain.writeField`, `Table.Plain.writeLine`: written fields and lines.
* `Table.Plain.readLines`, `Table.Plain.records`: the lines of characters and of bytes.
* `Table.plain`: the library.
-/

namespace PatternMachines.Table

namespace Plain

/-! ### Writing -/

/-- Whether a field is written in quotes. -/
def needsQuotes (cs : List Char) : Bool := cs.any fun c => c == ',' || c == '"' || c == '\n'

/-- The characters of a field with its quotes doubled. -/
def doubleQuotes (cs : List Char) : List Char :=
  cs.flatMap fun c => if c = '"' then ['"', '"'] else [c]

/-- A written field. -/
def writeField (cs : List Char) : List Char :=
  if needsQuotes cs then '"' :: (doubleQuotes cs ++ ['"']) else cs

/-- A written line. -/
def writeLine : List String → List Char
  | [] => ['\n']
  | [s] => writeField s.toList ++ ['\n']
  | s :: fields => writeField s.toList ++ ',' :: writeLine fields

/-! ### Reading -/

/-- Where the reading of a line stands. -/
inductive Mode where
  /-- Before a field or in one that is written as it is. -/
  | bare
  /-- In the quotes of a field. -/
  | inQuotes
  /-- After a quote in the quotes of a field, which closes them or is doubled. -/
  | afterQuote
  deriving DecidableEq, Repr

/-- The lines of characters. The open field is held in reverse, and so are the fields before it. -/
def readLines (mode : Mode) (field : List Char) (fields : List String) :
    List Char → List (List String)
  | [] =>
    if field.isEmpty && fields.isEmpty then []
    else [(String.ofList field.reverse :: fields).reverse]
  | c :: rest =>
    if mode = .inQuotes then
      if c = '"' then readLines .afterQuote field fields rest
      else readLines .inQuotes (c :: field) fields rest
    else if c = '"' ∧ mode = .afterQuote then readLines .inQuotes (c :: field) fields rest
    else if c = '"' ∧ field = [] then readLines .inQuotes [] fields rest
    else if c = ',' then readLines .bare [] (String.ofList field.reverse :: fields) rest
    else if c = '\n' then
      (String.ofList field.reverse :: fields).reverse :: readLines .bare [] [] rest
    else readLines .bare (c :: field) fields rest

/-- The lines of bytes, if these are a text. -/
def records (bytes : List UInt8) : Option (List (List String)) :=
  (Text.decode bytes).toOption.map (readLines .bare [] [])

/-- The table of records, of which the first one names the columns. -/
def ofRecords : List (List String) → Except Fault Table
  | (name :: names) :: rows =>
    let columnAt (k : Nat) : List String := rows.map fun row => row[k]?.getD ""
    .ok ⟨(name, columnAt 0), names.zipIdx.map fun (name, k) => (name, columnAt (k + 1))⟩
  | _ => .error ⟨"ValueError", "no columns"⟩

/-- The table in bytes. -/
def read (bytes : List UInt8) : Except Fault Table :=
  match Text.decode bytes with
  | .ok cs => ofRecords (readLines .bare [] [] cs)
  | .error e => .error ⟨"UnicodeDecodeError", e.message⟩

end Plain

/-- The plain library. It opens the file at the path that it is given, and it never fails. -/
def plain : Library where
  read := Plain.read
  refusal? _ _ := none
  target path := path
  pieces _ rows := rows.map fun fields => Text.encode (Plain.writeLine fields)
  failure? _ _ _ := none

end PatternMachines.Table
