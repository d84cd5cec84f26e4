import PatternMachines.Text.Part
import PatternMachines.Text.Percent
import PatternMachines.Unicode.Alphanumeric
import PatternMachines.Unicode.Blank
import PatternMachines.Unicode.Lowercase

/-!
# Names of files sent and received

The file in which a machine is sent is named after its pattern. The name holds word characters only,
so that it is safe in a header. What a file holds that is received is told by the ending of its
name.

## Main definitions

* `Service.safeName`: a pattern as part of a file name.
* `Service.attachment`: the header that names the file of a pattern.
* `Service.nameEnding`, `Service.extension`: the ending of a file name.
-/

namespace PatternMachines.Service

/-- Whether a character is replaced together with its neighbours of the same kind. -/
def isGap (c : Char) : Bool := c == '-' || Unicode.isBlank c

/-- Characters that are neither word characters nor gaps, each replaced by an underscore. -/
def maskChars (cs : List Char) : List Char :=
  cs.map fun c => if Unicode.isWordChar c || isGap c then c else '_'

/-- Runs of gaps, each replaced by one underscore. In a run, `inGap`, the underscore has been
written. -/
def closeGaps (inGap : Bool) : List Char → List Char
  | [] => []
  | c :: rest =>
    if isGap c then if inGap then closeGaps true rest else '_' :: closeGaps true rest
    else c :: closeGaps false rest

/-- The greatest length of the part of a file name that comes from a pattern. -/
def maxNameLength : Nat := 50

/-- A pattern as part of a file name. -/
def safeName (pattern : String) : String :=
  String.ofList ((closeGaps false (maskChars pattern.toList)).take maxNameLength)

/-- The name of the file in which the machine of a pattern is sent. -/
def fileName (pattern : String) : String :=
  let safe := safeName pattern
  if safe = "" then "tm.jff" else "tm_" ++ safe ++ ".jff"

/-- The header that names the file of a pattern, as it is and percent-encoded. -/
def attachment (pattern : String) : String :=
  let name := fileName pattern
  "attachment; filename=\"" ++ name ++ "\"; filename*=UTF-8''" ++ Text.percentEncode name

/-- The ending of a file name from its last point on. Points at the front of the name begin no
ending. -/
def nameEnding (cs : List Char) : List Char :=
  match Text.pieces '.' (cs.dropWhile (· == '.')) with
  | [] | [_] => []
  | pieces => '.' :: (pieces.getLast?).getD []

/-- The ending of the last step of a path in small letters. -/
def extension (path : String) : String :=
  Unicode.lowercase (String.ofList (nameEnding (((Text.pieces '/' path.toList).getLast?).getD [])))

end PatternMachines.Service
