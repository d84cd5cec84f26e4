import PatternMachines.Json.Display
import PatternMachines.Json.Reader
import PatternMachines.Text.Part
import PatternMachines.Text.Trim
import PatternMachines.Text.Utf8
import PatternMachines.Unicode.Blank
import PatternMachines.Unicode.Lowercase

/-!
# Requests

A request asks for the conversion of a pattern, for texts to be run and for the course of the runs.
It gives these in the query of its address or in the document of its body. The table of a batch file
is asked for by a form that holds the file.

## Main definitions

* `Service.Request`: requests.
* `Service.RequestError`: why a request cannot be read.
* `Service.Parameters`, `Service.Request.parameters`: what a request asks for.
* `Service.testsOf`: the texts that a value stands for.
-/

namespace PatternMachines.Service

/-- The ways to send a request. -/
inductive Method where
  /-- Parameters in the query. -/
  | get
  /-- Parameters in the body. -/
  | post
  /-- Any other way. -/
  | other
  deriving DecidableEq, Repr

/-- What the body of a request holds. -/
inductive Body where
  /-- The bytes of a document. -/
  | document (bytes : List UInt8)
  /-- The bytes of a form, with the name and the content of the file in its field for files, if it
  has one. -/
  | form (bytes : List UInt8) (file : Option (String × List UInt8))

/-- The bytes of a body. -/
def Body.bytes : Body → List UInt8
  | .document bytes | .form bytes _ => bytes

/-- A request. -/
structure Request where
  /-- The path of the address. -/
  path : String
  /-- How it is sent. -/
  method : Method
  /-- The query: names with values, in order and with repetitions. -/
  query : List (String × String) := []
  /-- The body. -/
  body : Body := .document []

/-- What a request asks for. -/
structure Parameters where
  /-- The pattern. -/
  pattern : Json
  /-- The texts to be run. -/
  tests : List LooseText
  /-- Whether the course of the runs is asked for. -/
  trace : Bool

/-- Why what a request asks for cannot be read. -/
inductive RequestError where
  /-- The body is not the document of an object. -/
  | noObject
  /-- The brackets in the body are nested too deeply. -/
  | tooDeep (compound : Json.Compound)
  deriving DecidableEq, Repr

/-- The pieces of a list between separators, trimmed, without the empty ones. -/
def trimmedPieces {α : Type} [BEq α] (separator : α) (blank : α → Bool) (xs : List α) :
    List (List α) :=
  ((Text.pieces separator xs).map (Text.trimList blank)).filter (!·.isEmpty)

/-- The texts between commas, trimmed, without the empty ones. -/
def commaSeparated : LooseText → List LooseText
  | .proper s =>
    (trimmedPieces ',' Unicode.isBlank s.toList).map fun cs => .proper (String.ofList cs)
  | .broken codes =>
    (trimmedPieces ','.toNat (fun n => Unicode.isBlank (Char.ofNat n)) codes).map .ofCodes

/-- The texts that a value stands for: the items of an array, the texts between the commas of a
text, none for null, and otherwise the value itself. -/
def testsOf : Json → List LooseText
  | .array items => items.map Json.display
  | .text t => commaSeparated t
  | .null => []
  | v => [v.display]

/-- The last value of a name in a query. -/
def lastValue? (query : List (String × String)) (name : String) : Option String :=
  query.reverse.lookup name

/-- All values of a name in a query. -/
def allValues (query : List (String × String)) (name : String) : List String :=
  (query.filter (·.1 == name)).map (·.2)

namespace Parameters

/-- What the query of a request asks for. -/
def ofQuery (query : List (String × String)) : Parameters where
  pattern := .ofText? (lastValue? query "regex")
  tests :=
    match allValues query "test" with
    | [] => testsOf (.ofText? (lastValue? query "tests"))
    | tests => tests.map .proper
  trace := ["1", "true", "yes"].contains
    (Unicode.lowercase ((lastValue? query "trace").getD ""))

/-- The texts that the document of a body asks to be run. Of the two members that name texts,
`tests` goes before `test`, whose text is not split. -/
def testsOfBody (document : Json) : List LooseText :=
  match document.member? "tests" with
  | some v => testsOf v
  | none =>
    match (document.member? "test").getD .null with
    | .text t => [t]
    | v => testsOf v

/-- What the document of a body asks for. Only an object asks for anything. -/
def ofDocument? (document : Json) : Option Parameters :=
  match document with
  | .object _ =>
    some {
      pattern := (document.member? "regex").getD .null
      tests := testsOfBody document
      trace := (document.member? "trace").any Json.isTruthy }
  | _ => none

/-- What a body asks for. An empty body is an empty object. -/
def ofBody (body : List UInt8) : Except RequestError Parameters :=
  if body.isEmpty then (ofDocument? (.object [])).elim (.error .noObject) .ok
  else
    match Text.decode body with
    | .error _ => .error .noObject
    | .ok cs =>
      match Json.parse (String.ofList cs) with
      | .error .malformed => .error .noObject
      | .error (.tooDeep compound) => .error (.tooDeep compound)
      | .ok document => (ofDocument? document).elim (.error .noObject) .ok

end Parameters

/-- What a request asks for, if its body can be read. -/
def Request.parameters (r : Request) : Except RequestError Parameters :=
  if r.method = .get then .ok (.ofQuery r.query) else Parameters.ofBody r.body.bytes

end PatternMachines.Service
