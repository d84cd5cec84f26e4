import PatternMachines.Json.Sent
import PatternMachines.Service.FileName
import PatternMachines.Service.Request
import PatternMachines.Service.Server
import PatternMachines.Turing.Document
import PatternMachines.Turing.Jflap

/-!
# Answers to requests

The service has four addresses: the automaton of a pattern, its machine, the machine as a JFLAP
document, and the table of a batch file. A request that cannot be met is answered by a document with
the reason. A document that cannot be sent is replaced by one with the reason; where that cannot be
sent either, and where the body is nested too deeply, there is no answer.

## Main definitions

* `Service.Response`: answers.
* `Service.NoAnswer`: why a request is not answered.
* `Service.Endpoint`, `Service.Endpoint.ofPath?`: the addresses.
* `Service.respond?`: the answer to a request.
-/

namespace PatternMachines.Service

/-- What an answer carries. -/
inductive Content where
  /-- A document. -/
  | document (v : Json)
  /-- A file with the header that names it. -/
  | file (text disposition : String)
  /-- Nothing of interest. -/
  | nothing

/-- The answer to a request. -/
structure Response where
  /-- The status code. -/
  status : Nat := 200
  /-- The kind of the content. -/
  contentType : String := "application/json"
  /-- What the answer carries. -/
  content : Content
  /-- The ways in which a request may be sent, where it was sent in another way. -/
  allow : Option String := none
  /-- The headers that a page of another origin may see. -/
  exposed : Option String := none

/-- Why a request is not answered. -/
inductive NoAnswer where
  /-- The brackets in the body are nested too deeply. -/
  | tooDeep (compound : Json.Compound)
  /-- The document of the answer holds half a surrogate pair. -/
  | unsendable (e : Text.EncodingError)
  deriving DecidableEq, Repr

/-- The text of the reason. -/
def NoAnswer.message : NoAnswer → String
  | .tooDeep compound => (Json.ReadError.tooDeep compound).message
  | .unsendable e => e.message

/-- The answer, if it can be sent. -/
def Response.sent (r : Response) : Except Text.EncodingError Response :=
  match r.content with
  | .document v => v.encodingError?.elim (.ok r) .error
  | _ => .ok r

/-- The document of an answer, with further members between the outcome and the error. -/
def outcome (met : Bool) (more : List (LooseText × Json)) (error : Json) : Json :=
  .object (("success", .bool met) :: more.concat ("error", error))

/-- An answer that a request cannot be met, with further members. -/
def failure (reason : String) (more : List (LooseText × Json)) : Response where
  status := 400
  content := .document (outcome false more (.text reason))

/-- An answer that a request was met, with further members. -/
def success (more : List (LooseText × Json)) : Response where
  content := .document (outcome true more .null)

/-- Why a pattern cannot be served. -/
inductive ConversionError where
  /-- The value is not a pattern. -/
  | unreadable (e : Pattern.Unreadable)
  /-- The automaton has an edge that leads nowhere. -/
  | missingState (e : MissingState)
  /-- The machine cannot be exported. -/
  | jflap (e : Turing.Jflap.ExportError)
  /-- A symbol of a machine that is to be exported is a number of a given kind. -/
  | notText (kind : String)
  /-- A symbol of a machine that is to be exported is half a surrogate pair. -/
  | notCharacter (e : Text.EncodingError)
  /-- A file is to be named after a pattern that is not a text. -/
  | unnamed (kind : String)
  deriving DecidableEq, Repr

/-- The text of the error. -/
def ConversionError.message : ConversionError → String
  | .unreadable e => e.message
  | .missingState e => e.message
  | .jflap e => e.message
  | .notText kind => "'" ++ kind ++ "' object has no attribute 'replace'"
  | .notCharacter e => e.message
  | .unnamed kind => "expected string or bytes-like object, got '" ++ kind ++ "'"

/-- The automaton of a pattern. -/
def automatonOf (source : Pattern.Source) : Except ConversionError Dfa :=
  (Dfa.ofNfa source.pattern.toNfa).mapError .missingState

/-- The results of tests, or null where there are none. -/
def resultsJson (results : List Json) : Json := if results.isEmpty then .null else .array results

/-- The verdict of an automaton on a text, as a document. -/
def verdictOn (d : Dfa) (text : LooseText) : Except MissingState Json := do
  let accepted ← d.accepts (Symbol.ofLooseText text)
  return .object [("string", .text text), ("accepted", .bool accepted)]

/-- The answer with the automaton of a pattern and its verdicts. -/
def automatonResponse (p : Parameters) : Except ConversionError Response := do
  let source ← (Pattern.ofJson p.pattern).mapError .unreadable
  let d ← automatonOf source
  let s ← d.summary.mapError .missingState
  let results ← (p.tests.mapM (verdictOn d)).mapError .missingState
  return success
    [("regex", p.pattern), ("dfa", s.toJson source.valueOf), ("test_results", resultsJson results)]

/-- The document of the verdicts on a text. -/
def comparisonJson (withTrace : Bool) (text : LooseText) (c : Comparison) : Json :=
  .object (("string", .text text) :: c.members withTrace)

/-- The answer with the automaton and the machine of a pattern and their verdicts. The symbols of a
tape are listed in order, so that none of them may be a number. -/
def machineResponse (p : Parameters) : Except ConversionError Response := do
  let source ← (Pattern.ofJson p.pattern).mapError .unreadable
  let d ← automatonOf source
  let m := Turing.Machine.ofDfa d
  let results ← (Comparison.ofAll d m (p.tests.map LooseText.carried)).mapError .missingState
  let s ← d.summary.mapError .missingState
  if let some kind := source.leastKind? then
    throw (.unreadable (.incomparable kind))
  return success
    [("regex", p.pattern), ("dfa", s.toJson), ("tm", m.toJson),
      ("test_results", resultsJson (p.tests.zipWith (comparisonJson p.trace) results))]

/-- The kind of the first number that a machine for a pattern reads. -/
def firstNumberKind? (source : Pattern.Source) (m : Turing.Machine) : Option String :=
  (m.transitions.findSome? fun t => source.numbers.lookup t.read).map Json.kind

/-- The first half of a surrogate pair among the codes of a pattern that is a symbol of its
automaton, as an error. -/
def firstHalf? (pattern : LooseText) (d : Dfa) : Option Text.EncodingError :=
  (pattern.codes.find? fun n => Text.isHalf n && d.alphabet.contains (Symbol.ofCode n)).map
    fun n => ⟨0, n, 1⟩

/-- The answer with the JFLAP document of the machine of a pattern. -/
def jflapResponse (p : Parameters) : Except ConversionError Response := do
  let source ← (Pattern.ofJson p.pattern).mapError .unreadable
  let d ← automatonOf source
  let m := Turing.Machine.ofDfa d
  if let some kind := firstNumberKind? source m then
    throw (.notText kind)
  let document ← m.toJflap.mapError .jflap
  match p.pattern with
  | .text pattern =>
    if let some e := firstHalf? pattern d then
      throw (.notCharacter e)
    return {
      contentType := "application/xml; charset=utf-8"
      content := .file document (attachment pattern.shown)
      exposed := some "Content-Disposition, Content-Length, Content-Type" }
  | v => throw (.unnamed v.kind)

/-- The answer to a request for a conversion, where `nulls` are the members that are null if the
conversion fails. A failure to send the result is a failure of the conversion. -/
def convert (r : Request) (nulls : List String)
    (meet : Parameters → Except ConversionError Response) : Except NoAnswer Response :=
  match r.parameters with
  | .error .noObject => .ok (failure "JSON inválido en el cuerpo de la petición" [])
  | .error (.tooDeep compound) => .error (.tooDeep compound)
  | .ok p =>
    if p.pattern.isTruthy then
      let sent := do
        let response ← (meet p).mapError ConversionError.message
        response.sent.mapError Text.EncodingError.message
      match sent with
      | .ok response => .ok response
      | .error reason =>
        let nulls := nulls.map fun name => (LooseText.proper name, Json.null)
        (failure reason (("regex", p.pattern) :: nulls)).sent.mapError .unsendable
    else .ok (failure "Parámetro 'regex' requerido" [])

/-- The header that names a table. Its name holds the time at which it was made. -/
def tableAttachment (time : String) : String :=
  "attachment; filename=\"regex_tm_" ++ time ++ ".csv\""

/-- An answer of the server itself, without a document. -/
def bareResponse (status : Nat) : Response where
  status := status
  contentType := "text/html; charset=utf-8"
  content := .nothing

/-- The name and the content of the file of a request, if it has one. -/
def Request.file? (r : Request) : Option (String × List UInt8) :=
  match r.body with
  | .document _ => none
  | .form _ file => file

/-- The answer with the table of a batch file of a name and a content. -/
def tableOfFile (s : Server) (name : String) (content : List UInt8) : Response :=
  let ending := extension name
  if ending = ".txt" ∨ ending = ".csv" then
    match (Directory.perform (s.makeTable ending content) s.store).1 with
    | .error e => failure e.message []
    | .ok cs =>
      { contentType := "text/csv; charset=utf-8"
        content := .file (String.ofList cs) (tableAttachment s.time) }
  else
    failure ("Formato de archivo no soportado. Use .txt o .csv (recibido: " ++ ending ++ ")") []

/-- The answer with the table of the batch file that is sent. -/
def tableResponse (s : Server) (r : Request) : Response :=
  match r.file? with
  | none => failure "No se proporcionó archivo. Use el campo 'file' en el formulario." []
  | some (name, content) => tableOfFile s name content

/-- The addresses of the service. -/
inductive Endpoint where
  /-- The automaton of a pattern. -/
  | automaton
  /-- The machine of a pattern. -/
  | machine
  /-- The machine of a pattern as a JFLAP document. -/
  | jflap
  /-- The table of a batch file. -/
  | table
  deriving DecidableEq, Repr

namespace Endpoint

/-- The address with a given path. -/
def ofPath? (path : String) : Option Endpoint :=
  [("/api/regex-to-dfa/", automaton), ("/api/regex-to-tm/", machine),
    ("/api/regex-to-tm/jff/", jflap), ("/api/regex-file-to-csv/", table)].lookup path

/-- Whether requests may be sent to an address in a given way. -/
def allows : Endpoint → Method → Bool
  | table, m => m == .post
  | _, m => m == .get || m == .post

/-- The ways in which requests may be sent to an address, as a header. -/
def allowHeader : Endpoint → String
  | table => "POST"
  | _ => "GET, POST"

/-- The answer to a request that was sent in an allowed way. -/
def answer (s : Server) (r : Request) : Endpoint → Except NoAnswer Response
  | automaton => convert r ["dfa", "test_results"] automatonResponse
  | machine => convert r ["dfa", "tm", "test_results"] machineResponse
  | jflap => convert r [] jflapResponse
  | table => .ok (tableResponse s r)

end Endpoint

/-- The answer to a request, if its path is an address of the service. -/
def respond? (s : Server) (r : Request) : Option (Except NoAnswer Response) :=
  (Endpoint.ofPath? r.path).map fun endpoint =>
    if endpoint.allows r.method then endpoint.answer s r
    else .ok { bareResponse 405 with allow := some endpoint.allowHeader }

end PatternMachines.Service
