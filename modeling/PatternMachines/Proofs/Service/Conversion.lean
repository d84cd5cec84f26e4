import PatternMachines.Proofs.Comparison
import PatternMachines.Proofs.Dfa.Summary
import PatternMachines.Proofs.Json.Sent
import PatternMachines.Proofs.Service.Asking
import PatternMachines.Service.Respond
import PatternMachines.Table.Plain

/-!
# The answers to conversions

A pattern that is not empty is always converted: its automaton has a summary, every text gets its
verdicts, and the document of the answer can be sent. Since the answer depends on what is asked for
only, the two ways to ask are answered alike.

## Main definitions

* `Service.Response.Reports`: the answers that report on texts.
* `Service.TellsVerdict`, `Service.TellsComparison`: what the rows tell.

## Main results

* `Service.automatonResponse_eq_ok`, `Service.machineResponse_eq_ok`: the documents of the answers.
* `Service.answers_agree`: the answers to all requests that ask for a conversion.
-/

namespace PatternMachines.Service

open PatternMachines.Turing

variable {pattern : String} {tests : List String} {trace : Bool}

/-! ### Answers that a request was met -/

theorem convert_eq_ok {r : Request} {p : Parameters} {nulls : List String} {response : Response}
    {meet : Parameters → Except ConversionError Response} (hp : r.parameters = .ok p)
    (htruthy : p.pattern.isTruthy = true) (hmeet : meet p = .ok response)
    (hsent : response.sent = .ok response) : convert r nulls meet = .ok response := by
  rw [convert, hp]
  dsimp only
  rw [if_pos htruthy, hmeet]
  dsimp only [Except.mapError, bind, Except.bind]
  rw [hsent]

theorem sent_success {more : List (LooseText × Json)}
    (h : ∀ m ∈ more, m.1.isBroken = false ∧ m.2.holdsHalf = false) :
    (success more).sent = .ok (success more) := by
  have hhalf : (outcome true more .null).holdsHalf = false := by
    rw [outcome, Json.holdsHalf_object, List.concat_eq_append, List.forall_mem_cons,
      List.forall_mem_append, List.forall_mem_singleton]
    exact ⟨⟨rfl, rfl⟩, h, rfl, rfl⟩
  rw [Response.sent, success]
  dsimp only
  rw [Json.encodingError?_eq_none hhalf]
  rfl

variable {d : Dfa} {s : Dfa.Summary} {verdict : String → Bool}

/-- The verdict of an automaton on a text, as a document. -/
def verdictJson (verdict : String → Bool) (t : String) : Json :=
  .object [("string", .ofText t), ("accepted", .bool (verdict t))]

theorem automatonResponse_eq_ok
    (hd : Dfa.ofNfa (Pattern.ofSymbols (Symbol.ofText pattern)).toNfa = .ok d)
    (hs : d.summary = .ok s) (hverdict : ∀ w, d.accepts (Symbol.ofText w) = .ok (verdict w)) :
    automatonResponse (.ofTexts pattern tests trace) = .ok (success
      [("regex", .ofText pattern), ("dfa", s.toJson),
        ("test_results", resultsJson (tests.map (verdictJson verdict)))]) := by
  have hresults : (tests.map LooseText.proper).mapM (verdictOn d) =
      .ok (tests.map (verdictJson verdict)) := by
    rw [List.mapM_map]
    refine mapM_eq_ok fun t _ => ?_
    rw [Function.comp_apply, verdictOn, Symbol.ofLooseText, LooseText.carried, hverdict]
    rfl
  rw [automatonResponse, Parameters.ofTexts]
  dsimp only [Json.ofText, Pattern.ofJson, Except.mapError, bind, Except.bind, automatonOf,
    Symbol.ofLooseText, LooseText.carried]
  rw [hd]
  dsimp only
  rw [hs]
  dsimp only
  rw [hresults]
  rfl

theorem machineResponse_eq_ok
    (hd : Dfa.ofNfa (Pattern.ofSymbols (Symbol.ofText pattern)).toNfa = .ok d)
    (hs : d.summary = .ok s) (hverdict : ∀ w, d.accepts (Symbol.ofText w) = .ok (verdict w)) :
    machineResponse (.ofTexts pattern tests trace) = .ok (success
      [("regex", .ofText pattern), ("dfa", s.toJson), ("tm", (Machine.ofDfa d).toJson),
        ("test_results", resultsJson (tests.map fun t : String =>
          comparisonJson trace t ⟨t, verdict t, (Machine.ofDfa d).run t⟩))]) := by
  have hcarried : (tests.map LooseText.proper).map LooseText.carried = tests := by
    rw [List.map_map]
    exact List.map_id tests
  rw [machineResponse, Parameters.ofTexts]
  dsimp only [Json.ofText, Pattern.ofJson, Except.mapError, bind, Except.bind, automatonOf,
    Symbol.ofLooseText, LooseText.carried]
  rw [hd]
  dsimp only
  rw [hcarried, Comparison.ofAll_eq_ok hverdict]
  dsimp only
  rw [hs, List.zipWith_map, List.zipWith_self]
  rfl

/-! ### What answers report -/

/-- The member of a given name in the document that an answer carries. -/
def Response.member? (r : Response) (name : String) : Option Json :=
  match r.content with
  | .document v => v.member? name
  | _ => none

/-- Whether an answer tells that the request was met and reports on texts. -/
structure Response.Reports (r : Response) (tests : List String) (row : String → Json → Prop) :
    Prop where
  /-- The request was met. -/
  status_eq : r.status = 200
  /-- The document says so. -/
  success_eq : r.member? "success" = some (.bool true)
  /-- The results are null if there are no texts. -/
  null_iff : r.member? "test_results" = some .null ↔ tests = []
  /-- Otherwise there is a row for each text, in order and with repetitions. -/
  exists_rows : tests ≠ [] →
    ∃ rows, r.member? "test_results" = some (.array rows) ∧ List.Forall₂ row tests rows

/-- Whether a row tells the verdict of an automaton on a text. -/
def TellsVerdict (d : Dfa) (t : String) (row : Json) : Prop :=
  row.member? "string" = some (.ofText t) ∧
    ∃ accepted, d.accepts (Symbol.ofText t) = .ok accepted ∧
      row.member? "accepted" = some (.bool accepted)

/-- Whether a row tells the verdicts of an automaton and of its machine on a text, and the course of
the run if and only if `trace` says so. -/
def TellsComparison (d : Dfa) (trace : Bool) (t : String) (row : Json) : Prop :=
  row.member? "string" = some (.ofText t) ∧
    (∃ accepted, d.accepts (Symbol.ofText t) = .ok accepted ∧
      row.member? "dfa_accepted" = some (.bool accepted)) ∧
    row.member? "tm_accepted" = some (.bool ((Machine.ofDfa d).accepts t)) ∧
    row.member? "trace" = if trace then
      some (.array (((Machine.ofDfa d).run t).trace.map Comparison.stepJson)) else none

/-- A member of the answer other than the outcome. -/
theorem member?_success {more : List (LooseText × Json)} {name : String} {v : Json}
    (hname : name ≠ "success") (h : more.lookup (.proper name) = some v) :
    (success more).member? name = some v := by
  have hne : (LooseText.proper name == LooseText.proper "success") = false := by
    simpa using hname
  rw [success, Response.member?]
  dsimp only
  rw [outcome, Json.member?, List.lookup_cons, hne, List.concat_eq_append, List.lookup_append, h]
  rfl

theorem reports_success {more : List (LooseText × Json)} {f : String → Json}
    {row : String → Json → Prop}
    (hmore : more.lookup (.proper "test_results") = some (resultsJson (tests.map f)))
    (hrow : ∀ t ∈ tests, row t (f t)) : (success more).Reports tests row := by
  have hresults := member?_success (by decide) hmore
  refine ⟨rfl, rfl, ?_, fun hne => ?_⟩
  · rw [hresults, resultsJson]
    cases tests <;> simp
  · refine ⟨tests.map f, ?_, ?_⟩
    · rw [hresults, resultsJson, if_neg (by simpa using hne)]
    · rw [List.forall₂_map_right_iff, List.forall₂_same]
      exact hrow

/-! ### The answers to requests -/

theorem holdsHalf_resultsJson {f : String → Json} (h : ∀ t, (f t).holdsHalf = false) :
    (resultsJson (tests.map f)).holdsHalf = false := by
  rw [resultsJson]
  split
  · rfl
  · exact Json.holdsHalf_array.2 (List.forall_mem_map.2 fun t _ => h t)

/-- The answer with the automaton of a pattern exists, can be sent and reports on the texts. -/
theorem exists_automatonResponse (tests : List String) (trace : Bool)
    (hd : Dfa.ofNfa (Pattern.ofSymbols (Symbol.ofText pattern)).toNfa = .ok d) :
    ∃ response, automatonResponse (.ofTexts pattern tests trace) = .ok response ∧
      response.sent = .ok response ∧ response.Reports tests (TellsVerdict d) := by
  have hclosed := (Dfa.determinizes_of_ofNfa hd).closed
  obtain ⟨s, hs, -⟩ := hclosed.exists_summary
  obtain ⟨verdict, hverdict⟩ : ∃ verdict : String → Bool,
      ∀ w, d.accepts (Symbol.ofText w) = .ok (verdict w) := ⟨_, fun w => hclosed.accepts_eq _⟩
  refine ⟨_, automatonResponse_eq_ok hd hs hverdict, sent_success ?_,
    reports_success (f := verdictJson verdict) rfl fun t _ => ?_⟩
  · have hresults : (resultsJson (tests.map (verdictJson verdict))).holdsHalf = false :=
      holdsHalf_resultsJson fun _ => rfl
    simp [Json.ofText, Json.holdsHalf_summary, hresults]
  · exact ⟨rfl, verdict t, hverdict t, rfl⟩

/-- The answer with the machine of a pattern exists, can be sent and reports on the texts. -/
theorem exists_machineResponse (tests : List String) (trace : Bool)
    (hd : Dfa.ofNfa (Pattern.ofSymbols (Symbol.ofText pattern)).toNfa = .ok d) :
    ∃ response, machineResponse (.ofTexts pattern tests trace) = .ok response ∧
      response.sent = .ok response ∧ response.Reports tests (TellsComparison d trace) := by
  have hclosed := (Dfa.determinizes_of_ofNfa hd).closed
  obtain ⟨s, hs, -⟩ := hclosed.exists_summary
  obtain ⟨verdict, hverdict⟩ : ∃ verdict : String → Bool,
      ∀ w, d.accepts (Symbol.ofText w) = .ok (verdict w) := ⟨_, fun w => hclosed.accepts_eq _⟩
  let row (t : String) : Json := comparisonJson trace t ⟨t, verdict t, (Machine.ofDfa d).run t⟩
  refine ⟨_, machineResponse_eq_ok hd hs hverdict, sent_success ?_,
    reports_success (f := row) rfl fun t _ => ?_⟩
  · have hresults : (resultsJson (tests.map row)).holdsHalf = false :=
      holdsHalf_resultsJson fun t => Json.holdsHalf_comparison trace t _
    simp [Json.ofText, Json.holdsHalf_summary, Json.holdsHalf_machine, row, hresults]
  · refine ⟨rfl, ⟨verdict t, hverdict t, ?_⟩, ?_, ?_⟩ <;> cases trace <;> rfl

/-- **Both ways to ask are answered alike.** Whatever the texts and the wish for the course of the
runs, every request that asks for the conversion of a pattern, be it in the query or in the body,
gets the same answer. The answer tells that the request was met and reports on the texts in order:
on the verdicts of the automaton of the pattern and, at the address for machines, on those of the
machine of this automaton, with the course of each run where it is asked for. -/
theorem answers_agree (hpattern : pattern ≠ "") (tests : List String) (trace : Bool) :
    ∃ d automaton machine, Dfa.ofNfa (Pattern.ofSymbols (Symbol.ofText pattern)).toNfa = .ok d ∧
    automaton.Reports tests (TellsVerdict d) ∧ machine.Reports tests (TellsComparison d trace) ∧
    ∀ (server : Server) (r : Request), r.Asks pattern tests trace →
      (r.path = "/api/regex-to-dfa/" → respond? server r = some (.ok automaton)) ∧
      (r.path = "/api/regex-to-tm/" → respond? server r = some (.ok machine)) := by
  obtain ⟨d, hd⟩ := Pattern.exists_ofNfa_toNfa (Pattern.ofSymbols (Symbol.ofText pattern))
  obtain ⟨automaton, hautomaton, hsent, hreports⟩ := exists_automatonResponse tests trace hd
  obtain ⟨machine, hmachine, hsent', hreports'⟩ := exists_machineResponse tests trace hd
  have htruthy : (Parameters.ofTexts pattern tests trace).pattern.isTruthy = true := by
    simpa [Parameters.ofTexts, Json.ofText, Json.isTruthy] using hpattern
  refine ⟨d, automaton, machine, hd, hreports, hreports', fun server r hr => ?_⟩
  have hallows {endpoint : Endpoint} (h : endpoint ≠ .table) : endpoint.allows r.method = true := by
    cases endpoint with
    | table => exact absurd rfl h
    | _ => cases hr with
      | query hget => rw [hget]; rfl
      | body hpost => rw [hpost]; rfl
  constructor
  · intro hpath
    have hendpoint : Endpoint.ofPath? r.path = some .automaton := by rw [hpath]; decide
    rw [respond?, hendpoint, Option.map_some, if_pos (hallows (by decide)), Endpoint.answer,
      convert_eq_ok hr.parameters_eq htruthy hautomaton hsent]
  · intro hpath
    have hendpoint : Endpoint.ofPath? r.path = some .machine := by rw [hpath]; decide
    rw [respond?, hendpoint, Option.map_some, if_pos (hallows (by decide)), Endpoint.answer,
      convert_eq_ok hr.parameters_eq htruthy hmachine hsent']

/-- A server with the plain library and one folder. -/
def plainServer : Server where
  time := "20260101_000000"
  library := Table.plain
  store := { folders := .ofList ["/tmp"] }
  receivedStem := "/tmp/received"
  tableStem := "/tmp/table"

/-- Two requests for the machine of the pattern `a`, with texts that are empty, that repeat and that
hold a comma. -/
theorem answers_to_commas : "a" ≠ "" ∧ ∃ response : Response,
    respond? plainServer ⟨"/api/regex-to-tm/", .get,
      [("regex", "a"), ("test", "a,"), ("test", ""), ("test", "a"), ("test", "a"),
        ("trace", "true")], .document []⟩ = some (.ok response) ∧
    respond? plainServer ⟨"/api/regex-to-tm/", .post, [], .document (Text.encode
      "\x7b\"regex\":\"a\",\"tests\":[\"a,\",\"\",\"a\",\"a\"],\"trace\":true\x7d".toList)⟩ =
        some (.ok response) ∧
    response.status = 200 ∧
    ∃ rows, response.member? "test_results" = some (.array rows) ∧ rows.length = 4 := by
  have hpattern : "a" ≠ "" := by decide
  obtain ⟨_, _, machine, -, -, hreports, hanswers⟩ :=
    answers_agree hpattern ["a,", "", "a", "a"] true
  obtain ⟨rows, hresults, hrows⟩ := hreports.exists_rows (by decide)
  have hquery : askingQuery "a" ["a,", "", "a", "a"] true = [("regex", "a"), ("test", "a,"),
      ("test", ""), ("test", "a"), ("test", "a"), ("trace", "true")] := rfl
  have hbody : Json.render (askingDocument "a" ["a,", "", "a", "a"] true) =
      "\x7b\"regex\":\"a\",\"tests\":[\"a,\",\"\",\"a\",\"a\"],\"trace\":true\x7d" := by
    decide +kernel
  refine ⟨hpattern, machine, ?_, ?_, hreports.status_eq, rows, hresults, hrows.length_eq.symm⟩
  · exact (hanswers plainServer _ (.query rfl (hquery ▸ queryAsks_askingQuery))).2 rfl
  · exact (hanswers plainServer _ (.body rfl (hbody ▸ carries_encode_render plain_askingDocument))).2 rfl

end PatternMachines.Service
