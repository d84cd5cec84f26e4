import PatternMachines.Proofs.Json.Rendered
import PatternMachines.Proofs.Text.Utf8
import PatternMachines.Service.Request

/-!
# Two ways to ask

A conversion is asked for in the query of an address or in the document of a body. Whatever the
pattern, the texts to be run and the wish for the course of the runs, both ways exist and come to
the same.

## Main definitions

* `Service.QueryAsks`, `Service.askingDocument`, `Service.Carries`: queries and bodies that ask.
* `Service.Request.Asks`: requests that ask in either way.

## Main results

* `Service.queryAsks_askingQuery`, `Service.carries_encode_render`: there are such requests.
* `Service.Request.Asks.parameters_eq`: what such requests ask for.
-/

namespace PatternMachines.Service

/-! ### What requests ask for -/

/-- The document of a body that asks for the conversion of a pattern, for texts to be run and, where
`trace` says so, for the course of the runs. -/
def askingDocument (pattern : String) (tests : List String) (trace : Bool) : Json :=
  .object [("regex", .ofText pattern), ("tests", .texts tests), ("trace", .bool trace)]

/-- Whether bytes are those of a document. -/
def Carries (bytes : List UInt8) (document : Json) : Prop :=
  ∃ cs, Text.decode bytes = .ok cs ∧ Json.parse (String.ofList cs) = .ok document

/-- Whether a query asks for the conversion of a pattern, for texts to be run and, where `trace`
says so, for the course of the runs. -/
structure QueryAsks (query : List (String × String)) (pattern : String) (tests : List String)
    (trace : Bool) : Prop where
  /-- The pattern is the last one. -/
  pattern_eq : lastValue? query "regex" = some pattern
  /-- Each text has a value of its own. -/
  tests_eq : allValues query "test" = tests
  /-- No value stands for several texts. -/
  joined_eq : lastValue? query "tests" = none
  /-- The course of the runs is asked for by a word. -/
  trace_eq : lastValue? query "trace" = if trace then some "true" else none

/-- Whether a request asks for the conversion of a pattern, for texts to be run and, where `trace`
says so, for the course of the runs. -/
inductive Request.Asks (pattern : String) (tests : List String) (trace : Bool) : Request → Prop
  /-- It may do so in the query. -/
  | query {r : Request} (hget : r.method = .get) (h : QueryAsks r.query pattern tests trace) :
    r.Asks pattern tests trace
  /-- It may do so in the body. -/
  | body {r : Request} (hpost : r.method = .post)
      (h : Carries r.body.bytes (askingDocument pattern tests trace)) :
    r.Asks pattern tests trace

variable {pattern : String} {tests : List String} {trace : Bool}

/-! ### There are such requests -/

/-- The query that asks for a conversion. -/
def askingQuery (pattern : String) (tests : List String) (trace : Bool) : List (String × String) :=
  [("regex", pattern)] ++ tests.map (fun t => ("test", t)) ++
    if trace then [("trace", "true")] else []

theorem lastValue?_append (q q' : List (String × String)) (name : String) :
    lastValue? (q ++ q') name = (lastValue? q' name).or (lastValue? q name) := by
  rw [lastValue?, List.reverse_append, List.lookup_append]
  rfl

theorem lastValue?_map_of_ne {name other : String} (h : name ≠ other) (values : List String) :
    lastValue? (values.map fun v => (other, v)) name = none := by
  rw [lastValue?, List.lookup_eq_none_iff]
  intro p hp
  obtain ⟨v, -, rfl⟩ := List.mem_map.1 (List.mem_reverse.1 hp)
  exact bne_iff_ne.2 h

theorem queryAsks_askingQuery :
    QueryAsks (askingQuery pattern tests trace) pattern tests trace := by
  have hlast (name : String) (h : name ≠ "test") :
      lastValue? (askingQuery pattern tests trace) name =
        (lastValue? (if trace then [("trace", "true")] else []) name).or
          (lastValue? [("regex", pattern)] name) := by
    rw [askingQuery, lastValue?_append, lastValue?_append, lastValue?_map_of_ne h, Option.none_or]
  refine ⟨?regex, ?texts, ?joined, ?course⟩
  case regex =>
    rw [hlast _ (by decide)]
    cases trace <;> rfl
  case texts =>
    rw [allValues, askingQuery]
    cases trace <;> simp [List.filter_map, Function.comp_def]
  case joined =>
    rw [hlast _ (by decide)]
    cases trace <;> rfl
  case course =>
    rw [hlast _ (by decide)]
    cases trace <;> rfl

theorem plain_askingDocument : Json.Plain Json.maxDepth (askingDocument pattern tests trace) := by
  have htexts : Json.Plain 974 (.texts tests) :=
    .array (n := 973) (List.forall_mem_map.2 fun t _ => .text t)
  change Json.Plain (974 + 1) (.object (List.map Json.properMember
    [("regex", .ofText pattern), ("tests", .texts tests), ("trace", .bool trace)]))
  refine .object ?_ ?_
  · simp
  · simp only [List.forall_mem_cons]
    exact ⟨.text pattern, htexts, .bool trace, by simp⟩

/-- The bytes of a document carry it. -/
theorem carries_encode_render {v : Json} (h : Json.Plain Json.maxDepth v) :
    Carries (Text.encode (Json.render v).toList) v :=
  ⟨_, Text.decode_encode _, by rw [String.ofList_toList, Json.parse_render h]⟩

/-! ### What such requests ask for -/

/-- What such requests ask for. -/
def Parameters.ofTexts (pattern : String) (tests : List String) (trace : Bool) : Parameters :=
  ⟨.ofText pattern, tests.map .proper, trace⟩

theorem testsOf_texts (ss : List String) : testsOf (.texts ss) = ss.map .proper := by
  rw [Json.texts, testsOf, List.map_map]
  rfl

theorem ofQuery_eq {query : List (String × String)} (h : QueryAsks query pattern tests trace) :
    Parameters.ofQuery query = .ofTexts pattern tests trace := by
  rw [Parameters.ofQuery, Parameters.ofTexts, Parameters.mk.injEq]
  refine ⟨?regex, ?texts, ?course⟩
  case regex =>
    rw [h.pattern_eq]
    rfl
  case texts =>
    rw [h.tests_eq, h.joined_eq]
    cases tests <;> rfl
  case course =>
    rw [h.trace_eq]
    cases trace <;> decide +kernel

theorem ofDocument?_askingDocument :
    Parameters.ofDocument? (askingDocument pattern tests trace) =
      some (.ofTexts pattern tests trace) := by
  have hregex : (askingDocument pattern tests trace).member? "regex" = some (.ofText pattern) := rfl
  have htests : (askingDocument pattern tests trace).member? "tests" = some (.texts tests) := rfl
  have htrace : (askingDocument pattern tests trace).member? "trace" = some (.bool trace) := rfl
  change some (Parameters.mk ((askingDocument pattern tests trace).member? "regex" |>.getD .null)
    (Parameters.testsOfBody (askingDocument pattern tests trace))
    ((askingDocument pattern tests trace).member? "trace" |>.any Json.isTruthy)) = _
  rw [Parameters.testsOfBody, hregex, htests, htrace]
  dsimp only
  rw [testsOf_texts]
  rfl

theorem ofBody_eq {bytes : List UInt8} (h : Carries bytes (askingDocument pattern tests trace)) :
    Parameters.ofBody bytes = .ok (.ofTexts pattern tests trace) := by
  obtain ⟨cs, hdecode, hparse⟩ := h
  have hne : ¬bytes.isEmpty = true := by
    rw [List.isEmpty_iff]
    rintro rfl
    cases hdecode
    simp [Json.parse, Json.skipSpace, Json.readValue, Json.readScalar, bind, Except.bind] at hparse
  rw [Parameters.ofBody, if_neg hne, hdecode]
  dsimp only
  rw [hparse]
  dsimp only
  rw [ofDocument?_askingDocument]
  rfl

/-- Both ways to ask come to the same. -/
theorem Request.Asks.parameters_eq {r : Request} (h : r.Asks pattern tests trace) :
    r.parameters = .ok (.ofTexts pattern tests trace) := by
  cases h with
  | query hget h => rw [Request.parameters, if_pos hget, ofQuery_eq h]
  | body hpost h =>
    have hget : ¬r.method = .get := by rw [hpost]; decide
    rw [Request.parameters, if_neg hget, ofBody_eq h]

end PatternMachines.Service
