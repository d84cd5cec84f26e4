import PatternMachines.Proofs.Service.Conversion
import PatternMachines.Proofs.Turing.Jflap.Characters

/-!
# The JFLAP documents that are served

Every pattern that is not empty has a document, which is served as it is. It should be text that XML
allows. It is so just if no character that is not allowed is escaped in the pattern.

## Main results

* `Service.jflapResponse_eq_ok`, `Service.respond_jflap`: the document of the answer.
* `Service.document_allowed_iff`: the patterns whose documents are legal text.
-/

namespace PatternMachines.Service

open Text.Markup PatternMachines.Turing

variable {pattern text : String} {tests : List String} {trace : Bool} {d : Dfa}

/-- A text holds no half of a pair that could be a symbol. -/
theorem firstHalf_proper (pattern : String) (d : Dfa) : firstHalf? (.proper pattern) d = none := by
  have hcodes : ∀ n ∈ LooseText.codes pattern, ¬(Text.isHalf n &&
      d.alphabet.contains (Symbol.ofCode n)) = true := by
    intro n hn
    obtain ⟨c, -, rfl⟩ := List.mem_map.1 hn
    simp [Symbol.isHalf_toNat]
  rw [firstHalf?, List.find?_eq_none.2 hcodes]
  rfl

theorem jflapResponse_eq_ok
    (hd : Dfa.ofNfa (Pattern.ofSymbols (Symbol.ofText pattern)).toNfa = .ok d)
    (htext : (Machine.ofDfa d).toJflap = .ok text) :
    jflapResponse (.ofTexts pattern tests trace) = .ok {
      contentType := "application/xml; charset=utf-8"
      content := .file text (attachment pattern)
      exposed := some "Content-Disposition, Content-Length, Content-Type" } := by
  have hnumber : firstNumberKind? ⟨Pattern.ofSymbols (Symbol.ofText pattern), []⟩
      (Machine.ofDfa d) = none := by
    simp [firstNumberKind?]
  rw [jflapResponse, Parameters.ofTexts]
  dsimp only [Json.ofText, Pattern.ofJson, Except.mapError, bind, Except.bind, automatonOf,
    Symbol.ofLooseText, LooseText.carried]
  rw [hd]
  dsimp only
  rw [hnumber]
  dsimp only
  rw [htext]
  dsimp only
  rw [firstHalf_proper]
  rfl

/-- The document of a pattern is served, however it is asked for. -/
theorem respond_jflap (hd : Dfa.ofNfa (Pattern.ofSymbols (Symbol.ofText pattern)).toNfa = .ok d)
    (htext : (Machine.ofDfa d).toJflap = .ok text) (hpattern : pattern ≠ "") {r : Request}
    (hr : r.Asks pattern tests trace) (hpath : r.path = "/api/regex-to-tm/jff/") (server : Server) :
    respond? server r = some (.ok {
      contentType := "application/xml; charset=utf-8"
      content := .file text (attachment pattern)
      exposed := some "Content-Disposition, Content-Length, Content-Type" }) := by
  have htruthy : (Parameters.ofTexts pattern tests trace).pattern.isTruthy = true := by
    simpa [Parameters.ofTexts, Json.ofText, Json.isTruthy] using hpattern
  have hendpoint : Endpoint.ofPath? r.path = some .jflap := by rw [hpath]; decide
  have hallows : Endpoint.jflap.allows r.method = true := by
    cases hr with
    | query hget => rw [hget]; rfl
    | body hpost => rw [hpost]; rfl
  rw [respond?, hendpoint, Option.map_some, if_pos hallows, Endpoint.answer,
    convert_eq_ok hr.parameters_eq htruthy (jflapResponse_eq_ok hd htext) rfl]

/-- **Which documents are legal text.** Every pattern has a document, and it is served if the
pattern is not empty. Of the characters that XML does not allow, it holds those that are escaped in
the pattern. So it is legal text just if no such character is escaped, as is the case in patterns
that are legal text themselves. -/
theorem document_allowed_iff (pattern : String) : ∃ d text,
    Dfa.ofNfa (Pattern.ofSymbols (Symbol.ofText pattern)).toNfa = .ok d ∧
    (Machine.ofDfa d).toJflap = .ok text ∧
    (pattern ≠ "" → ∀ (server : Server) (r : Request) (tests : List String) (trace : Bool),
      r.Asks pattern tests trace → r.path = "/api/regex-to-tm/jff/" →
      ∃ response, respond? server r = some (.ok response) ∧ response.status = 200 ∧
        response.content = .file text (attachment pattern)) ∧
    (∀ c, isAllowed c = false →
      (c ∈ text.toList ↔ String.singleton c ∈ Pattern.escaped (Symbol.ofText pattern))) ∧
    ((∀ c ∈ text.toList, isAllowed c = true) ↔
      ∀ c, String.singleton c ∈ Pattern.escaped (Symbol.ofText pattern) → isAllowed c = true) ∧
    ((∀ c ∈ pattern.toList, isAllowed c = true) → ∀ c ∈ text.toList, isAllowed c = true) := by
  obtain ⟨d, hd⟩ := Pattern.exists_ofNfa_toNfa (Pattern.ofSymbols (Symbol.ofText pattern))
  obtain ⟨text, htext, -⟩ := (Pattern.portable_of_text hd).toJflap_eq_ok
  have hholds (c : Char) (hc : isAllowed c = false) :=
    Pattern.mem_toJflap_iff_mem_escaped hd htext hc
  have hlegal : (∀ c ∈ text.toList, isAllowed c = true) ↔
      ∀ c, String.singleton c ∈ Pattern.escaped (Symbol.ofText pattern) → isAllowed c = true := by
    refine forall_congr' fun c => ?_
    cases hc : isAllowed c with
    | true => simp
    | false => simp [hholds c hc]
  refine ⟨d, text, hd, htext, ?served, hholds, hlegal, fun hpattern => hlegal.2 fun c hc => ?_⟩
  case served =>
    intro hpattern server r tests trace hr hpath
    exact ⟨_, respond_jflap hd htext hpattern hr hpath server, rfl, rfl⟩
  · obtain ⟨b, hb, heq⟩ := List.mem_map.1 (Pattern.mem_of_mem_escaped hc)
    obtain rfl : b = c := by simpa using congrArg String.toList heq
    exact hpattern b hb

/-- The document of an escaped control character holds this character, which is not allowed. -/
theorem document_control : ∃ d text,
    Dfa.ofNfa (Pattern.ofSymbols (Symbol.ofText "\\\x01")).toNfa = .ok d ∧
    (Machine.ofDfa d).toJflap = .ok text ∧ '\x01' ∈ text.toList ∧ isAllowed '\x01' = false := by
  obtain ⟨d, hd⟩ := Pattern.exists_ofNfa_toNfa (Pattern.ofSymbols (Symbol.ofText "\\\x01"))
  obtain ⟨text, htext, -⟩ := (Pattern.portable_of_text hd).toJflap_eq_ok
  have hrefused : isAllowed '\x01' = false := by decide
  have hescaped : String.singleton '\x01' ∈ Pattern.escaped (Symbol.ofText "\\\x01") := by decide
  exact ⟨d, text, hd, htext, (Pattern.mem_toJflap_iff_mem_escaped hd htext hrefused).2 hescaped,
    hrefused⟩

end PatternMachines.Service
