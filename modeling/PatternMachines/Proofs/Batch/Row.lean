import PatternMachines.Batch.Row
import PatternMachines.Proofs.Comparison
import PatternMachines.Proofs.Dfa.FirstSamples
import PatternMachines.Proofs.Dfa.Summary
import PatternMachines.Proofs.Pattern.Trim
import PatternMachines.Proofs.Text.Part

/-!
# The rows of texts

A batch can describe every text: the text has a closed automaton, so that the automaton has a
summary and probes can be found. The probes are far shorter than the texts for which a run of the
machine has not rounds enough, and so the machine agrees with the automaton on all of them.

## Main results

* `Pattern.exists_probes`: the probes and their length.
* `Batch.Row.exists_ofDfa`: the row of an automaton.
* `Batch.Row.ofJson_line_eq`: the row of a text in different lines.
* `Batch.Row.ofJson_text`: the row of a text.
-/

namespace PatternMachines

open PatternMachines.Turing

namespace Pattern

variable {t : LooseText} {d : Dfa}

/-- The probes of the automaton of a text are sifted out of the words of at most three symbols, but
for one symbol of the wildcard, and so they are short. -/
theorem exists_probes (hd : Dfa.ofNfa (ofSymbols (Symbol.ofLooseText t)).toNfa = .ok d)
    {verdict : String → Bool} (hverdict : ∀ w, d.accepts (Symbol.ofText w) = .ok (verdict w)) :
    ∃ ws probes, Dfa.Enumerates d.alphabet 3 ws ∧ d.probes = .ok probes ∧
      probes = (Dfa.sifted 10 verdict ((ws.take 20000).map (Text.join ""))).map Prod.fst ++
        (Symbol.wildcard.find? fun x => !d.alphabet.contains x).toList ∧
      ∀ w ∈ probes, w.length ≤ 998 := by
  obtain ⟨ws, hwords, hprobes⟩ := Dfa.exists_probes_eq_ok hverdict
  refine ⟨ws, _, hwords, hprobes, rfl, List.forall_mem_append.2 ⟨fun w hw => ?_, fun w hw => ?_⟩⟩
  · obtain ⟨word, hword, rfl⟩ := List.mem_map.1 (Dfa.mem_of_mem_sifted hw)
    obtain ⟨hlength, hsymbols⟩ := (hwords.mem_iff word).1 (List.mem_of_mem_take hword)
    have hshort : ∀ x ∈ word, x.length ≤ 1 := fun x hx => by
      obtain ⟨n, rfl⟩ := exists_ofCode_of_mem_alphabet hd (hsymbols x hx)
      exact (Symbol.length_ofCode n).le
    have hjoin := Text.length_join_empty_le hshort
    omega
  · obtain ⟨c, -, rfl⟩ := List.mem_map.1 (List.mem_of_find?_eq_some (Option.mem_toList.1 hw))
    rw [String.length_singleton]
    omega

end Pattern

namespace Batch.Row

/-- An automaton has a row without an error, if it has a summary and the probes can be compared. -/
theorem exists_ofDfa (pattern : Json) {d : Dfa} {s : Dfa.Summary} {probes : List String}
    {checks : List Comparison} (hs : d.summary = .ok s) (hprobes : d.probes = .ok probes)
    (hchecks : Comparison.ofAll d (Machine.ofDfa d) probes = .ok checks) :
    ∃ row, ofDfa pattern d = .ok row ∧ row.error = "" ∧
      row.agreement = if checks.all Comparison.agree then "si" else "no" := by
  rw [ofDfa, hs, hprobes]
  dsimp only [Except.mapError, bind, Except.bind]
  rw [hchecks]
  exact ⟨_, rfl, rfl, rfl⟩

theorem pattern_ofDfa {pattern : Json} {d : Dfa} {row : Row} (h : ofDfa pattern d = .ok row) :
    row.pattern = pattern := by
  obtain ⟨s, -, h⟩ := bind_eq_ok_iff.1 h
  obtain ⟨probes, -, h⟩ := bind_eq_ok_iff.1 h
  obtain ⟨checks, -, h⟩ := bind_eq_ok_iff.1 h
  cases h
  rfl

/-- Every row names its pattern. -/
theorem pattern_ofJson (line : Int) (pattern : Json) : (ofJson line pattern).pattern = pattern := by
  rw [ofJson]
  split
  · rfl
  · split
    · next row hrow =>
      obtain ⟨d, -, hrow⟩ := bind_eq_ok_iff.1 hrow
      split
      · rfl
      · exact pattern_ofDfa hrow
    · rfl

/-- The row of a text is that of its automaton. Only errors would tell of the line. -/
theorem ofJson_eq_of_ofDfa {t : LooseText} {d : Dfa} {row : Row} (line : Int)
    (hd : Dfa.ofNfa (Pattern.ofSymbols (Symbol.ofLooseText t)).toNfa = .ok d)
    (hrow : ofDfa (.text t) d = .ok row) : ofJson line (.text t) = row := by
  rw [ofJson, Pattern.ofJson]
  dsimp only
  rw [hd]
  dsimp only [Except.mapError, bind, Except.bind]
  rw [hrow]
  rfl

theorem exists_ofDfa_of_text {t : LooseText} {d : Dfa}
    (hd : Dfa.ofNfa (Pattern.ofSymbols (Symbol.ofLooseText t)).toNfa = .ok d) :
    ∃ row, ofDfa (.text t) d = .ok row := by
  have hclosed := (Dfa.determinizes_of_ofNfa hd).closed
  obtain ⟨s, hs, -⟩ := hclosed.exists_summary
  obtain ⟨-, probes, -, hprobes, -⟩ := Pattern.exists_probes hd fun w => hclosed.accepts_eq _
  have hchecks :=
    Comparison.ofAll_eq_ok (m := Machine.ofDfa d) (fun w => hclosed.accepts_eq _) probes
  obtain ⟨row, hrow, -⟩ := exists_ofDfa (.text t) hs hprobes hchecks
  exact ⟨row, hrow⟩

/-- The row of a text does not tell of its line. -/
theorem ofJson_line_eq (line line' : Int) (t : LooseText) :
    ofJson line (.text t) = ofJson line' (.text t) := by
  obtain ⟨d, hd⟩ := Pattern.exists_ofNfa_toNfa (Pattern.ofSymbols (Symbol.ofLooseText t))
  obtain ⟨row, hrow⟩ := exists_ofDfa_of_text hd
  rw [ofJson_eq_of_ofDfa line hd hrow, ofJson_eq_of_ofDfa line' hd hrow]

/-- **Rows without errors.** Every text has an automaton, and the automaton has a summary and a
verdict on every text. Its probes are the first ten different texts of either verdict that are put
together from the words of at most three of its symbols, the shorter ones first, and the first
symbol of the wildcard that it does not read. It is compared with its machine on each probe, and the
row of the text in any line tells whether all these checks agree. They do, and the row tells of
agreement and of no error. -/
theorem ofJson_text (line : Int) (t : LooseText) :
    (∃ d s verdict ws probes checks,
      Dfa.ofNfa (Pattern.ofSymbols (Symbol.ofLooseText t)).toNfa = .ok d ∧
      d.summary = .ok s ∧ (∀ w, d.accepts (Symbol.ofText w) = .ok (verdict w)) ∧
      Dfa.Enumerates d.alphabet 3 ws ∧ d.probes = .ok probes ∧
      probes = (Dfa.sifted 10 verdict ((ws.take 20000).map (Text.join ""))).map Prod.fst ++
        (Symbol.wildcard.find? fun x => !d.alphabet.contains x).toList ∧
      Comparison.ofAll d (Machine.ofDfa d) probes = .ok checks ∧
      checks.map Comparison.input = probes ∧ (∀ c ∈ checks, c.agree = true) ∧
      ofDfa (.text t) d = .ok (ofJson line (.text t)) ∧
      (ofJson line (.text t)).agreement = if checks.all Comparison.agree then "si" else "no") ∧
    (ofJson line (.text t)).error = "" ∧ (ofJson line (.text t)).agreement = "si" ∧
    ∀ text : String, ofText line text = ofJson line (.text text) := by
  obtain ⟨d, hd⟩ := Pattern.exists_ofNfa_toNfa (Pattern.ofSymbols (Symbol.ofLooseText t))
  have hclosed := (Dfa.determinizes_of_ofNfa hd).closed
  have hmarker := Pattern.endMarker_edge_eq_none hd
  obtain ⟨s, hs, -⟩ := hclosed.exists_summary
  obtain ⟨verdict, hverdict⟩ : ∃ verdict : String → Bool,
      ∀ w, d.accepts (Symbol.ofText w) = .ok (verdict w) := ⟨_, fun w => hclosed.accepts_eq _⟩
  obtain ⟨ws, probes, hwords, hprobes, hsifted, hshort⟩ := Pattern.exists_probes hd hverdict
  have hchecks := Comparison.ofAll_eq_ok (m := Machine.ofDfa d) hverdict probes
  have hagree : ∀ c ∈ probes.map fun w => Comparison.mk w (verdict w) ((Machine.ofDfa d).run w),
      c.agree = true := List.forall_mem_map.2 fun w hw =>
    Comparison.agree_of_length_le hclosed hmarker (hverdict w) (hshort w hw)
  obtain ⟨row, hrow, herror, hagreement⟩ := exists_ofDfa (.text t) hs hprobes hchecks
  have hinput : (probes.map fun w => Comparison.mk w (verdict w) ((Machine.ofDfa d).run w)).map
      Comparison.input = probes := by
    rw [List.map_map]
    exact List.map_id probes
  rw [ofJson_eq_of_ofDfa line hd hrow]
  refine ⟨⟨d, s, verdict, ws, probes, _, hd, hs, hverdict, hwords, hprobes, hsifted, hchecks,
    hinput, hagree, hrow, hagreement⟩, herror, ?_, fun text => rfl⟩
  rw [hagreement, if_pos (List.all_eq_true.2 hagree)]

end Batch.Row

end PatternMachines
