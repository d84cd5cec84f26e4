import PatternMachines.Proofs.Arena.Session
import PatternMachines.Proofs.Dfa.Subset
import PatternMachines.Proofs.Pattern.Symbols

/-!
# The automata of a pattern

The three stages from the text of a pattern to a deterministic automaton are put together: reading,
composition and the subset construction. None of them can fail.

## Main results

* `Arena.Isolated.exists_ofNfa`, `Arena.Recognizes.accepts_eq`: determinizing the automaton of a
  fragment.
* `Pattern.exists_ofNfa_toNfa`, `Pattern.accepts_eq`: the deterministic automaton of a pattern.
* `Pattern.accepts_iff_mem_reading`: it accepts the words of the reading of the text.
-/

namespace PatternMachines

namespace Arena

variable {a : Arena} {f : Fragment} {L : Language Symbol} {d : Dfa}

/-- The automaton of an isolated fragment can be determinized. -/
theorem Isolated.exists_ofNfa (h : a.Isolated f) : ∃ d, Dfa.ofNfa (a.toNfa f) = .ok d :=
  Dfa.exists_ofNfa fun _ _ _ hpath => h.mem_states_toNfa hpath

/-- Determinizing the automaton of a fragment keeps the language that the fragment recognizes. -/
theorem Recognizes.accepts_eq (h : a.Recognizes f L) (hd : Dfa.ofNfa (a.toNfa f) = .ok d)
    (w : List Symbol) : ∃ b, d.accepts w = .ok b ∧ (b = true ↔ w ∈ L) := by
  obtain ⟨b, hb, hiff⟩ := (Dfa.determinizes_of_ofNfa hd).accepts_eq w
  refine ⟨b, hb, ?_⟩
  rw [hiff, h.exists_accepting_iff, h.path_iff]
  exact and_iff_right_of_imp fun hw => h.mem_alphabet h.start_mem ((h.path_iff w).2 hw)

end Arena

namespace Pattern

variable {p : Pattern} {d : Dfa}

/-- The fragment of a pattern recognizes the language of the pattern. -/
theorem recognizes_build (p : Pattern) :
    (p.build {}).2.Recognizes (p.build {}).1 p.language :=
  (Session.new.build p).sound.recognizes _ List.mem_cons_self

/-- Every pattern has a deterministic automaton. -/
theorem exists_ofNfa_toNfa (p : Pattern) : ∃ d, Dfa.ofNfa p.toNfa = .ok d :=
  (recognizes_build p).exists_ofNfa

/-- The deterministic automaton of a pattern accepts the language of the pattern. -/
theorem accepts_eq (hd : Dfa.ofNfa p.toNfa = .ok d) (w : List Symbol) :
    ∃ b, d.accepts w = .ok b ∧ (b = true ↔ w ∈ p.language) :=
  (recognizes_build p).accepts_eq hd w

/-- **From text to automaton.** Every text has one reading as a pattern by the grammar. There is a
deterministic automaton of the text, and it accepts a word exactly if the word is in the language of
the reading. -/
theorem accepts_iff_mem_reading :
    (∀ t : LooseText, ∃ r, (∀ p, Reads (Symbol.ofLooseText t) p ↔ p = r) ∧
      ∃ d, Dfa.ofNfa (ofSymbols (Symbol.ofLooseText t)).toNfa = .ok d ∧
        ∀ w, ∃ b, d.accepts w = .ok b ∧ (b = true ↔ w ∈ r.language)) ∧
    ∀ s : String, Dfa.ofText s = Dfa.ofNfa (ofSymbols (Symbol.ofLooseText s)).toNfa := by
  refine ⟨fun t => ⟨ofSymbols (Symbol.ofLooseText t), fun p => reads_iff, ?_⟩, fun s => rfl⟩
  obtain ⟨d, hd⟩ := exists_ofNfa_toNfa (ofSymbols (Symbol.ofLooseText t))
  exact ⟨d, hd, accepts_eq hd⟩

end Pattern

end PatternMachines
