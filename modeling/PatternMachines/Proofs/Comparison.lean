import PatternMachines.Comparison
import PatternMachines.Proofs.Pattern.Automaton
import PatternMachines.Proofs.Turing.Simulation

/-!
# Where an automaton and its machine agree

The automaton of a pattern never reads the end marker. So its machine gives the same verdict on all
texts for which the transitions that a run may take are enough, and on longer texts the machine
rejects.

## Main results

* `Comparison.agree_eq_false_iff`: the comparison of an automaton with its machine.
* `Pattern.endMarker_edge_eq_none`: no edge of a pattern's automaton reads the end marker.
* `Pattern.machine_accepts_iff`: the machine of a pattern, and the comparisons with it.
-/

namespace PatternMachines

open PatternMachines.Turing

namespace Comparison

variable {d : Dfa} {m : Machine} {w : String} {b : Bool}

theorem of_eq_ok (hb : d.accepts (Symbol.ofText w) = .ok b) :
    Comparison.of d m w = .ok ⟨w, b, m.run w⟩ := by
  rw [Comparison.of, hb]
  rfl

theorem ofAll_eq_ok {verdict : String → Bool}
    (hverdict : ∀ w, d.accepts (Symbol.ofText w) = .ok (verdict w)) (ws : List String) :
    ofAll d m ws = .ok (ws.map fun w => ⟨w, verdict w, m.run w⟩) := by
  induction ws with
  | nil => rfl
  | cons w ws ih =>
    rw [ofAll] at ih ⊢
    rw [List.mapM_cons, of_eq_ok (hverdict w), ih]
    rfl

/-- An automaton and its machine disagree on the texts that are accepted and for which a run has not
rounds enough. -/
theorem agree_eq_false_iff (hclosed : d.Closed)
    (hmarker : ∀ (id : StateId) (s : DfaState), d.states[id]? = some s →
      s.edges[Symbol.endMarker]? = none) (hb : d.accepts (Symbol.ofText w) = .ok b) :
    (Comparison.mk w b ((Machine.ofDfa d).run w)).agree = false ↔
      b = true ∧ ¬w.length + 2 ≤ maxSteps := by
  have hmachine : ((Machine.ofDfa d).run w).accepted = true ↔ _ :=
    Machine.accepts_ofDfa_iff hclosed hmarker
  rw [hb, Except.ok.injEq] at hmachine
  rw [agree, beq_eq_false_iff_ne]
  cases b with
  | true => simp [hmachine]
  | false => simp [hmachine]

theorem agree_of_length_le (hclosed : d.Closed)
    (hmarker : ∀ (id : StateId) (s : DfaState), d.states[id]? = some s →
      s.edges[Symbol.endMarker]? = none) (hb : d.accepts (Symbol.ofText w) = .ok b)
    (hw : w.length ≤ 998) : (Comparison.mk w b ((Machine.ofDfa d).run w)).agree = true := by
  rw [← Bool.not_eq_false, agree_eq_false_iff hclosed hmarker hb, maxSteps]
  omega

end Comparison

namespace Pattern

variable {d : Dfa}

/-- No edge of the automaton of a pattern that has been read reads the end marker. -/
theorem endMarker_edge_eq_none {s : List Symbol} (hd : Dfa.ofNfa (ofSymbols s).toNfa = .ok d)
    (id : StateId) (st : DfaState) (hst : d.states[id]? = some st) :
    st.edges[Symbol.endMarker]? = none := by
  by_contra hedge
  obtain ⟨target, htarget⟩ := Option.ne_none_iff_exists'.1 hedge
  have hmem := (Dfa.determinizes_of_ofNfa hd).mem_alphabet hst htarget
  exact not_isReserved_of_mem_symbols ((mem_alphabet_build _ _).1 hmem) rfl

/-- **The machine of a pattern.** The machine of the automaton of a pattern accepts the texts of at
most 998 characters that the automaton accepts. A comparison of the two, on one text or on several,
finds agreement on all texts of at most 998 characters, and disagreement on just those longer texts
that the automaton accepts. -/
theorem machine_accepts_iff (t : LooseText) :
    ∃ d, Dfa.ofNfa (ofSymbols (Symbol.ofLooseText t)).toNfa = .ok d ∧
      (∀ w : String, ∃ b, d.accepts (Symbol.ofText w) = .ok b ∧
        ((Machine.ofDfa d).accepts w = true ↔ b = true ∧ w.length ≤ 998) ∧
        ∃ c, Comparison.of d (Machine.ofDfa d) w = .ok c ∧ c.input = w ∧
          (w.length ≤ 998 → c.agree = true) ∧
          (998 < w.length → (c.agree = false ↔ b = true))) ∧
      ∀ ws : List String, ∃ cs, Comparison.ofAll d (Machine.ofDfa d) ws = .ok cs ∧
        cs.map Comparison.input = ws ∧ ∀ c ∈ cs,
          (c.input.length ≤ 998 → c.agree = true) ∧
          (998 < c.input.length →
            (c.agree = false ↔ d.accepts (Symbol.ofText c.input) = .ok true)) := by
  obtain ⟨d, hd⟩ := exists_ofNfa_toNfa (ofSymbols (Symbol.ofLooseText t))
  have hclosed := (Dfa.determinizes_of_ofNfa hd).closed
  have hmarker := endMarker_edge_eq_none hd
  obtain ⟨verdict, hverdict⟩ : ∃ verdict : String → Bool,
      ∀ w, d.accepts (Symbol.ofText w) = .ok (verdict w) := ⟨_, fun w => hclosed.accepts_eq _⟩
  have hbudget (w : String) : w.length + 2 ≤ maxSteps ↔ w.length ≤ 998 := by
    rw [maxSteps]
    omega
  have hagree (w : String) := Comparison.agree_eq_false_iff hclosed hmarker (hverdict w)
  have hshort (w : String) (hw : w.length ≤ 998) :
      (Comparison.mk w (verdict w) ((Machine.ofDfa d).run w)).agree = true := by
    rw [← Bool.not_eq_false, hagree w, hbudget w]
    exact fun h => h.2 hw
  have hlong (w : String) (hw : 998 < w.length) :
      (Comparison.mk w (verdict w) ((Machine.ofDfa d).run w)).agree = false ↔ verdict w = true := by
    rw [hagree w, hbudget w]
    exact and_iff_left (Nat.not_le.2 hw)
  refine ⟨d, hd, fun w => ⟨_, hverdict w, ?_, _, Comparison.of_eq_ok (hverdict w), rfl, hshort w,
    hlong w⟩, fun ws => ⟨_, Comparison.ofAll_eq_ok hverdict ws, ?_, ?_⟩⟩
  · rw [Machine.accepts_ofDfa_iff hclosed hmarker, hverdict w, Except.ok.injEq, hbudget w]
  · rw [List.map_map]
    exact List.map_id ws
  · rw [List.forall_mem_map]
    intro w _
    rw [hverdict w, Except.ok.injEq]
    exact ⟨hshort w, hlong w⟩

end Pattern

end PatternMachines
