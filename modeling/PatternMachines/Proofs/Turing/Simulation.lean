import Mathlib.Data.List.Infix
import PatternMachines.Proofs.Turing.OfDfa
import PatternMachines.Proofs.Turing.Rounds

/-!
# Runs of the machine of an automaton

The machine of a deterministic automaton follows the word on its tape from state to state and does
not change the tape. After the last symbol it reads the end marker and decides. That costs one
transition for each symbol and one for the end marker, and one round more is needed to see the
decision, so the number of transitions that a run may take bounds the words on which the machine can
tell what the automaton tells.

## Main definitions

* `Turing.readingAt`: the configurations in the middle of the word.
* `Turing.decided`: the configurations after the decision.

## Main results

* `Turing.Machine.round_edge`, `Turing.Machine.round_stuck`, `Turing.Machine.round_end`,
  `Turing.Machine.round_decided`: one round in such a configuration.
* `Turing.Machine.after_initial`, `Turing.Machine.after_initial_end`: the configurations to which
  the transitions lead.
* `Turing.Machine.run_stuck`, `Turing.Machine.run_decided`, `Turing.Machine.run_stopped`: how a run
  ends.
* `Turing.Machine.accepts_ofDfa_iff`: the verdict of the machine on a text.
-/

namespace PatternMachines.Turing

open Std

/-- The configuration in which the machine of an automaton has read the word `u`, has come to the
state `id` and has the word `v` before it. -/
def readingAt (id : StateId) (u v : List Symbol) : Configuration where
  state := some (stateName id)
  tape := u ++ v ++ [Symbol.endMarker]
  head := u.length

/-- The configuration after the decision at the end of the word `u`. -/
def decided (accepts : Bool) (u : List Symbol) : Configuration where
  state := some (if accepts then acceptState else rejectState)
  tape := u ++ [Symbol.endMarker]
  head := u.length + 1

namespace Machine

section Rounds

variable {m : Machine} {c : Configuration} {t : Transition} {x : Symbol}

/-- A round in a configuration with its head on the tape, in which a transition is taken. -/
theorem round_of_transitionAt (hverdict : m.verdict c = none) (hhead : 0 ≤ c.head)
    (hx : c.tape[c.head.toNat]? = some x) (ht : m.transitionAt c.state x = some t) :
    m.round c = .takes t (apply c t) := by
  have hreach : m.reachHead c = c := by
    rw [reachHead, if_neg (Int.not_lt.2 hhead), hx]
  have happlicable : m.applicable c = some t := by
    rw [applicable, hx, Option.bind_some, ht]
  rw [round, hverdict]
  simp only [hreach, happlicable]

/-- A round in a configuration with its head on the tape, in which no transition fits. -/
theorem round_of_no_transition (hverdict : m.verdict c = none) (hhead : 0 ≤ c.head)
    (hx : c.tape[c.head.toNat]? = some x) (ht : m.transitionAt c.state x = none) :
    m.round c = .ends .noTransition c := by
  have hreach : m.reachHead c = c := by
    rw [reachHead, if_neg (Int.not_lt.2 hhead), hx]
  have happlicable : m.applicable c = none := by
    rw [applicable, hx, Option.bind_some, ht]
  rw [round, hverdict]
  simp only [hreach, happlicable]

end Rounds

section OfDfa

variable {d : Dfa} {id target : StateId} {s : DfaState} {x : Symbol} {u v word : List Symbol}
  {c : Configuration} {b : Bool} {k : Nat}

theorem contains_accepting_ofDfa {q : String} :
    (ofDfa d).accepting.contains q = true ↔ q = acceptState := by
  rw [ofDfa, ExtTreeSet.contains_iff_mem, ExtTreeSet.mem_ofList, List.contains_iff_mem,
    List.mem_singleton]

theorem verdict_ofDfa_stateName (hc : c.state = some (stateName id)) :
    (ofDfa d).verdict c = none := by
  have haccept : ¬(ofDfa d).accepting.contains (stateName id) = true := fun h =>
    stateName_ne_acceptState id (contains_accepting_ofDfa.1 h)
  have hreject : some (stateName id) ≠ (ofDfa d).reject := fun h =>
    stateName_ne_rejectState id (Option.some_inj.1 h)
  rw [verdict, hc, Option.any_some, if_neg haccept, if_neg hreject]

theorem verdict_ofDfa_acceptState (hc : c.state = some acceptState) :
    (ofDfa d).verdict c = some .accept := by
  rw [verdict, hc, Option.any_some, if_pos (contains_accepting_ofDfa.2 rfl)]

theorem verdict_ofDfa_rejectState (hc : c.state = some rejectState) :
    (ofDfa d).verdict c = some .rejectState := by
  have haccept : ¬(ofDfa d).accepting.contains rejectState = true := fun h =>
    absurd (contains_accepting_ofDfa.1 h) (by decide)
  rw [verdict, hc, Option.any_some, if_neg haccept]
  exact if_pos rfl

theorem getElem?_tape_readingAt :
    (readingAt id u (x :: v)).tape[(readingAt id u (x :: v)).head.toNat]? = some x := by
  simp [readingAt]

/-- One round after the decision the run ends with it. -/
theorem round_decided :
    (ofDfa d).round (decided b u) = .ends (if b then .accept else .rejectState) (decided b u) := by
  cases b with
  | true => exact round_of_verdict (verdict_ofDfa_acceptState rfl)
  | false => exact round_of_verdict (verdict_ofDfa_rejectState rfl)

variable (hmarker : ∀ (id : StateId) (s : DfaState), d.states[id]? = some s →
  s.edges[Symbol.endMarker]? = none)

include hmarker

/-- The machine follows an edge. -/
theorem round_edge (hs : d.states[id]? = some s) (htarget : s.edges[x]? = some target) :
    (ofDfa d).round (readingAt id u (x :: v)) =
      .takes ⟨stateName id, x, stateName target, x, moveRight⟩ (readingAt target (u ++ [x]) v) := by
  have hx : x ≠ Symbol.endMarker := by
    rintro rfl
    rw [hmarker id s hs] at htarget
    cases htarget
  have ht : (ofDfa d).transitionAt (some (stateName id)) x =
      some ⟨stateName id, x, stateName target, x, moveRight⟩ := by
    rw [transitionAt, Option.bind_some, findTransition_ofDfa hmarker hs hx, htarget]
    rfl
  have hafter : apply (readingAt id u (x :: v))
      ⟨stateName id, x, stateName target, x, moveRight⟩ = readingAt target (u ++ [x]) v := by
    simp [apply, readingAt, moveRight, moveLeft]
  rw [round_of_transitionAt (verdict_ofDfa_stateName rfl) (Int.natCast_nonneg _)
    getElem?_tape_readingAt ht, hafter]

/-- The machine stops where there is no edge. -/
theorem round_stuck (hs : d.states[id]? = some s) (hx : x ≠ Symbol.endMarker)
    (htarget : s.edges[x]? = none) : (ofDfa d).round (readingAt id u (x :: v)) =
      .ends .noTransition (readingAt id u (x :: v)) := by
  have ht : (ofDfa d).transitionAt (some (stateName id)) x = none := by
    rw [transitionAt, Option.bind_some, findTransition_ofDfa hmarker hs hx, htarget]
    rfl
  exact round_of_no_transition (verdict_ofDfa_stateName rfl) (Int.natCast_nonneg _)
    getElem?_tape_readingAt ht

/-- At the end of the word the machine decides and leaves the word. -/
theorem round_end (hs : d.states[id]? = some s) : (ofDfa d).round (readingAt id u []) =
    .takes ⟨stateName id, Symbol.endMarker, if s.accepting then acceptState else rejectState,
      Symbol.endMarker, moveRight⟩ (decided s.accepting u) := by
  have ht : (ofDfa d).transitionAt (some (stateName id)) Symbol.endMarker = some _ :=
    findTransition_ofDfa_endMarker hmarker hs
  have hhead : (readingAt id u []).tape[(readingAt id u []).head.toNat]? =
      some Symbol.endMarker := by
    simp [readingAt]
  have hafter : apply (readingAt id u []) ⟨stateName id, Symbol.endMarker,
      if s.accepting then acceptState else rejectState, Symbol.endMarker, moveRight⟩ =
        decided s.accepting u := by
    simp [apply, readingAt, decided, moveRight, moveLeft]
  rw [round_of_transitionAt (verdict_ofDfa_stateName rfl) (Int.natCast_nonneg _) hhead ht, hafter]

/-- The transitions follow the automaton through a word. -/
theorem after_readingAt (hfollow : d.follow id v = some target) (rest : List Symbol) :
    (ofDfa d).after v.length (readingAt id u (v ++ rest)) =
      some (readingAt target (u ++ v) rest) := by
  induction v generalizing id u with
  | nil =>
    cases hfollow
    rw [List.append_nil]
    rfl
  | cons x v ih =>
    cases hs : d.states[id]? with
    | none =>
      rw [Dfa.follow, hs] at hfollow
      cases hfollow
    | some s =>
      rw [Dfa.follow_cons hs, Option.bind_eq_some_iff] at hfollow
      obtain ⟨j, hj, hfollow⟩ := hfollow
      rw [List.length_cons, List.cons_append, after_succ_of_takes (round_edge hmarker hs hj),
        ih hfollow, List.append_assoc]
      rfl

/-- After `k` transitions the machine has read the first `k` symbols, if the automaton can read
them. -/
theorem after_initial (hk : k ≤ word.length) (hfollow : d.follow d.start (word.take k) = some id) :
    (ofDfa d).after k (readingAt d.start [] word) =
      some (readingAt id (word.take k) (word.drop k)) := by
  have hafter := after_readingAt hmarker (u := []) hfollow (word.drop k)
  rwa [List.take_append_drop, List.length_take_of_le hk, List.nil_append] at hafter

/-- After one transition more than the word is long the machine has decided. -/
theorem after_initial_end (hfollow : d.follow d.start word = some id)
    (hs : d.states[id]? = some s) : (ofDfa d).after (word.length + 1) (readingAt d.start [] word) =
      some (decided s.accepting word) := by
  have hafter := after_readingAt hmarker (u := []) hfollow []
  rw [List.append_nil, List.nil_append] at hafter
  rw [after_add, hafter, Option.bind_some, after_succ_of_takes (round_end hmarker hs)]
  rfl

end OfDfa

/-! ### Whole runs -/

section Run

variable {d : Dfa} {i : StateId} {w : String} {word : List Symbol} {k : Nat} {r : Run}

theorem endMarker_mem_ofText_iff : Symbol.endMarker ∈ Symbol.ofText w ↔ '#' ∈ w.toList := by
  rw [Symbol.ofText, List.mem_map]
  constructor
  · rintro ⟨c, hc, heq⟩
    have hlist := congrArg String.toList heq
    rw [String.toList_singleton] at hlist
    obtain rfl : c = '#' := List.singleton_inj.1 hlist
    exact hc
  · intro h
    exact ⟨'#', h, rfl⟩

/-- The machine refuses the texts that hold the end marker as a symbol. -/
theorem holdsEndMarker_ofDfa_iff :
    (ofDfa d).holdsEndMarker w = true ↔ Symbol.endMarker ∈ Symbol.ofText w := by
  have hholds : (ofDfa d).holdsEndMarker w = true ↔ ['#'] <:+: w.toList := occursIn_iff_isInfix
  rw [hholds, List.singleton_infix_iff, endMarker_mem_ofText_iff]

theorem initial_ofDfa : (ofDfa d).initial w = readingAt d.start [] (Symbol.ofText w) := by
  have htape : (ofDfa d).initialTape w = Symbol.ofText w ++ [Symbol.endMarker] := by
    rw [initialTape]
    split
    · next h => exact absurd h (List.append_ne_nil_of_right_ne_nil _ (List.cons_ne_nil _ _))
    · rfl
  rw [initial, htape]
  rfl

/-- A run on a text without the end marker reads the word of the text from the start of the
automaton. -/
theorem run_ofDfa_eq (hw : Symbol.endMarker ∉ Symbol.ofText w) : (ofDfa d).run w =
    (ofDfa d).runFrom 0 maxSteps (readingAt d.start [] (Symbol.ofText w)) := by
  rw [run_eq_runFrom (holdsEndMarker_ofDfa_iff.not.2 hw), initial_ofDfa]

theorem tape_readingAt_take_drop (id : StateId) (word : List Symbol) (k : Nat) :
    (readingAt id (word.take k) (word.drop k)).tape = word ++ [Symbol.endMarker] := by
  simp only [readingAt, List.take_append_drop]

variable (hclosed : d.Closed) (hmarker : ∀ (id : StateId) (s : DfaState), d.states[id]? = some s →
  s.edges[Symbol.endMarker]? = none)

include hclosed hmarker

/-- A run ends at the first symbol that the automaton cannot read. -/
theorem run_stuck (hword : Symbol.endMarker ∉ word)
    (hk : IsGreatest (d.readableLengths d.start word) k)
    (hr : (ofDfa d).runFrom 0 maxSteps (readingAt d.start [] word) = r) (hlt : k < word.length)
    (hlimit : k < maxSteps) : r.reason = .noTransition ∧ r.steps = k ∧
      ∃ i, r.final = readingAt i (word.take k) (word.drop k) := by
  obtain ⟨i, hi⟩ := Dfa.exists_follow_of_isGreatest hk (Nat.le_refl k)
  obtain ⟨s, hs⟩ := Dfa.mem_states_iff.1 (hclosed.mem_states_of_follow hclosed.start_mem hi)
  have hget : word[k]? = some word[k] := List.getElem?_eq_getElem hlt
  have hx : word[k] ≠ Symbol.endMarker := fun h => hword (h ▸ List.getElem_mem hlt)
  have hround : (ofDfa d).round (readingAt i (word.take k) (word.drop k)) =
      .ends .noTransition (readingAt i (word.take k) (word.drop k)) := by
    rw [List.drop_eq_getElem_cons hlt]
    exact round_stuck hmarker hs hx (Dfa.edge_eq_none_of_isGreatest hk hget hi hs)
  obtain ⟨hreason, hsteps, hfinal⟩ :=
    runFrom_eq_of_ends 0 hlimit (after_initial hmarker (Nat.le_of_lt hlt) hi) hround
  rw [hr] at hreason hsteps hfinal
  exact ⟨hreason, hsteps.trans (Nat.zero_add k), i, hfinal⟩

/-- A run on a word that the automaton can read ends with the verdict of the automaton. -/
theorem run_decided (hr : (ofDfa d).runFrom 0 maxSteps (readingAt d.start [] word) = r)
    (hi : d.follow d.start word = some i) (hlimit : word.length + 1 < maxSteps) :
    r.reason = (if d.acceptsAt i then .accept else .rejectState) ∧ r.steps = word.length + 1 ∧
      r.final = decided (d.acceptsAt i) word := by
  obtain ⟨s, hs⟩ := Dfa.mem_states_iff.1 (hclosed.mem_states_of_follow hclosed.start_mem hi)
  have haccepts : d.acceptsAt i = s.accepting := by rw [Dfa.acceptsAt, hs, Option.any_some]
  obtain ⟨hreason, hsteps, hfinal⟩ :=
    runFrom_eq_of_ends 0 hlimit (after_initial_end hmarker hi hs) round_decided
  rw [hr] at hreason hsteps hfinal
  rw [haccepts]
  exact ⟨hreason, hsteps.trans (Nat.zero_add _), hfinal⟩

/-- The transitions that a run may take are used up while the automaton reads, or with the
decision. -/
theorem exists_after_maxSteps (hk : IsGreatest (d.readableLengths d.start word) k)
    (hstuck : ¬(k < word.length ∧ k < maxSteps))
    (hdecided : ¬(k = word.length ∧ word.length + 1 < maxSteps)) :
    ∃ c, (ofDfa d).after maxSteps (readingAt d.start [] word) = some c ∧
      c.tape = word ++ [Symbol.endMarker] := by
  rcases Nat.lt_or_ge k maxSteps with hlimit | hlimit
  -- The word is read to its end, and the decision takes the last transition.
  · have hlength : k = word.length :=
      Nat.le_antisymm hk.1.1 (Nat.not_lt.1 fun hlt => hstuck ⟨hlt, hlimit⟩)
    have hlast : word.length + 1 = maxSteps :=
      Nat.le_antisymm (hlength ▸ hlimit) (Nat.not_lt.1 fun hlt => hdecided ⟨hlength, hlt⟩)
    obtain ⟨i, hi⟩ := Dfa.exists_follow_of_isGreatest hk (Nat.le_refl k)
    rw [hlength, List.take_length] at hi
    obtain ⟨s, hs⟩ := Dfa.mem_states_iff.1 (hclosed.mem_states_of_follow hclosed.start_mem hi)
    exact ⟨_, hlast ▸ after_initial_end hmarker hi hs, rfl⟩
  · obtain ⟨i, hi⟩ := Dfa.exists_follow_of_isGreatest hk hlimit
    exact ⟨_, after_initial hmarker (Nat.le_trans hlimit hk.1.1) hi, tape_readingAt_take_drop _ _ _⟩

/-- All other runs end where the transitions that they may take are used up. -/
theorem run_stopped (hk : IsGreatest (d.readableLengths d.start word) k)
    (hr : (ofDfa d).runFrom 0 maxSteps (readingAt d.start [] word) = r)
    (hstuck : ¬(k < word.length ∧ k < maxSteps))
    (hdecided : ¬(k = word.length ∧ word.length + 1 < maxSteps)) :
    r.reason = .stepLimit ∧ r.steps = maxSteps ∧ r.final.tape = word ++ [Symbol.endMarker] := by
  obtain ⟨c, hafter, htape⟩ := exists_after_maxSteps hclosed hmarker hk hstuck hdecided
  obtain ⟨hreason, hsteps, hfinal⟩ := runFrom_eq_of_after 0 hafter
  rw [hr] at hreason hsteps hfinal
  exact ⟨hreason, hsteps.trans (Nat.zero_add _), hfinal ▸ htape⟩

/-- A machine accepts the texts that the automaton accepts and for which a run has rounds enough. -/
theorem accepts_ofDfa_iff : (ofDfa d).accepts w = true ↔
      d.accepts (Symbol.ofText w) = .ok true ∧ w.length + 2 ≤ maxSteps := by
  rw [hclosed.accepts_eq, Except.ok.injEq, accepts, Run.accepted, beq_iff_eq]
  by_cases hw : Symbol.endMarker ∈ Symbol.ofText w
  · rw [run, if_pos (holdsEndMarker_ofDfa_iff.2 hw), Dfa.follow_eq_none_of_mem hmarker hw]
    simp
  have hlength : (Symbol.ofText w).length = w.length := by
    rw [Symbol.ofText, List.length_map, String.length_toList]
  have hrun := (run_ofDfa_eq (d := d) hw).symm
  obtain ⟨k, hk⟩ := Dfa.exists_isGreatest_readableLengths d d.start (Symbol.ofText w)
  by_cases hlt : k < (Symbol.ofText w).length
  · rw [Dfa.follow_eq_none_of_isGreatest hk hlt]
    by_cases hlimit : k < maxSteps
    · simp [(run_stuck hclosed hmarker hw hk hrun hlt hlimit).1]
    · simp [(run_stopped hclosed hmarker hk hrun (fun h => hlimit h.2)
        (fun h => Nat.ne_of_lt hlt h.1)).1]
  · obtain ⟨i, hi⟩ := Dfa.exists_follow_of_isGreatest hk (Nat.le_refl k)
    rw [List.take_of_length_le (Nat.not_lt.1 hlt)] at hi
    rw [hi, Option.any_some, ← hlength]
    by_cases hlimit : (Symbol.ofText w).length + 1 < maxSteps
    · have hrounds : (Symbol.ofText w).length + 2 ≤ maxSteps := hlimit
      rw [(run_decided hclosed hmarker hrun hi hlimit).1, and_iff_left hrounds]
      cases d.acceptsAt i with
      | true => simp
      | false => simp
    · rw [(run_stopped hclosed hmarker hk hrun (fun h => hlt h.1) (fun h => hlimit h.2)).1]
      exact iff_of_false (by decide) fun h => hlimit h.2

end Run

end Machine

end PatternMachines.Turing
