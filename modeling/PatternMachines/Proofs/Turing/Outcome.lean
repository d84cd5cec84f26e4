import PatternMachines.Proofs.Nfa.Path
import PatternMachines.Proofs.Turing.Simulation

/-!
# The outcome of a run and its last state

A run looks at its state before every transition, but not after the last one that it may take. So a
run accepts exactly if it ends in an accepting state with transitions to spare. A run that comes to
an accepting state only with its last transition is stopped all the same.

## Main definitions

* `Turing.Configuration.Accepting`: the configurations in an accepting state.
* `Turing.Run.Consistent`: what the reason, the transitions and the last state of a run tell of each
  other.

## Main results

* `Turing.Machine.accept_iff_of_ends`: the last state of a run that a round ends.
* `Turing.Machine.consistent_runFrom`: a run with any number of transitions.
* `Turing.Machine.accepted_iff_accepting_final`: the run on an input.
* `Turing.Machine.stopped_in_acceptState`: a run that is stopped in an accepting state.
-/

namespace PatternMachines.Turing

open Std

/-- Whether a configuration is in an accepting state. -/
def Configuration.Accepting (c : Configuration) (m : Machine) : Prop :=
  ∃ q, c.state = some q ∧ q ∈ m.accepting

/-- What the outcome of a run that may take `limit` transitions tells. -/
structure Run.Consistent (r : Run) (m : Machine) (limit : Nat) : Prop where
  /-- No more transitions are taken than may be. -/
  steps_le : r.steps ≤ limit
  /-- The run is stopped exactly if it takes them all. -/
  stepLimit_iff : r.reason = .stepLimit ↔ r.steps = limit
  /-- The run accepts exactly if it ends in an accepting state without taking them all. -/
  accept_iff : r.reason = .accept ↔ r.final.Accepting m ∧ r.steps < limit

namespace Machine

variable {m : Machine} {c final : Configuration} {reason : HaltReason} {taken left : Nat}

theorem any_contains_accepting_iff : c.state.any m.accepting.contains = true ↔ c.Accepting m := by
  rw [Option.any_eq_true]
  simp only [ExtTreeSet.contains_iff_mem]
  rfl

/-- Only a state that accepts ends a run with acceptance, and it does so before anything else. -/
theorem accept_iff_of_verdict (h : m.verdict c = some reason) :
    reason ≠ .stepLimit ∧ (reason = .accept ↔ c.Accepting m) := by
  rw [verdict] at h
  split at h
  · next haccept =>
    cases h
    exact ⟨HaltReason.noConfusion, iff_of_true rfl (any_contains_accepting_iff.1 haccept)⟩
  · next haccept =>
    rw [any_contains_accepting_iff] at haccept
    split at h
    · cases h
      exact ⟨HaltReason.noConfusion, iff_of_false HaltReason.noConfusion haccept⟩
    · cases h

theorem not_accepting_of_verdict (h : m.verdict c = none) : ¬c.Accepting m := by
  intro haccept
  rw [verdict, if_pos (any_contains_accepting_iff.2 haccept)] at h
  cases h

/-- A round that ends a run tells by its reason whether the last state accepts. -/
theorem accept_iff_of_ends (h : m.round c = .ends reason final) :
    reason ≠ .stepLimit ∧ (reason = .accept ↔ final.Accepting m) := by
  rw [round] at h
  split at h
  · next hverdict =>
    cases h
    exact accept_iff_of_verdict hverdict
  · next hverdict =>
    split at h
    · cases h
      refine ⟨HaltReason.noConfusion, iff_of_false HaltReason.noConfusion ?_⟩
      rw [Configuration.Accepting, state_reachHead]
      exact not_accepting_of_verdict hverdict
    · cases h

/-- The outcome of a run that has taken some transitions and may take some more. -/
theorem consistent_runFrom (m : Machine) (taken left : Nat) (c : Configuration) :
    (m.runFrom taken left c).Consistent m (taken + left) := by
  induction left generalizing taken c with
  | zero =>
    exact ⟨Nat.le_refl _, iff_of_true rfl rfl,
      iff_of_false HaltReason.noConfusion fun h => Nat.lt_irrefl _ h.2⟩
  | succ left ih =>
    cases h : m.round c with
    | ends reason final =>
      obtain ⟨hreason, haccept⟩ := accept_iff_of_ends h
      have hlt : taken < taken + (left + 1) := Nat.lt_add_of_pos_right (Nat.zero_lt_succ left)
      rw [runFrom_of_ends h]
      exact ⟨Nat.le_of_lt hlt, iff_of_false hreason (Nat.ne_of_lt hlt),
        haccept.trans (and_iff_left hlt).symm⟩
    | takes t c' =>
      -- The first transition changes the trace only.
      have hlimit : taken + 1 + left = taken + (left + 1) := Nat.succ_add_eq_add_succ taken left
      obtain ⟨hle, hstepLimit, haccept⟩ := hlimit ▸ ih (taken + 1) c'
      rw [runFrom_of_takes h]
      exact ⟨hle, hstepLimit, haccept⟩

/-- **The outcome of a run and its last state.** Let the input not hold the end marker. The run
takes no more transitions than it may. It accepts exactly if it ends in an accepting state and has
not taken them all, and if it has, it is stopped. -/
theorem accepted_iff_accepting_final (m : Machine) (input : String)
    (hinput : ∀ marker, m.endMarker = some marker → ¬marker.toList <:+: input.toList) :
    (m.run input).steps ≤ maxSteps ∧
      ((m.run input).accepted = true ↔
        (∃ q, (m.run input).final.state = some q ∧ q ∈ m.accepting) ∧
          (m.run input).steps < maxSteps) ∧
      ((m.run input).reason = .stepLimit ↔ (m.run input).steps = maxSteps) := by
  have hrun : m.run input = m.runFrom 0 maxSteps (m.initial input) :=
    run_eq_runFrom (not_holdsEndMarker_iff.2 hinput)
  obtain ⟨hle, hstepLimit, haccept⟩ := consistent_runFrom m 0 maxSteps (m.initial input)
  rw [Nat.zero_add] at hle hstepLimit haccept
  rw [hrun, Run.accepted, beq_iff_eq]
  exact ⟨hle, haccept, hstepLimit⟩

/-- The automaton with one state, which accepts, and one edge, which leads back to it. -/
def looping : Dfa where
  start := 0
  states := .ofList [((0 : StateId), DfaState.mk true (.ofList [("a", (0 : StateId))]))]
  alphabet := .ofList ["a"]

theorem getElem?_states_looping {id : StateId} {s : DfaState} (hs : looping.states[id]? = some s) :
    id = 0 ∧ s = DfaState.mk true (.ofList [("a", (0 : StateId))]) := by
  have hmem := (getElem?_ofList_eq_some_iff (by decide)).1 hs
  simpa using hmem

theorem endMarker_edge_looping (id : StateId) (s : DfaState) (hs : looping.states[id]? = some s) :
    s.edges[Symbol.endMarker]? = none := by
  obtain ⟨rfl, rfl⟩ := getElem?_states_looping hs
  rfl

theorem follow_looping (k : Nat) : looping.follow 0 (List.replicate k "a") = some 0 := by
  induction k with
  | zero => rfl
  | succ k ih =>
    have hs : looping.states[(0 : StateId)]? =
        some (DfaState.mk true (.ofList [("a", (0 : StateId))])) := rfl
    rw [List.replicate_succ, Dfa.follow_cons hs]
    exact ih

theorem not_holdsEndMarker_looping (k : Nat) :
    ¬(ofDfa looping).holdsEndMarker (String.ofList (List.replicate k 'a')) = true := by
  rw [holdsEndMarker_ofDfa_iff, endMarker_mem_ofText_iff, String.toList_ofList, List.mem_replicate]
  exact fun h => absurd h.2 (by decide)

/-- The machine of the looping automaton accepts a short text, with transitions to spare. -/
theorem accepted_looping :
    (∀ marker, (ofDfa looping).endMarker = some marker →
      ¬marker.toList <:+: (String.ofList (List.replicate 3 'a')).toList) ∧
    ((ofDfa looping).run (String.ofList (List.replicate 3 'a'))).accepted = true ∧
    ((ofDfa looping).run (String.ofList (List.replicate 3 'a'))).steps < maxSteps := by
  have hinput : ∀ marker, (ofDfa looping).endMarker = some marker →
      ¬marker.toList <:+: (String.ofList (List.replicate 3 'a')).toList :=
    not_holdsEndMarker_iff.1 (not_holdsEndMarker_looping 3)
  obtain ⟨-, haccepted, -⟩ := accepted_iff_accepting_final (ofDfa looping) _ hinput
  have hsteps : ((ofDfa looping).run (String.ofList (List.replicate 3 'a'))).steps < maxSteps := by
    decide +kernel
  have hfinal : ((ofDfa looping).run (String.ofList (List.replicate 3 'a'))).final.state =
      some acceptState := by
    decide +kernel
  exact ⟨hinput, haccepted.2 ⟨⟨_, hfinal, contains_accepting_ofDfa.2 rfl⟩, hsteps⟩, hsteps⟩

/-- On a word of that symbol the last transition that a run may take is the decision, if the word
has one symbol less. -/
theorem after_looping : (ofDfa looping).after maxSteps
      ((ofDfa looping).initial (String.ofList (List.replicate 999 'a'))) =
    some (decided true (List.replicate 999 "a")) := by
  have htext : Symbol.ofText (String.ofList (List.replicate 999 'a')) = List.replicate 999 "a" := by
    rw [Symbol.ofText, String.toList_ofList, List.map_replicate]
    rfl
  have hlength : maxSteps = (List.replicate 999 "a").length + 1 := by
    rw [List.length_replicate]
    rfl
  rw [initial_ofDfa, htext, hlength]
  exact after_initial_end endMarker_edge_looping (follow_looping 999) rfl

/-- A run that comes to an accepting state with the last transition that it may take does not
accept. -/
theorem stopped_in_acceptState :
    (∀ marker, (ofDfa looping).endMarker = some marker →
      ¬marker.toList <:+: (String.ofList (List.replicate 999 'a')).toList) ∧
    ((ofDfa looping).run (String.ofList (List.replicate 999 'a'))).final.state = some acceptState ∧
    acceptState ∈ (ofDfa looping).accepting ∧
    ((ofDfa looping).run (String.ofList (List.replicate 999 'a'))).accepted = false := by
  have hholds := not_holdsEndMarker_looping 999
  obtain ⟨hreason, -, hfinal⟩ := runFrom_eq_of_after 0 after_looping
  rw [← run_eq_runFrom hholds] at hreason hfinal
  refine ⟨not_holdsEndMarker_iff.1 hholds, ?_, contains_accepting_ofDfa.2 rfl, ?_⟩
  · rw [hfinal]
    rfl
  · rw [Run.accepted, hreason]
    rfl

end Machine

end PatternMachines.Turing
