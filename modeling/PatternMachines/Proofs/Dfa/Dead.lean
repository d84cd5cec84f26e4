import PatternMachines.Proofs.Dfa.Summary

/-!
# Dead states

A dead state shows at its own edges that no accepted word passes through it: it does not accept, and
its edges lead back to it. So an automaton can do without its dead states. Where one of them has
been taken away, the missing edge rejects the words that the dead state rejected.

## Main definitions

* `Dfa.without`: an automaton without some of its states and without the edges into them.
* `Dfa.pruned`: an automaton without its dead states, but for the start.

## Main results

* `Dfa.isDead_iff_follow`: the words that can be read from a dead state.
* `Dfa.acceptsFrom_of_isDeadState`: every word is rejected from a dead state.
* `Dfa.acceptsFrom_without`: verdicts without some of the dead states.
* `Dfa.accepts_pruned`: dead states are dead.
-/

namespace PatternMachines

open Std

/-- A state without the edges that lead to some ids. -/
def DfaState.without (ids : StateSet) (s : DfaState) : DfaState :=
  { s with edges := s.edges.filter fun _ target => !ids.contains target }

namespace Dfa

/-- An automaton without some of its states and without the edges into them. -/
def without (ids : StateSet) (d : Dfa) : Dfa :=
  { d with
    states := d.states.filterMap fun id s =>
      if ids.contains id then none else some (s.without ids) }

/-- An automaton without its dead states and without the edges into them. Only the start is kept
also if it is dead, since every word begins there. -/
def pruned (d : Dfa) : Dfa := d.without (d.deadStates.erase d.start)

variable {d : Dfa} {ids : StateSet} {i j : StateId} {s : DfaState} {x : Symbol}

/-! ### Words from dead states -/

/-- Every word is rejected from a dead state. -/
theorem acceptsFrom_of_isDeadState (hs : d.states[i]? = some s) (hdead : isDeadState i s = true)
    (word : List Symbol) : d.acceptsFrom s word = .ok false := by
  obtain ⟨hrejects, hloops⟩ := isDeadState_iff.1 hdead
  induction word with
  | nil => rw [acceptsFrom, hrejects]
  | cons x word ih =>
    rw [acceptsFrom]
    cases hj : s.edges[x]? with
    | none => rfl
    | some j =>
      obtain rfl := hloops x j hj
      dsimp only
      rw [state_eq_ok hs]
      exact ih

/-- The dead states are those that do not accept and that no word leads out of. -/
theorem isDead_iff_follow : d.isDead i = .ok true ↔ i ∈ d.states ∧ d.acceptsAt i = false ∧
    ∀ word target, d.follow i word = some target → target = i := by
  rw [isDead_eq_ok_true_iff]
  constructor
  · rintro ⟨s, hs, hdead⟩
    refine ⟨mem_states_iff.2 ⟨s, hs⟩, ?_, fun _ _ => eq_of_follow_of_isDeadState hs hdead⟩
    rw [acceptsAt, hs]
    exact (isDeadState_iff.1 hdead).1
  · rintro ⟨hi, hrejects, hloops⟩
    obtain ⟨s, hs⟩ := mem_states_iff.1 hi
    rw [acceptsAt, hs] at hrejects
    refine ⟨s, hs, isDeadState_iff.2 ⟨hrejects, fun x j hj => hloops [x] j ?_⟩⟩
    rw [follow_cons hs, hj]
    rfl

/-! ### Automata without some of their states -/

theorem getElem?_states_without :
    (d.without ids).states[i]? = if i ∈ ids then none else d.states[i]?.map (·.without ids) := by
  rw [without, ExtTreeMap.getElem?_filterMap']
  by_cases hi : i ∈ ids
  · simp [hi]
  · simp only [ExtTreeSet.contains_iff_mem, hi, if_false]
    exact Option.map_eq_bind.symm

theorem getElem?_edges_without :
    (s.without ids).edges[x]? = s.edges[x]?.filter fun target => !ids.contains target := by
  rw [DfaState.without, ExtTreeMap.getElem?_filter']

theorem getElem?_edges_without_eq_some_iff :
    (s.without ids).edges[x]? = some j ↔ s.edges[x]? = some j ∧ j ∉ ids := by
  rw [getElem?_edges_without, Option.filter_eq_some_iff, Bool.not_eq_true', ← Bool.not_eq_true,
    ExtTreeSet.contains_iff_mem]

theorem state_without (hi : i ∉ ids) :
    (d.without ids).state i = (d.state i).map (·.without ids) := by
  rw [state, state, getElem?_states_without, if_neg hi]
  cases d.states[i]? <;> rfl

theorem mem_states_without : i ∈ (d.without ids).states ↔ i ∈ d.states ∧ i ∉ ids := by
  rw [mem_states_iff, mem_states_iff, getElem?_states_without]
  by_cases hi : i ∈ ids
  · simp [hi]
  · simp [hi]

/-- The edges of an automaton without some of its states are those between the others. -/
theorem follow_without_singleton_iff : (d.without ids).follow i [x] = some j ↔
    d.follow i [x] = some j ∧ i ∉ ids ∧ j ∉ ids := by
  have hedge (d : Dfa) : d.follow i [x] = some j ↔
      ∃ s, d.states[i]? = some s ∧ s.edges[x]? = some j := by
    simp [follow, Option.bind_eq_some_iff]
  rw [hedge, hedge]
  simp only [getElem?_states_without, Option.ite_none_left_eq_some, Option.map_eq_some_iff]
  constructor
  · rintro ⟨_, ⟨hi, s, hs, rfl⟩, hj⟩
    obtain ⟨hj, hkept⟩ := getElem?_edges_without_eq_some_iff.1 hj
    exact ⟨⟨s, hs, hj⟩, hi, hkept⟩
  · rintro ⟨⟨s, hs, hj⟩, hi, hkept⟩
    exact ⟨_, ⟨hi, s, hs, rfl⟩, getElem?_edges_without_eq_some_iff.2 ⟨hj, hkept⟩⟩

/-- Dead states that are taken away change no verdict. A word that came to one of them is rejected
by a missing edge. -/
theorem acceptsFrom_without (hdead : ∀ id ∈ ids, id ∈ d.deadStates) (s : DfaState)
    (word : List Symbol) :
    (d.without ids).acceptsFrom (s.without ids) word = d.acceptsFrom s word := by
  induction word generalizing s with
  | nil => rfl
  | cons x word ih =>
    rw [acceptsFrom, acceptsFrom, getElem?_edges_without]
    cases s.edges[x]? with
    | none => rfl
    | some j =>
      cases hj : ids.contains j with
      | true =>
        have hj' : j ∈ d.deadStates := hdead j (ExtTreeSet.contains_iff_mem.1 hj)
        obtain ⟨s', hs', hdead'⟩ := mem_deadStates_iff.1 hj'
        simp only [Option.filter_some, hj, Bool.not_true, Bool.false_eq_true, if_false]
        rw [state_eq_ok hs']
        exact (acceptsFrom_of_isDeadState hs' hdead' word).symm
      | false =>
        have hkept : j ∉ ids := by simp [← ExtTreeSet.contains_iff_mem, hj]
        simp only [Option.filter_some, hj, Bool.not_false, if_true, state_without hkept]
        cases d.state j with
        | error e => rfl
        | ok s' => exact ih s'

/-- An automaton can do without dead states other than the start. -/
theorem accepts_without (hdead : ∀ id ∈ ids, id ∈ d.deadStates) (hstart : d.start ∉ ids)
    (word : List Symbol) : (d.without ids).accepts word = d.accepts word := by
  have hbegins : (d.without ids).state (d.without ids).start =
      (d.state d.start).map (·.without ids) := state_without hstart
  rw [accepts, hbegins, accepts]
  cases d.state d.start with
  | error e => rfl
  | ok s => exact acceptsFrom_without hdead s word

/-! ### Automata without their dead states -/

theorem mem_deadStates_iff_isDead : i ∈ d.deadStates ↔ d.isDead i = .ok true := by
  rw [mem_deadStates_iff, isDead_eq_ok_true_iff]

/-- The ids that are kept when an automaton is pruned. -/
theorem not_mem_erase_deadStates_iff :
    i ∉ d.deadStates.erase d.start ↔ i = d.start ∨ i ∉ d.deadStates := by
  rw [ExtTreeSet.mem_erase, not_and_or, not_not, Std.compare_eq_iff_eq, eq_comm]

/-- **Dead states are dead.** The dead states are those that do not accept and that no word leads
out of. So no word leads from a dead state to an accepting one, and every word is rejected from it.
An automaton without its dead states, but for the start, and without the edges into them has the
same verdict on every word, or fails on it with the same id. -/
theorem accepts_pruned (d : Dfa) :
    (∀ id, id ∈ d.deadStates ↔ d.isDead id = .ok true) ∧
    (∀ id, d.isDead id = .ok true ↔ id ∈ d.states ∧ d.acceptsAt id = false ∧
      ∀ word target, d.follow id word = some target → target = id) ∧
    (∀ id s, d.isDead id = .ok true → d.states[id]? = some s →
      ∀ word, d.acceptsFrom s word = .ok false ∧
        ∀ target, d.follow id word = some target → d.acceptsAt target = false) ∧
    (∀ id, id ∈ d.pruned.states ↔ id ∈ d.states ∧ (id = d.start ∨ id ∉ d.deadStates)) ∧
    (∀ id x target, d.pruned.follow id [x] = some target ↔ d.follow id [x] = some target ∧
      (id = d.start ∨ id ∉ d.deadStates) ∧ (target = d.start ∨ target ∉ d.deadStates)) ∧
    ∀ word, d.pruned.accepts word = d.accepts word := by
  have hkept (id : StateId) := not_mem_erase_deadStates_iff (d := d) (i := id)
  refine ⟨fun _ => mem_deadStates_iff_isDead, fun _ => isDead_iff_follow, ?rejects,
    fun id => ?states, fun id x target => ?edges, fun word => ?verdict⟩
  case rejects =>
    intro id s hdead hs word
    obtain ⟨s', hs', hdead'⟩ := isDead_eq_ok_true_iff.1 hdead
    obtain rfl := Option.some_inj.1 (hs.symm.trans hs')
    refine ⟨acceptsFrom_of_isDeadState hs hdead' word, fun target htarget => ?_⟩
    obtain ⟨-, hrejects, hloops⟩ := isDead_iff_follow.1 hdead
    rw [hloops word target htarget, hrejects]
  case states => rw [← hkept, pruned, mem_states_without]
  case edges => rw [← hkept, ← hkept, pruned, follow_without_singleton_iff]
  case verdict =>
    exact accepts_without (fun id hid => (ExtTreeSet.mem_erase.1 hid).2)
      ((hkept d.start).2 (.inl rfl)) word

end Dfa

end PatternMachines
