import PatternMachines.Nfa

/-!
# Deterministic automata

A deterministic automaton has at most one edge for each state and symbol. Where there is none, the
word is rejected. Like a nondeterministic automaton it may be given by hand, with edges to ids that
name no state.

## Main definitions

* `Dfa`, `DfaState`: automata and their states.
* `Dfa.accepts`: whether a word is accepted.
* `Dfa.isDead`, `Dfa.deadStates`: the states that no accepted word passes through, as far as the
  edges of the state itself show it.
* `Dfa.empty`: the automaton without symbols that accepts nothing.
-/

namespace PatternMachines

open Std

/-- A state of a deterministic automaton. -/
structure DfaState where
  /-- Whether a word may end here. -/
  accepting : Bool := false
  /-- The target of the edge for each symbol. -/
  edges : ExtTreeMap Symbol StateId := ∅

/-- A deterministic automaton. -/
structure Dfa where
  /-- The state in which every word begins. -/
  start : StateId
  /-- The states by name. -/
  states : ExtTreeMap StateId DfaState
  /-- The symbols that the automaton is said to read. -/
  alphabet : ExtTreeSet Symbol := ∅
  /-- The nondeterministic states behind a state, where they were recorded. -/
  subsets : ExtTreeMap StateId StateSet := ∅

namespace Dfa

/-- The automaton with one state, which accepts nothing and reads nothing. -/
def empty : Dfa where
  start := 0
  states := .ofList [((0 : StateId), DfaState.mk false ∅)]
  subsets := .ofList [((0 : StateId), ∅)]

/-- The state of a given name. -/
def state (d : Dfa) (id : StateId) : Except MissingState DfaState :=
  match d.states[id]? with
  | some s => .ok s
  | none => .error ⟨id⟩

/-- Whether the word leads from the state `s` to an accepting one. -/
def acceptsFrom (d : Dfa) (s : DfaState) : List Symbol → Except MissingState Bool
  | [] => .ok s.accepting
  | a :: word =>
    match s.edges[a]? with
    | none => .ok false
    | some id => do d.acceptsFrom (← d.state id) word

/-- Whether the automaton accepts the word. -/
def accepts (d : Dfa) (word : List Symbol) : Except MissingState Bool := do
  d.acceptsFrom (← d.state d.start) word

/-- The states with the accepting flag. -/
def acceptingStates (d : Dfa) : StateSet :=
  .ofList (d.states.toList.filterMap fun (id, s) => if s.accepting then some id else none)

/-- Whether the state `s` of the given name is dead: it does not accept, and all its edges lead back
to it. -/
def isDeadState (id : StateId) (s : DfaState) : Bool :=
  !s.accepting && s.edges.values.all (· == id)

/-- Whether the state of a given name is dead. -/
def isDead (d : Dfa) (id : StateId) : Except MissingState Bool :=
  (d.state id).map (isDeadState id)

/-- The dead states. -/
def deadStates (d : Dfa) : StateSet :=
  .ofList (d.states.toList.filterMap fun (id, s) => if isDeadState id s then some id else none)

end Dfa

end PatternMachines
