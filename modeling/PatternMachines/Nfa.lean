import PatternMachines.Exploration
import PatternMachines.Symbol
import Std.Data.ExtTreeMap

/-!
# Nondeterministic automata

A nondeterministic automaton has states named by integers, each with an accepting flag, edges that
read a symbol and edges that read nothing. It may be given by hand, so an edge may lead to an id
that names no state; whoever comes to such an id fails with it.

## Main definitions

* `Nfa`, `NfaState`: automata and their states.
* `MissingState`: the error of an id that names no state.
* `Nfa.closure`: all ids reached without reading, breadth first.
* `Nfa.move`: the ids reached by reading one symbol.
* `Nfa.walk`: the closures met while reading a word.
-/

namespace PatternMachines

open Std

/-- The name of a state. -/
abbrev StateId := Int

/-- A finite set of state names. -/
abbrev StateSet := ExtTreeSet StateId

/-- The error of an id that names no state. -/
structure MissingState where
  /-- The id that names no state. -/
  id : StateId
  deriving DecidableEq, Repr

/-- The text of the error: the id alone. -/
def MissingState.message (e : MissingState) : String := toString e.id

/-- A state of a nondeterministic automaton. -/
structure NfaState where
  /-- Whether a walk may end here. -/
  accepting : Bool := false
  /-- The targets of the edges that read a symbol. -/
  edges : ExtTreeMap Symbol StateSet := ∅
  /-- The targets of the edges that read nothing. -/
  silent : StateSet := ∅

namespace NfaState

/-- The state with one more edge, which reads `a`. -/
def addEdge (s : NfaState) (a : Symbol) (target : StateId) : NfaState :=
  { s with edges := s.edges.insert a ((s.edges.getD a ∅).insert target) }

/-- The state with one more edge, which reads nothing. -/
def addSilent (s : NfaState) (target : StateId) : NfaState :=
  { s with silent := s.silent.insert target }

end NfaState

/-- A nondeterministic automaton. -/
structure Nfa where
  /-- The state in which every walk begins. -/
  start : StateId
  /-- The state that a construction marks as its last one. Acceptance does not look at it. -/
  accept : StateId := 0
  /-- The states by name. -/
  states : ExtTreeMap StateId NfaState
  /-- The symbols that the automaton is said to read. -/
  alphabet : ExtTreeSet Symbol := ∅

namespace Nfa

/-- The state of a given name. -/
def state (n : Nfa) (id : StateId) : Except MissingState NfaState :=
  match n.states[id]? with
  | some s => .ok s
  | none => .error ⟨id⟩

/-- The states with the accepting flag. -/
def acceptingStates (n : Nfa) : StateSet :=
  .ofList (n.states.toList.filterMap fun (id, s) => if s.accepting then some id else none)

/-- The exploration along the edges that read nothing. -/
def silentEdges (n : Nfa) : Exploration MissingState StateId NfaState where
  expand := n.state
  successors s := s.silent.toList
  finite := by
    refine ⟨n.states.keys, fun id s h => ?_⟩
    simp only [state] at h
    split at h
    · next _ hs => exact ExtTreeMap.mem_keys.2 (ExtTreeMap.mem_iff_isSome_getElem?.2 (by simp [hs]))
    · cases h

/-- All ids reached from the given ones without reading, the given ones included. -/
def closure (n : Nfa) (ids : StateSet) : Except MissingState StateSet :=
  (n.silentEdges.visit ids.toList).map fun visited => .ofList (visited.map (·.1))

/-- The ids reached from the given ones by reading `a`. The ids are looked up in the given order,
and the first one that names no state is the error. -/
def moveFrom (n : Nfa) (a : Symbol) : List StateId → Except MissingState StateSet
  | [] => .ok ∅
  | id :: ids => do
    let s ← n.state id
    let rest ← n.moveFrom a ids
    return s.edges.getD a ∅ ∪ rest

/-- The ids reached from a set of states by reading `a`. -/
def move (n : Nfa) (ids : StateSet) (a : Symbol) : Except MissingState StateSet :=
  n.moveFrom a ids.toList

/-- The closures met while reading a word from the closure `ids`, which is the first of them. -/
def walkFrom (n : Nfa) (ids : StateSet) : List Symbol → Except MissingState (List StateSet)
  | [] => .ok [ids]
  | a :: word => do
    let next ← n.closure (← n.move ids a)
    return ids :: (← n.walkFrom next word)

/-- The closures met while reading a word from the start. -/
def walk (n : Nfa) (word : List Symbol) : Except MissingState (List StateSet) := do
  n.walkFrom (← n.closure (.ofList [n.start])) word

end Nfa

end PatternMachines
