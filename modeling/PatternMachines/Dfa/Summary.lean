import PatternMachines.Dfa.Alias
import PatternMachines.Json.Value

/-!
# Summaries of deterministic automata

A summary describes a deterministic automaton by the aliases of its states. States, accepting states
and dead states are listed in the order of their aliases, and the edges by the alias of their source
and then by their symbol.

## Main definitions

* `Dfa.AliasedEdge`: edges between aliases; `Dfa.AliasedEdge.display`: their written form.
* `Dfa.Summary`, `Dfa.summary`: the summary of an automaton.
* `Dfa.Summary.toJson`: its document.
-/

namespace PatternMachines.Dfa

open Std

/-- An edge between aliases. -/
structure AliasedEdge where
  /-- The alias of the source. -/
  source : String
  /-- The symbol that is read. -/
  symbol : Symbol
  /-- The alias of the target. -/
  target : String
  deriving DecidableEq, Repr

/-- The written form of an edge. -/
def AliasedEdge.display (e : AliasedEdge) : String :=
  e.source ++ " --" ++ e.symbol ++ "--> " ++ e.target

/-- The summary of an automaton. -/
structure Summary where
  /-- The symbols in ascending order. -/
  alphabet : List Symbol
  /-- The aliases of the states. -/
  states : List String
  /-- The alias of the start. -/
  start : String
  /-- The aliases of the accepting states. -/
  accepting : List String
  /-- The aliases of the dead states. -/
  dead : List String
  /-- The edges. -/
  edges : List AliasedEdge
  deriving DecidableEq, Repr

/-- The edges of a state of a given alias in ascending order of their symbols, from the numbers of
the aliases. -/
def aliasedEdges (d : Dfa) (numbers : ExtTreeMap StateId Nat) (name : String) (id : StateId) :
    Except MissingState (List AliasedEdge) := do
  let s ← d.state id
  s.edges.toList.mapM fun (x, target) => do return ⟨name, x, ← aliasOf numbers target⟩

/-- The summary of an automaton. It fails when the start or the target of an edge names no
state. -/
def summary (d : Dfa) : Except MissingState Summary := do
  let states := d.statesByAlias.mergeSort fun p q => decide (aliasKey p.1 ≤ aliasKey q.1)
  let edges ← states.mapM fun (name, id) => d.aliasedEdges d.aliases name id
  return {
    alphabet := d.alphabet.toList
    states := states.map Prod.fst
    start := ← aliasOf d.aliases d.start
    accepting := sortAliases (← d.aliasesOf d.acceptingStates)
    dead := sortAliases (← d.aliasesOf d.deadStates)
    edges := edges.flatten }

namespace Summary

/-- The document of an edge, where `symbol` gives the documents of symbols. -/
def edgeJson (symbol : Symbol → Json) (e : AliasedEdge) : Json :=
  .object [("from", .text e.source), ("symbol", symbol e.symbol), ("to", .text e.target)]

/-- The document of a summary, where `symbol` gives the documents of symbols. -/
def toJson (s : Summary) (symbol : Symbol → Json := Json.ofText) : Json :=
  .object [
    ("alphabet", .array (s.alphabet.map symbol)),
    ("states", .texts s.states),
    ("start", .text s.start),
    ("accepting", .texts s.accepting),
    ("dead_states", .texts s.dead),
    ("transitions", .array (s.edges.map (edgeJson symbol)))]

end Summary

end PatternMachines.Dfa
