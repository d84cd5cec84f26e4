import PatternMachines.Nfa

/-!
# Fragments of automata

A nondeterministic automaton is put together from fragments. All fragments share one arena of
states, numbered in the order of their creation. A fragment names its first and its last state, the
states that belong to it and the symbols on its edges. Each rule of composition adds edges to the
arena, takes the accepting flag from the last states of its parts and sets it on its own last state.

## Main definitions

* `Arena`: the states created so far; `Fragment`: a part of the automaton.
* `Arena.literal`, `Arena.wildcard`, `Arena.epsilon`: the fragments without parts.
* `Arena.concat`, `Arena.union`, `Arena.star`, `Arena.plus`, `Arena.option`, `Arena.concatAll`: the
  rules of composition.
* `Arena.toNfa`: the automaton of a fragment.
-/

namespace PatternMachines

open Std

/-- A part of an automaton under construction. -/
structure Fragment where
  /-- The first state. -/
  start : StateId
  /-- The last state. -/
  accept : StateId
  /-- The states that belong to the fragment. -/
  members : StateSet
  /-- The symbols on the edges of the fragment. -/
  alphabet : ExtTreeSet Symbol := ∅

namespace Fragment

/-- The fragment with the states and symbols of another one added to its own. -/
def merge (f g : Fragment) : Fragment :=
  { f with members := f.members ∪ g.members, alphabet := f.alphabet ∪ g.alphabet }

end Fragment

/-- The states created so far. The ids are the numbers below the number of states. -/
structure Arena where
  /-- The states by name. -/
  states : ExtTreeMap StateId NfaState := ∅

namespace Arena

/-- The number of states created so far. -/
def size (a : Arena) : Nat := a.states.size

/-- The name of the next state to be created. -/
def nextId (a : Arena) : StateId := a.size

/-- The arena with one more state, whose name is `nextId`. -/
def add (a : Arena) (s : NfaState) : Arena := ⟨a.states.insert a.nextId s⟩

/-- The arena with one state changed. -/
def modify (a : Arena) (id : StateId) (f : NfaState → NfaState) : Arena := ⟨a.states.modify id f⟩

/-- The states with the accepting flag. -/
def acceptingStates (a : Arena) : StateSet :=
  .ofList (a.states.toList.filterMap fun (id, s) => if s.accepting then some id else none)

/-- Leads on from the last state of a part without reading, and takes its accepting flag. -/
def leave (a : Arena) (last : StateId) (targets : List StateId) : Arena :=
  a.modify last fun s => { targets.foldl NfaState.addSilent s with accepting := false }

/-- A first and a last state with edges from the one to the other that read the given symbols. -/
def oneOf (a : Arena) (symbols : List Symbol) : Fragment × Arena :=
  let first := a.nextId
  let last := first + 1
  let a := a.add (symbols.foldl (fun s x => s.addEdge x last) {})
  let a := a.add { accepting := true }
  (⟨first, last, .ofList [first, last], .ofList symbols⟩, a)

/-- The fragment that reads one symbol. -/
def literal (a : Arena) (x : Symbol) : Fragment × Arena := a.oneOf [x]

/-- The fragment that reads any one symbol of the wildcard. -/
def wildcard (a : Arena) : Fragment × Arena := a.oneOf Symbol.wildcard

/-- The fragment that reads nothing: one state is both first and last. -/
def epsilon (a : Arena) : Fragment × Arena :=
  (⟨a.nextId, a.nextId, .ofList [a.nextId], ∅⟩, a.add { accepting := true })

/-- One fragment after another. It has no states of its own. -/
def concat (a : Arena) (f g : Fragment) : Fragment × Arena :=
  ({ start := f.start, accept := g.accept, members := f.members ∪ g.members,
     alphabet := f.alphabet ∪ g.alphabet },
   a.leave f.accept [g.start])

/-- One of two fragments, between a new first and a new last state. -/
def union (a : Arena) (f g : Fragment) : Fragment × Arena :=
  let first := a.nextId
  let last := first + 1
  let a := a.add { silent := .ofList [f.start, g.start] }
  let a := a.add {}
  let a := (a.leave f.accept [last]).leave g.accept [last]
  let a := a.modify last fun s => { s with accepting := true }
  ((Fragment.mk first last (.ofList [first, last]) ∅).merge f |>.merge g, a)

/-- A fragment any number of times, between a new first and a new last state. -/
def star (a : Arena) (f : Fragment) : Fragment × Arena :=
  let first := a.nextId
  let last := first + 1
  let a := a.add { silent := .ofList [f.start, last] }
  let a := a.add { accepting := true }
  let a := a.leave f.accept [f.start, last]
  ((Fragment.mk first last (.ofList [first, last]) ∅).merge f, a)

/-- A fragment once or more: the fragment and then any number of times the same states again. -/
def plus (a : Arena) (f : Fragment) : Fragment × Arena :=
  let (again, a) := a.star f
  a.concat f again

/-- A fragment or nothing. -/
def option (a : Arena) (f : Fragment) : Fragment × Arena :=
  let (nothing, a) := a.epsilon
  a.union f nothing

/-- Several fragments one after another, put together from the left. -/
def concatAll (a : Arena) : List Fragment → Fragment × Arena
  | [] => a.epsilon
  | f :: fs => fs.foldl (fun (f, a) g => a.concat f g) (f, a)

/-- The automaton of a fragment: its members with all their edges, whether these lead to members or
not. -/
def toNfa (a : Arena) (f : Fragment) : Nfa where
  start := f.start
  accept := f.accept
  states := .ofList (f.members.toList.filterMap fun id => a.states[id]?.map (id, ·))
  alphabet := f.alphabet

end Arena

end PatternMachines
