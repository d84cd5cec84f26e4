import PatternMachines.Dfa
import PatternMachines.Text.Digits

/-!
# Aliases of states

In reports the states of a deterministic automaton are called `S0`, `S1` and so on. The start is
`S0`, and the other states follow in ascending order of their ids. Aliases are sorted by the numbers
that they show, so that `S2` comes before `S10`.

## Main definitions

* `Dfa.aliasOrder`: the states in the order of their aliases.
* `Dfa.aliases`: the numbers of the aliases.
* `Dfa.aliasOf`, `Dfa.aliasesOf`: the alias of a state, and those of a set of states.
* `Dfa.statesByAlias`: the states by their aliases.
* `Dfa.aliasKey`, `Dfa.sortAliases`: the numbers that aliases show, and their order.
-/

namespace PatternMachines.Dfa

open Std

/-- The states in the order of their aliases: the start, then the others in ascending order. The
start is among them even if it names no state. -/
def aliasOrder (d : Dfa) : List StateId := d.start :: d.states.keys.filter (· != d.start)

/-- The numbers of the aliases by state. -/
def aliases (d : Dfa) : ExtTreeMap StateId Nat := .ofList d.aliasOrder.zipIdx

/-- The alias with a given number. -/
def aliasName (i : Nat) : String := "S" ++ toString i

/-- The alias of a state, from the numbers of the aliases. An id without a number is an error. -/
def aliasOf (numbers : ExtTreeMap StateId Nat) (id : StateId) : Except MissingState String :=
  match numbers[id]? with
  | some i => .ok (aliasName i)
  | none => .error ⟨id⟩

/-- The aliases of the states of a set. -/
def aliasesOf (d : Dfa) (ids : StateSet) : Except MissingState (List String) :=
  ids.toList.mapM (aliasOf d.aliases)

/-- The states by their aliases. -/
def statesByAlias (d : Dfa) : List (String × StateId) :=
  d.aliasOrder.zipIdx.map fun (id, i) => (aliasName i, id)

/-- The number that an alias shows after its first character. A name that shows none comes after
those with small numbers. -/
def aliasKey (name : String) : Nat :=
  let digits := name.toList.drop 1
  if !digits.isEmpty && digits.all Char.isDigit then Text.decimalNumber digits else 999

/-- Aliases in the order of the numbers that they show. -/
def sortAliases (names : List String) : List String :=
  names.mergeSort fun s t => decide (aliasKey s ≤ aliasKey t)

end PatternMachines.Dfa
