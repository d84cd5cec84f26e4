import PatternMachines.Dfa

/-!
# The subset construction

The deterministic automaton of a nondeterministic one has a state for each non-empty set of states
that some word leads to. Its states are numbered from `0` in the order of a breadth-first
exploration that tries the symbols in ascending order. A word that leads nowhere is rejected by a
missing edge, so there is no sink.

## Main definitions

* `Nfa.row`: the edges of a set of states.
* `Nfa.subsetEdges`: the exploration of the sets of states.
* `Dfa.ofNfa`: the subset construction.
-/

namespace PatternMachines

open Std

namespace StateSet

/-- Sets of states are compared by their ascending lists of members. -/
instance : Ord StateSet := ⟨fun s t => compare s.toList t.toList⟩

instance : TransOrd StateSet where
  eq_swap {s t} :=
    show compare s.toList t.toList = (compare t.toList s.toList).swap from OrientedCmp.eq_swap
  isLE_trans {s _ u} hst htu :=
    show (compare s.toList u.toList).isLE = true from TransCmp.isLE_trans hst htu

instance : LawfulEqOrd StateSet where
  compare_self {s} := show compare s.toList s.toList = .eq from ReflCmp.compare_self
  eq_of_compare {s t} h :=
    have h : compare s.toList t.toList = .eq := h
    ExtTreeSet.toList_inj.1 (LawfulEqCmp.eq_of_compare h)

/-- All sets whose members are among the given ids. -/
def powerset : List StateId → List StateSet
  | [] => [∅]
  | id :: ids => powerset ids ++ (powerset ids).map (·.insert id)

theorem mem_powerset {ids : List StateId} {s : StateSet} (h : ∀ id ∈ s, id ∈ ids) :
    s ∈ powerset ids := by
  induction ids generalizing s with
  | nil =>
    have : s = ∅ := ExtTreeSet.ext_mem fun id =>
      ⟨fun hid => absurd (h id hid) (by simp), fun hid => absurd hid ExtTreeSet.not_mem_empty⟩
    simp [powerset, this]
  | cons id ids ih =>
    rw [powerset, List.mem_append, List.mem_map]
    by_cases hid : id ∈ s
    · refine .inr ⟨s.erase id, ih fun x hx => ?_, ExtTreeSet.ext_mem fun x => ?_⟩
      · rw [ExtTreeSet.mem_erase] at hx
        rcases List.mem_cons.1 (h x hx.2) with rfl | hx'
        · simp at hx
        · exact hx'
      · rw [ExtTreeSet.mem_insert, ExtTreeSet.mem_erase, Std.compare_eq_iff_eq]
        by_cases hx : id = x
        · simp [← hx, hid]
        · simp [hx]
    · refine .inl (ih fun x hx => ?_)
      rcases List.mem_cons.1 (h x hx) with rfl | hx'
      · exact absurd hx hid
      · exact hx'

end StateSet

namespace Nfa

/-- The edges of a set of states: for each symbol in ascending order, the closure of the ids reached
by reading it, where there are any. -/
def rowOver (n : Nfa) (ids : StateSet) :
    List Symbol → Except MissingState (List (Symbol × StateSet))
  | [] => .ok []
  | a :: symbols => do
    let moved ← n.move ids a
    if moved.isEmpty then
      n.rowOver ids symbols
    else
      let target ← n.closure moved
      let rest ← n.rowOver ids symbols
      return (a, target) :: rest

/-- The edges of a set of states over the whole alphabet. A member that names no state is an error,
also where the alphabet is empty. -/
def row (n : Nfa) (ids : StateSet) : Except MissingState (List (Symbol × StateSet)) :=
  match ids.toList.find? fun id => !n.states.contains id with
  | some id => .error ⟨id⟩
  | none => n.rowOver ids n.alphabet.toList

/-- The exploration of the sets of states that words lead to. -/
def subsetEdges (n : Nfa) : Exploration MissingState StateSet (List (Symbol × StateSet)) where
  expand := n.row
  successors row := row.map (·.2)
  finite := by
    refine ⟨StateSet.powerset n.states.keys, fun ids row h => ?_⟩
    rw [Nfa.row] at h
    split at h
    · cases h
    · next hnone =>
      refine StateSet.mem_powerset fun id hid => ?_
      have := List.find?_eq_none.1 hnone id (ExtTreeSet.mem_toList.2 hid)
      simpa [ExtTreeMap.mem_keys] using this

/-- Whether a set of states holds an accepting one. -/
def acceptsIn (n : Nfa) (ids : StateSet) : Bool :=
  ids.toList.any fun id => n.states[id]?.any (·.accepting)

end Nfa

namespace Dfa

/-- The automaton whose states are the given sets of states of `n`, numbered in their order, with
their edges. -/
def ofSubsets (n : Nfa) (rows : List (StateSet × List (Symbol × StateSet))) : Dfa :=
  let numbered := rows.zipIdx.map fun ((ids, row), i) => ((i : StateId), ids, row)
  let number : ExtTreeMap StateSet StateId := .ofList (numbered.map fun (i, ids, _) => (ids, i))
  { start := 0
    states := .ofList <| numbered.map fun (i, ids, row) =>
      (i, DfaState.mk (n.acceptsIn ids)
        (.ofList (row.map fun (a, target) => (a, number.getD target 0))))
    alphabet := .ofList (rows.flatMap fun (_, row) => row.map (·.1))
    subsets := .ofList (numbered.map fun (i, ids, _) => (i, ids)) }

/-- The subset construction. It fails exactly when an id that names no state is met. -/
def ofNfa (n : Nfa) : Except MissingState Dfa := do
  let first ← n.closure (.ofList [n.start])
  let rows ← n.subsetEdges.visit [first]
  return ofSubsets n rows

end Dfa

end PatternMachines
