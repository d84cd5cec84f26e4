import PatternMachines.Dfa.Subset
import PatternMachines.Proofs.Dfa.Run
import PatternMachines.Proofs.Nfa.Walk

/-!
# The subset construction keeps the meaning

Each state of the deterministic automaton records the set of ids that some word leads to in the
nondeterministic one. A word over the alphabet can be followed as long as it leads to some id, and
then it leads to the state that records the set of all ids it leads to.

## Main results

* `Dfa.exists_ofNfa`: the construction succeeds where words over the alphabet lead to states only.
* `Dfa.ofNfa_run_iff_walk`: its runs are the walks of the nondeterministic automaton.
-/

namespace PatternMachines

open Std

namespace Nfa

variable {n : Nfa} {ids : StateSet}

theorem acceptsIn_iff :
    n.acceptsIn ids = true ↔ ∃ q ∈ ids, ∃ s, n.states[q]? = some s ∧ s.accepting = true := by
  rw [acceptsIn, List.any_eq_true]
  simp only [ExtTreeSet.mem_toList, Option.any_eq_true]

/-! ### Rows -/

/-- What a row holds: for each symbol the closure of what is reached by reading it, unless nothing
is. -/
def IsEdge (n : Nfa) (ids : StateSet) (a : Symbol) (target : StateSet) : Prop :=
  ∃ moved, n.move ids a = .ok moved ∧ moved ≠ ∅ ∧ n.closure moved = .ok target

theorem IsEdge.ne_empty {a : Symbol} {target : StateSet} (h : n.IsEdge ids a target) :
    target ≠ ∅ := by
  obtain ⟨moved, -, hne, htarget⟩ := h
  rintro rfl
  refine hne (ExtTreeSet.eq_empty_iff_forall_not_mem.2 fun q hq => ?_)
  exact ExtTreeSet.not_mem_empty ((mem_closure htarget).2 ⟨q, hq, .nil q⟩)

/-- Reading one more symbol, a word leads to the target of the edge. -/
theorem IsEdge.ledTo {a : Symbol} {target : StateSet} (h : n.IsEdge ids a target)
    {u : List Symbol} (hu : n.LedTo u ids) : n.LedTo (u ++ [a]) target := by
  obtain ⟨moved, hmoved, -, htarget⟩ := h
  exact hu.snoc hmoved htarget

theorem IsEdge.unique {a : Symbol} {s t : StateSet} (hs : n.IsEdge ids a s)
    (ht : n.IsEdge ids a t) : s = t := by
  obtain ⟨moved, hmoved, -, hs⟩ := hs
  obtain ⟨moved', hmoved', -, ht⟩ := ht
  rw [hmoved] at hmoved'
  cases hmoved'
  rw [hs] at ht
  cases ht
  rfl

theorem rowOver_cons {a : Symbol} {symbols : List Symbol} {row : List (Symbol × StateSet)}
    (h : n.rowOver ids (a :: symbols) = .ok row) :
    (n.move ids a = .ok ∅ ∧ n.rowOver ids symbols = .ok row) ∨
      ∃ target rest, n.IsEdge ids a target ∧ n.rowOver ids symbols = .ok rest ∧
        row = (a, target) :: rest := by
  rw [rowOver] at h
  cases hmoved : n.move ids a with
  | error e => rw [hmoved] at h; cases h
  | ok moved =>
    rw [hmoved] at h
    by_cases hempty : moved.isEmpty = true
    · simp only [bind, Except.bind, hempty, if_true] at h
      exact .inl ⟨congrArg Except.ok (ExtTreeSet.isEmpty_iff.1 hempty), h⟩
    · simp only [bind, Except.bind, hempty] at h
      cases htarget : n.closure moved with
      | error e => rw [htarget] at h; cases h
      | ok target =>
        cases hrest : n.rowOver ids symbols with
        | error e => rw [htarget, hrest] at h; cases h
        | ok rest =>
          rw [htarget, hrest] at h
          cases h
          have hne : moved ≠ ∅ := fun h => hempty (ExtTreeSet.isEmpty_iff.2 h)
          exact .inr ⟨target, rest, ⟨moved, hmoved, hne, htarget⟩, rfl, rfl⟩

/-- The symbols of a row are among those that have been tried, in their order. -/
theorem sublist_of_rowOver {symbols : List Symbol} {row : List (Symbol × StateSet)}
    (h : n.rowOver ids symbols = .ok row) : (row.map Prod.fst).Sublist symbols := by
  induction symbols generalizing row with
  | nil =>
    cases h
    exact .slnil
  | cons a symbols ih =>
    obtain ⟨-, hrest⟩ | ⟨target, rest, -, hrest, rfl⟩ := rowOver_cons h
    · exact (ih hrest).cons a
    · exact (ih hrest).cons_cons a

theorem mem_rowOver {symbols : List Symbol} {row : List (Symbol × StateSet)}
    (h : n.rowOver ids symbols = .ok row) {a : Symbol} {target : StateSet} :
    (a, target) ∈ row ↔ a ∈ symbols ∧ n.IsEdge ids a target := by
  induction symbols generalizing row with
  | nil =>
    cases h
    simp
  | cons b symbols ih =>
    obtain ⟨hmoved, hrest⟩ | ⟨target', rest, hedge, hrest, rfl⟩ := rowOver_cons h
    · rw [ih hrest, List.mem_cons]
      constructor
      · exact fun ⟨ha, hedge⟩ => ⟨.inr ha, hedge⟩
      · rintro ⟨rfl | ha, hedge⟩
        · obtain ⟨moved, hmoved', hne, -⟩ := hedge
          rw [hmoved] at hmoved'
          cases hmoved'
          exact absurd rfl hne
        · exact ⟨ha, hedge⟩
    · rw [List.mem_cons, ih hrest, List.mem_cons]
      constructor
      · rintro (heq | ⟨ha, hedge⟩)
        · cases heq
          exact ⟨.inl rfl, hedge⟩
        · exact ⟨.inr ha, hedge⟩
      · rintro ⟨rfl | ha, hedge'⟩
        · exact .inl (by rw [hedge.unique hedge'])
        · exact .inr ⟨ha, hedge'⟩

/-- A row fails at a member of the set that names no state, or else it is found symbol by
symbol. -/
theorem row_cases (n : Nfa) (ids : StateSet) :
    (∃ q ∈ ids, q ∉ n.states ∧ n.row ids = .error ⟨q⟩) ∨
      (∀ p ∈ ids, p ∈ n.states) ∧ n.row ids = n.rowOver ids n.alphabet.toList := by
  rw [Nfa.row]
  split
  · next q hq =>
    have hmissing := List.find?_some hq
    rw [Bool.not_eq_true', ← Bool.not_eq_true, ← ExtTreeMap.mem_iff_contains] at hmissing
    exact .inl ⟨q, ExtTreeSet.mem_toList.1 (List.mem_of_find?_eq_some hq), hmissing, rfl⟩
  · next hnone =>
    refine .inr ⟨fun p hp => ?_, rfl⟩
    have := List.find?_eq_none.1 hnone p (ExtTreeSet.mem_toList.2 hp)
    rwa [Bool.not_eq_true', Bool.not_eq_false, ← ExtTreeMap.mem_iff_contains] at this

theorem rowOver_of_row {row : List (Symbol × StateSet)} (h : n.row ids = .ok row) :
    n.rowOver ids n.alphabet.toList = .ok row := by
  obtain ⟨q, -, -, herror⟩ | ⟨-, hrow⟩ := n.row_cases ids
  · rw [herror] at h
    cases h
  · rwa [hrow] at h

/-- The edges of a set of states lead to closures, over symbols of the alphabet. -/
theorem mem_row {row : List (Symbol × StateSet)} (h : n.row ids = .ok row) {a : Symbol}
    {target : StateSet} : (a, target) ∈ row ↔ a ∈ n.alphabet ∧ n.IsEdge ids a target := by
  rw [mem_rowOver (rowOver_of_row h), ExtTreeSet.mem_toList]

/-- A row has at most one edge for a symbol. -/
theorem nodup_row {row : List (Symbol × StateSet)} (h : n.row ids = .ok row) :
    (row.map Prod.fst).Nodup := by
  exact (sublist_of_rowOver (rowOver_of_row h)).nodup (nodup_toList n.alphabet)

theorem rowOver_eq_ok_iff (hids : ∀ p ∈ ids, p ∈ n.states) {symbols : List Symbol} :
    (∃ row, n.rowOver ids symbols = .ok row) ↔ ∀ a ∈ symbols, ∀ p ∈ ids, ∀ q' q,
      Edge n.states p (some a) q' → Path n.states q' [] q → q ∈ n.states := by
  induction symbols with
  | nil => simp [rowOver]
  | cons a symbols ih =>
    obtain ⟨moved, hmoved⟩ := (move_eq_ok_iff (a := a)).2 hids
    have hclosure : (∃ c, n.closure moved = .ok c) ↔ ∀ p ∈ ids, ∀ q' q,
        Edge n.states p (some a) q' → Path n.states q' [] q → q ∈ n.states := by
      rw [closure_eq_ok_iff]
      constructor
      · exact fun h p hp q' q hedge hpath => h q' ((mem_move hmoved).2 ⟨p, hp, hedge⟩) q hpath
      · intro h q' hq' q hpath
        obtain ⟨p, hp, hedge⟩ := (mem_move hmoved).1 hq'
        exact h p hp q' q hedge hpath
    rw [List.forall_mem_cons, ← hclosure, ← ih]
    constructor
    · rintro ⟨row, hrow⟩
      obtain ⟨hempty, hrest⟩ | ⟨target, rest, hedge, hrest, -⟩ := rowOver_cons hrow
      · rw [hmoved] at hempty
        cases hempty
        exact ⟨closure_eq_ok_iff.2 (by simp), row, hrest⟩
      · obtain ⟨moved', hmoved', -, htarget⟩ := hedge
        rw [hmoved] at hmoved'
        cases hmoved'
        exact ⟨⟨target, htarget⟩, rest, hrest⟩
    · rintro ⟨⟨target, htarget⟩, rest, hrest⟩
      rw [rowOver, hmoved]
      by_cases hempty : moved.isEmpty = true
      · exact ⟨rest, by simp only [bind, Except.bind, hempty, if_true, hrest]⟩
      · refine ⟨(a, target) :: rest, ?_⟩
        simp only [bind, Except.bind, hempty, htarget, hrest]
        rfl

/-- The edges of a set of states can be found exactly if its members, and all that is reached from
them by reading a symbol of the alphabet, are states. -/
theorem row_eq_ok_iff : (∃ row, n.row ids = .ok row) ↔ (∀ p ∈ ids, p ∈ n.states) ∧
    ∀ a ∈ n.alphabet, ∀ p ∈ ids, ∀ q' q, Edge n.states p (some a) q' → Path n.states q' [] q →
      q ∈ n.states := by
  obtain ⟨q, hq, hmissing, herror⟩ | ⟨hids, hrow⟩ := n.row_cases ids
  · rw [herror]
    constructor
    · rintro ⟨row, hrow⟩
      cases hrow
    · exact fun h => absurd (h.1 q hq) hmissing
  · rw [hrow, rowOver_eq_ok_iff hids]
    simp only [ExtTreeSet.mem_toList]
    exact (and_iff_right hids).symm

/-- Where the edges of a set of states can be found, there is one for each symbol of the alphabet
that one of its members reads. -/
theorem exists_isEdge (h : ∃ row, n.row ids = .ok row) {a : Symbol} (ha : a ∈ n.alphabet)
    (hread : ∃ p ∈ ids, ∃ q, Edge n.states p (some a) q) : ∃ target, n.IsEdge ids a target := by
  obtain ⟨hids, hinside⟩ := row_eq_ok_iff.1 h
  obtain ⟨moved, hmoved⟩ := (move_eq_ok_iff (a := a)).2 hids
  have hclosed : ∀ q' ∈ moved, ∀ q, Path n.states q' [] q → q ∈ n.states := by
    intro q' hq' q hpath
    obtain ⟨p, hp, hedge⟩ := (mem_move hmoved).1 hq'
    exact hinside a ha p hp q' q hedge hpath
  obtain ⟨target, htarget⟩ := closure_eq_ok_iff.2 hclosed
  obtain ⟨p, hp, q, hedge⟩ := hread
  have hne : moved ≠ ∅ := ExtTreeSet.ne_empty_of_mem ((mem_move hmoved).2 ⟨p, hp, hedge⟩)
  exact ⟨target, moved, hmoved, hne, htarget⟩

/-! ### The sets that are reached -/

theorem reaches_subsetEdges {first : StateSet} (hfirst : n.LedTo [] first)
    (h : n.subsetEdges.Reaches [first] ids) :
    ids ≠ ∅ ∧ ∃ u, (∀ a ∈ u, a ∈ n.alphabet) ∧ n.LedTo u ids := by
  induction h with
  | first hids =>
    rw [List.mem_singleton.1 hids]
    have hstart : n.start ∈ first := (hfirst n.start).2 (.nil n.start)
    exact ⟨ExtTreeSet.ne_empty_of_mem hstart, [], by simp, hfirst⟩
  | next _ hexpand hc ih =>
    obtain ⟨-, u, halphabet, hu⟩ := ih
    obtain ⟨⟨a, target⟩, hmem, rfl⟩ := List.mem_map.1 hc
    obtain ⟨ha, hedge⟩ := (mem_row hexpand).1 hmem
    refine ⟨hedge.ne_empty, u ++ [a], ?_, hedge.ledTo hu⟩
    rw [List.forall_mem_append]
    exact ⟨halphabet, List.forall_mem_singleton.2 ha⟩

/-- Where words over the alphabet lead to states only, the edges of the sets that they lead to can
be found. -/
theorem LedTo.exists_row {u : List Symbol} (hu : n.LedTo u ids)
    (halphabet : ∀ a ∈ u, a ∈ n.alphabet)
    (h : ∀ v, (∀ a ∈ v, a ∈ n.alphabet) → n.StaysInside v) : ∃ row, n.row ids = .ok row := by
  refine row_eq_ok_iff.2 ⟨fun p hp => h u halphabet p ((hu p).1 hp), ?_⟩
  intro a ha p hp q' q hedge hpath
  have hua : ∀ b ∈ u ++ [a], b ∈ n.alphabet :=
    List.forall_mem_append.2 ⟨halphabet, List.forall_mem_singleton.2 ha⟩
  exact h _ hua q (Path.snoc_iff.2 ⟨p, q', (hu p).1 hp, hedge, hpath⟩)

end Nfa

namespace Dfa

variable {n : Nfa} {rows : List (StateSet × List (Symbol × StateSet))}

/-! ### Numbered sets -/

/-- Sets of states with their edges, numbered in their order. -/
def numbered (rows : List (StateSet × List (Symbol × StateSet))) :
    List (StateId × StateSet × List (Symbol × StateSet)) :=
  rows.zipIdx.map fun ((ids, row), i) => ((i : StateId), ids, row)

theorem mem_map_numbered {γ : Type} {f : StateId × StateSet × List (Symbol × StateSet) → γ}
    {x : γ} : x ∈ (numbered rows).map f ↔
      ∃ (k : Nat) (ids : StateSet) (row : List (Symbol × StateSet)),
        rows[k]? = some (ids, row) ∧ f (k, ids, row) = x := by
  rw [numbered, List.map_map, List.mem_map]
  constructor
  · rintro ⟨⟨⟨ids, row⟩, k⟩, hk, rfl⟩
    exact ⟨k, ids, row, List.mk_mem_zipIdx_iff_getElem?.1 hk, rfl⟩
  · rintro ⟨k, ids, row, hk, rfl⟩
    exact ⟨((ids, row), k), List.mk_mem_zipIdx_iff_getElem?.2 hk, rfl⟩

theorem nodup_numbered_fst : ((numbered rows).map Prod.fst).Nodup := by
  have hkeys : (numbered rows).map Prod.fst = (List.range rows.length).map Int.ofNat := by
    rw [numbered, List.map_map, List.range_eq_range', ← List.zipIdx_map_snd 0 rows, List.map_map]
    rfl
  rw [hkeys]
  exact List.nodup_range.map fun _ _ => Int.ofNat.inj

theorem map_set_numbered : (numbered rows).map (fun x => x.2.1) = rows.map Prod.fst := by
  have hrows : rows.map Prod.fst = (rows.zipIdx.map Prod.fst).map Prod.fst := by
    rw [List.zipIdx_map_fst]
  rw [hrows, numbered, List.map_map, List.map_map]
  rfl

/-- The numbers of the sets. -/
def numbering (rows : List (StateSet × List (Symbol × StateSet))) : ExtTreeMap StateSet StateId :=
  .ofList ((numbered rows).map fun (i, ids, _) => (ids, i))

theorem getElem?_numbering (hrows : (rows.map Prod.fst).Nodup) {ids : StateSet} {i : StateId} :
    (numbering rows)[ids]? = some i ↔
      ∃ (k : Nat) (row : List (Symbol × StateSet)), i = k ∧ rows[k]? = some (ids, row) := by
  rw [numbering, getElem?_ofList_eq_some_iff, mem_map_numbered]
  · constructor
    · rintro ⟨k, _, row, hk, heq⟩
      cases heq
      exact ⟨k, row, rfl, hk⟩
    · rintro ⟨k, row, rfl, hk⟩
      exact ⟨k, ids, row, hk, rfl⟩
  · rw [List.map_map]
    exact map_set_numbered.symm ▸ hrows

theorem getElem?_subsets_ofSubsets {i : StateId} {ids : StateSet} :
    (ofSubsets n rows).subsets[i]? = some ids ↔
      ∃ (k : Nat) (row : List (Symbol × StateSet)), i = k ∧ rows[k]? = some (ids, row) := by
  have hsubsets : (ofSubsets n rows).subsets =
      .ofList ((numbered rows).map fun (i, ids, _) => (i, ids)) := rfl
  rw [hsubsets, getElem?_ofList_eq_some_iff, mem_map_numbered]
  · constructor
    · rintro ⟨k, _, row, hk, heq⟩
      cases heq
      exact ⟨k, row, rfl, hk⟩
    · rintro ⟨k, row, rfl, hk⟩
      exact ⟨k, ids, row, hk, rfl⟩
  · rw [List.map_map]
    exact nodup_numbered_fst

/-- The state for a set of states. -/
def stateOf (n : Nfa) (rows : List (StateSet × List (Symbol × StateSet))) (ids : StateSet)
    (row : List (Symbol × StateSet)) : DfaState where
  accepting := n.acceptsIn ids
  edges := .ofList (row.map fun (a, target) => (a, (numbering rows).getD target 0))

theorem states_ofSubsets : (ofSubsets n rows).states =
    .ofList ((numbered rows).map fun (i, ids, row) => (i, stateOf n rows ids row)) := rfl

theorem getElem?_states_ofSubsets {i : StateId} {s : DfaState} :
    (ofSubsets n rows).states[i]? = some s ↔
      ∃ (k : Nat) (ids : StateSet) (row : List (Symbol × StateSet)),
        i = k ∧ rows[k]? = some (ids, row) ∧ s = stateOf n rows ids row := by
  rw [states_ofSubsets, getElem?_ofList_eq_some_iff, mem_map_numbered]
  · constructor
    · rintro ⟨k, ids, row, hk, heq⟩
      cases heq
      exact ⟨k, ids, row, rfl, hk, rfl⟩
    · rintro ⟨k, ids, row, rfl, hk, rfl⟩
      exact ⟨k, ids, row, hk, rfl⟩
  · rw [List.map_map]
    exact nodup_numbered_fst

/-! ### The automaton of sets -/

/-- What makes an automaton the automaton of the sets that words lead to: it records a set behind
each of its states, no set behind two of them, and has the edges of these sets. -/
structure Determinizes (d : Dfa) (n : Nfa) : Prop where
  /-- The start records the closure of the start. -/
  start_record : ∃ ids, d.subsets[d.start]? = some ids ∧ n.LedTo [] ids
  /-- Each set has one state. -/
  record_inj : ∀ (i j : StateId) (ids : StateSet),
    d.subsets[i]? = some ids → d.subsets[j]? = some ids → i = j
  /-- Each set is not empty, and some word over the alphabet leads to it. -/
  ledTo : ∀ (i : StateId) (ids : StateSet), d.subsets[i]? = some ids →
    ids ≠ ∅ ∧ ∃ u, (∀ a ∈ u, a ∈ n.alphabet) ∧ n.LedTo u ids
  /-- Each state has a set. -/
  exists_record : ∀ (i : StateId) (s : DfaState), d.states[i]? = some s →
    ∃ ids, d.subsets[i]? = some ids
  /-- The edges of each set can be found. -/
  exists_row : ∀ (i : StateId) (ids : StateSet), d.subsets[i]? = some ids →
    ∃ row, n.row ids = .ok row
  /-- The sets that edges lead to are recorded. -/
  exists_target : ∀ (i : StateId) (ids : StateSet) (a : Symbol) (target : StateSet),
    d.subsets[i]? = some ids → a ∈ n.alphabet → n.IsEdge ids a target →
      ∃ j : StateId, d.subsets[j]? = some target
  /-- Each set has a state, which accepts if one of its members does and has the edges of the
  set. -/
  exists_state : ∀ (i : StateId) (ids : StateSet), d.subsets[i]? = some ids →
    ∃ s, d.states[i]? = some s ∧ s.accepting = n.acceptsIn ids ∧
      ∀ (a : Symbol) (j : StateId), s.edges[a]? = some j ↔
        ∃ target, a ∈ n.alphabet ∧ n.IsEdge ids a target ∧ d.subsets[j]? = some target

theorem ofNfa_eq_ok_iff {d : Dfa} : ofNfa n = .ok d ↔ ∃ first rows,
    n.closure (.ofList [n.start]) = .ok first ∧ n.subsetEdges.visit [first] = .ok rows ∧
      ofSubsets n rows = d := by
  rw [ofNfa]
  cases hfirst : n.closure (.ofList [n.start]) with
  | error e => simp [bind, Except.bind]
  | ok first =>
    cases hrows : n.subsetEdges.visit [first] with
    | error e => simp [bind, Except.bind, hrows]
    | ok rows => simp [bind, Except.bind, pure, Except.pure, hrows]

section Visit

variable {first : StateSet} (hrows : n.subsetEdges.visit [first] = .ok rows)

include hrows

theorem reaches_of_getElem? {k : Nat} {ids : StateSet} {row : List (Symbol × StateSet)}
    (hk : rows[k]? = some (ids, row)) :
    n.subsetEdges.Reaches [first] ids ∧ n.row ids = .ok row :=
  (Exploration.mem_visit_iff hrows).1 (List.mem_of_getElem? hk)

theorem exists_getElem?_of_reaches {ids : StateSet} (h : n.subsetEdges.Reaches [first] ids) :
    ∃ (k : Nat) (row : List (Symbol × StateSet)), rows[k]? = some (ids, row) := by
  obtain ⟨⟨_, row⟩, hx, rfl⟩ := List.mem_map.1 ((Exploration.reaches_iff_mem_map_fst hrows).1 h)
  obtain ⟨k, hk⟩ := List.mem_iff_getElem?.1 hx
  exact ⟨k, row, hk⟩

/-- No set is numbered twice. -/
theorem index_inj {k l : Nat} {ids : StateSet} {row row' : List (Symbol × StateSet)}
    (hk : rows[k]? = some (ids, row)) (hl : rows[l]? = some (ids, row')) : k = l := by
  have hk' : (rows.map Prod.fst)[k]? = some ids := by rw [List.getElem?_map, hk]; rfl
  have hl' : (rows.map Prod.fst)[l]? = some ids := by rw [List.getElem?_map, hl]; rfl
  have hlt : k < (rows.map Prod.fst).length := (List.getElem?_eq_some_iff.1 hk').1
  exact (List.getElem?_inj hlt (Exploration.nodup_visit hrows)).1 (hk'.trans hl'.symm)

/-- The number of a set is the state that records it. -/
theorem getD_numbering_eq_iff {target : StateSet} (h : n.subsetEdges.Reaches [first] target)
    {j : StateId} :
    (numbering rows).getD target 0 = j ↔ (ofSubsets n rows).subsets[j]? = some target := by
  obtain ⟨l, row, hl⟩ := exists_getElem?_of_reaches hrows h
  have hgetD : (numbering rows).getD target 0 = l := by
    rw [ExtTreeMap.getD_eq_getD_getElem?,
      (getElem?_numbering (Exploration.nodup_visit hrows)).2 ⟨l, row, rfl, hl⟩, Option.getD_some]
  rw [hgetD, getElem?_subsets_ofSubsets]
  constructor
  · rintro rfl
    exact ⟨l, row, rfl, hl⟩
  · rintro ⟨l', row', rfl, hl'⟩
    rw [index_inj hrows hl hl']

theorem getElem?_edges_stateOf {ids : StateSet} {row : List (Symbol × StateSet)}
    (hids : n.subsetEdges.Reaches [first] ids) (hrow : n.row ids = .ok row) {a : Symbol}
    {j : StateId} : (stateOf n rows ids row).edges[a]? = some j ↔
      ∃ target, a ∈ n.alphabet ∧ n.IsEdge ids a target ∧
        (ofSubsets n rows).subsets[j]? = some target := by
  have hkeys : ((row.map fun (a, target) => (a, (numbering rows).getD target 0)).map
      Prod.fst).Nodup := by
    rw [List.map_map]
    exact Nfa.nodup_row hrow
  have hreaches {b : Symbol} {target : StateSet} (hx : (b, target) ∈ row) :
      n.subsetEdges.Reaches [first] target :=
    hids.next hrow (List.mem_map.2 ⟨(b, target), hx, rfl⟩)
  rw [stateOf, getElem?_ofList_eq_some_iff hkeys, List.mem_map]
  constructor
  · rintro ⟨⟨b, target⟩, hx, heq⟩
    obtain ⟨rfl, hj⟩ := Prod.mk.inj heq
    obtain ⟨ha, hedge⟩ := (Nfa.mem_row hrow).1 hx
    exact ⟨target, ha, hedge, (getD_numbering_eq_iff hrows (hreaches hx)).1 hj⟩
  · rintro ⟨target, ha, hedge, hj⟩
    have hx : (a, target) ∈ row := (Nfa.mem_row hrow).2 ⟨ha, hedge⟩
    have hnumber := (getD_numbering_eq_iff hrows (hreaches hx)).2 hj
    exact ⟨(a, target), hx, Prod.ext rfl hnumber⟩

end Visit

/-- The subset construction gives the automaton of the sets that words lead to. -/
theorem determinizes_of_ofNfa {d : Dfa} (h : ofNfa n = .ok d) : d.Determinizes n := by
  obtain ⟨first, rows, hfirst, hrows, rfl⟩ := ofNfa_eq_ok_iff.1 h
  have hledTo := Nfa.ledTo_closure_start hfirst
  refine { start_record := ?start_record, record_inj := ?record_inj, ledTo := ?ledTo,
           exists_record := ?exists_record, exists_row := ?exists_row,
           exists_target := ?exists_target, exists_state := ?exists_state }
  case start_record =>
    obtain ⟨k, row, hk⟩ := exists_getElem?_of_reaches hrows (.first List.mem_cons_self)
    have hhead := Exploration.head?_visit_singleton (reaches_of_getElem? hrows hk).2 hrows
    rw [List.head?_eq_getElem?] at hhead
    exact ⟨first, getElem?_subsets_ofSubsets.2 ⟨0, row, rfl, hhead⟩, hledTo⟩
  case record_inj =>
    intro i j ids hi hj
    obtain ⟨k, row, rfl, hk⟩ := getElem?_subsets_ofSubsets.1 hi
    obtain ⟨l, row', rfl, hl⟩ := getElem?_subsets_ofSubsets.1 hj
    rw [index_inj hrows hk hl]
  case ledTo =>
    intro i ids hi
    obtain ⟨k, row, rfl, hk⟩ := getElem?_subsets_ofSubsets.1 hi
    exact Nfa.reaches_subsetEdges hledTo (reaches_of_getElem? hrows hk).1
  case exists_record =>
    intro i s hi
    obtain ⟨k, ids, row, rfl, hk, rfl⟩ := getElem?_states_ofSubsets.1 hi
    exact ⟨ids, getElem?_subsets_ofSubsets.2 ⟨k, row, rfl, hk⟩⟩
  case exists_row =>
    intro i ids hi
    obtain ⟨k, row, rfl, hk⟩ := getElem?_subsets_ofSubsets.1 hi
    exact ⟨row, (reaches_of_getElem? hrows hk).2⟩
  case exists_target =>
    intro i ids a target hi ha hedge
    obtain ⟨k, row, rfl, hk⟩ := getElem?_subsets_ofSubsets.1 hi
    obtain ⟨hreaches, hrow⟩ := reaches_of_getElem? hrows hk
    have htarget : target ∈ n.subsetEdges.successors row :=
      List.mem_map.2 ⟨(a, target), (Nfa.mem_row hrow).2 ⟨ha, hedge⟩, rfl⟩
    obtain ⟨l, row', hl⟩ := exists_getElem?_of_reaches hrows (hreaches.next hrow htarget)
    exact ⟨l, getElem?_subsets_ofSubsets.2 ⟨l, row', rfl, hl⟩⟩
  case exists_state =>
    intro i ids hi
    obtain ⟨k, row, rfl, hk⟩ := getElem?_subsets_ofSubsets.1 hi
    obtain ⟨hreaches, hrow⟩ := reaches_of_getElem? hrows hk
    have hstate : (ofSubsets n rows).states[(k : StateId)]? = some (stateOf n rows ids row) :=
      getElem?_states_ofSubsets.2 ⟨k, ids, row, rfl, hk, rfl⟩
    exact ⟨_, hstate, rfl, fun a j => getElem?_edges_stateOf hrows hreaches hrow⟩

/-- Where words over the alphabet lead to states only, the subset construction succeeds. -/
theorem exists_ofNfa (h : ∀ v, (∀ a ∈ v, a ∈ n.alphabet) → n.StaysInside v) :
    ∃ d, ofNfa n = .ok d := by
  obtain ⟨first, hfirst, hledTo⟩ := Nfa.exists_closure_start (h [] (by simp))
  have hexpand : ∀ ids, n.subsetEdges.Reaches [first] ids →
      ∃ row, n.subsetEdges.expand ids = .ok row := by
    intro ids hids
    obtain ⟨-, u, halphabet, hu⟩ := Nfa.reaches_subsetEdges hledTo hids
    exact hu.exists_row halphabet h
  obtain ⟨rows, hrows⟩ := Exploration.visit_eq_ok_iff.2 hexpand
  exact ⟨ofSubsets n rows, ofNfa_eq_ok_iff.2 ⟨first, rows, hfirst, hrows, rfl⟩⟩

namespace Determinizes

variable {d : Dfa} (h : d.Determinizes n)

include h

theorem mem_states_of_record {i : StateId} {ids : StateSet} (hi : d.subsets[i]? = some ids) :
    i ∈ d.states := by
  obtain ⟨s, hs, -⟩ := h.exists_state i ids hi
  exact mem_states_iff.2 ⟨s, hs⟩

/-- An edge reads a symbol of the alphabet and leads to a state that records a set. -/
theorem exists_record_of_edge {i : StateId} {s : DfaState} (hs : d.states[i]? = some s)
    {a : Symbol} {j : StateId} (hj : s.edges[a]? = some j) :
    a ∈ n.alphabet ∧ ∃ target, d.subsets[j]? = some target := by
  obtain ⟨ids, hids⟩ := h.exists_record i s hs
  obtain ⟨s', hs', -, hedges⟩ := h.exists_state i ids hids
  rw [hs, Option.some_inj] at hs'
  subst hs'
  obtain ⟨target, ha, -, htarget⟩ := (hedges a j).1 hj
  exact ⟨ha, target, htarget⟩

theorem closed : d.Closed := by
  constructor
  · obtain ⟨ids, hids, -⟩ := h.start_record
    exact h.mem_states_of_record hids
  · intro i s a j hs hj
    obtain ⟨-, target, htarget⟩ := h.exists_record_of_edge hs hj
    exact h.mem_states_of_record htarget

/-- The symbols on edges belong to the alphabet. -/
theorem mem_alphabet {i : StateId} {s : DfaState} (hs : d.states[i]? = some s) {a : Symbol}
    {j : StateId} (hj : s.edges[a]? = some j) : a ∈ n.alphabet :=
  (h.exists_record_of_edge hs hj).1

theorem acceptsAt_iff {i : StateId} {ids : StateSet} (hi : d.subsets[i]? = some ids) :
    d.acceptsAt i = true ↔ ∃ q ∈ ids, ∃ s, n.states[q]? = some s ∧ s.accepting = true := by
  obtain ⟨s, hs, haccepting, -⟩ := h.exists_state i ids hi
  rw [acceptsAt, hs, Option.any_some, haccepting, Nfa.acceptsIn_iff]

theorem follow_cons_eq {i : StateId} {ids : StateSet} (hi : d.subsets[i]? = some ids)
    (a : Symbol) (w : List Symbol) {k : StateId} : d.follow i (a :: w) = some k ↔
      ∃ j target, a ∈ n.alphabet ∧ n.IsEdge ids a target ∧ d.subsets[j]? = some target ∧
        d.follow j w = some k := by
  obtain ⟨s, hs, -, hedges⟩ := h.exists_state i ids hi
  rw [follow_cons hs, Option.bind_eq_some_iff]
  constructor
  · rintro ⟨j, hj, hfollow⟩
    obtain ⟨target, ha, hedge, htarget⟩ := (hedges a j).1 hj
    exact ⟨j, target, ha, hedge, htarget, hfollow⟩
  · rintro ⟨j, target, ha, hedge, htarget, hfollow⟩
    exact ⟨j, (hedges a j).2 ⟨target, ha, hedge, htarget⟩, hfollow⟩

/-- From the state that records what `u` leads to, a word can be followed to its end exactly if it
is over the alphabet and leads somewhere after `u`. -/
theorem follow_isSome_iff {i : StateId} {ids : StateSet} (hi : d.subsets[i]? = some ids)
    {u : List Symbol} (hu : n.LedTo u ids) (w : List Symbol) : (d.follow i w).isSome ↔
      (∀ a ∈ w, a ∈ n.alphabet) ∧ ∃ q, Path n.states n.start (u ++ w) q := by
  induction w generalizing i ids u with
  | nil =>
    obtain ⟨q, hq⟩ : ∃ q, q ∈ ids := by
      by_contra hnone
      exact (h.ledTo i ids hi).1 (ExtTreeSet.eq_empty_iff_forall_not_mem.2 (not_exists.1 hnone))
    simpa [follow] using ⟨q, (hu q).1 hq⟩
  | cons a w ih =>
    rw [Option.isSome_iff_exists]
    simp only [h.follow_cons_eq hi]
    rw [List.forall_mem_cons]
    constructor
    · rintro ⟨k, j, target, ha, hedge, htarget, hfollow⟩
      have hsome : (d.follow j w).isSome := by rw [hfollow, Option.isSome_some]
      obtain ⟨hw, q, hq⟩ := (ih htarget (hedge.ledTo hu)).1 hsome
      rw [List.append_assoc] at hq
      exact ⟨⟨ha, hw⟩, q, hq⟩
    · rintro ⟨⟨ha, hw⟩, q, hq⟩
      rw [← List.singleton_append, ← List.append_assoc] at hq
      obtain ⟨q', hq', -⟩ := Path.append_iff.1 hq
      obtain ⟨p, p', hp, hedge, -⟩ := Path.snoc_iff.1 hq'
      obtain ⟨target, htarget⟩ :=
        Nfa.exists_isEdge (h.exists_row i ids hi) ha ⟨p, (hu p).2 hp, p', hedge⟩
      obtain ⟨j, hj⟩ := h.exists_target i ids a target hi ha htarget
      have hsome := (ih hj (htarget.ledTo hu)).2 ⟨hw, q, hq⟩
      obtain ⟨k, hk⟩ := Option.isSome_iff_exists.1 hsome
      exact ⟨k, j, target, ha, htarget, hj, hk⟩

/-- The state that a word is followed to records all ids that the word leads to. -/
theorem record_of_follow {i : StateId} {ids : StateSet} (hi : d.subsets[i]? = some ids)
    {u : List Symbol} (hu : n.LedTo u ids) {w : List Symbol} {k : StateId}
    (hk : d.follow i w = some k) : ∃ target, d.subsets[k]? = some target ∧
      n.LedTo (u ++ w) target := by
  induction w generalizing i ids u with
  | nil =>
    cases hk
    exact ⟨ids, hi, by rwa [List.append_nil]⟩
  | cons a w ih =>
    obtain ⟨j, target, -, hedge, htarget, hfollow⟩ := (h.follow_cons_eq hi a w).1 hk
    obtain ⟨target', htarget', hledTo⟩ := ih htarget (hedge.ledTo hu) hfollow
    rw [List.append_assoc] at hledTo
    exact ⟨target', htarget', hledTo⟩

/-- A word is accepted exactly if it is over the alphabet and is the word on a path to an accepting
state. -/
theorem accepts_eq (w : List Symbol) : ∃ b, d.accepts w = .ok b ∧ (b = true ↔
    (∀ a ∈ w, a ∈ n.alphabet) ∧
      ∃ q s, Path n.states n.start w q ∧ n.states[q]? = some s ∧ s.accepting = true) := by
  refine ⟨_, h.closed.accepts_eq w, ?_⟩
  obtain ⟨ids, hids, hstart⟩ := h.start_record
  have hsome := h.follow_isSome_iff hids hstart w
  rw [Option.any_eq_true]
  constructor
  · rintro ⟨k, hk, haccepts⟩
    rw [hk] at hsome
    obtain ⟨target, htarget, hledTo⟩ := h.record_of_follow hids hstart hk
    obtain ⟨q, hq, s, hs, haccepting⟩ := (h.acceptsAt_iff htarget).1 haccepts
    exact ⟨(hsome.1 rfl).1, q, s, (hledTo q).1 hq, hs, haccepting⟩
  · rintro ⟨hw, q, s, hpath, hs, haccepting⟩
    obtain ⟨k, hk⟩ := Option.isSome_iff_exists.1 (hsome.2 ⟨hw, q, hpath⟩)
    obtain ⟨target, htarget, hledTo⟩ := h.record_of_follow hids hstart hk
    exact ⟨k, hk, (h.acceptsAt_iff htarget).2 ⟨q, (hledTo q).2 hpath, s, hs, haccepting⟩⟩

end Determinizes

/-- **The subset construction keeps the meaning.** Where words over the alphabet lead to states
only, the construction succeeds. Its automaton has a run on a word exactly if the word is over the
alphabet and the closures met on the walk are not empty; the run ends in the state that records the
last of them. The word is accepted exactly if, moreover, the last closure holds an accepting
state. -/
theorem ofNfa_run_iff_walk (n : Nfa) (h : ∀ w, (∀ a ∈ w, a ∈ n.alphabet) →
      ∀ q, Path n.states n.start w q → q ∈ n.states) :
    ∃ d, ofNfa n = .ok d ∧ ∀ w,
      ((∀ a ∈ w, a ∈ n.alphabet) →
        ∃ sets, n.walk w = .ok sets ∧ sets.length = w.length + 1) ∧
      ((d.follow d.start w).isSome ↔ (∀ a ∈ w, a ∈ n.alphabet) ∧
        ∃ sets, n.walk w = .ok sets ∧ ∀ ids ∈ sets, ids ≠ ∅) ∧
      (∀ i, d.follow d.start w = some i → ∃ sets ids, n.walk w = .ok sets ∧
        sets.getLast? = some ids ∧ d.subsets[i]? = some ids) ∧
      ∃ b, d.accepts w = .ok b ∧ (b = true ↔ (∀ a ∈ w, a ∈ n.alphabet) ∧ n.Accepts w) := by
  obtain ⟨d, hd⟩ := exists_ofNfa h
  refine ⟨d, hd, fun w => ?_⟩
  have hdet := determinizes_of_ofNfa hd
  obtain ⟨ids, hids, hstart⟩ := hdet.start_record
  have hsome := hdet.follow_isSome_iff hids hstart w
  rw [List.nil_append] at hsome
  have hinside (hw : ∀ a ∈ w, a ∈ n.alphabet) : ∀ v, v <+: w → n.StaysInside v :=
    fun v hv => h v fun a ha => hw a (hv.subset ha)
  refine ⟨fun hw => ?_, hsome.trans (and_congr_right fun hw => ?_), fun i hi => ?_, ?_⟩
  · obtain ⟨sets, -, hsets, -, -, hlength, -⟩ := Nfa.exists_walk w (hinside hw)
    exact ⟨sets, hsets, hlength⟩
  · obtain ⟨sets, last, hsets, hlast, hledTo, -, hled⟩ := Nfa.exists_walk w (hinside hw)
    constructor
    · rintro ⟨q, hq⟩
      refine ⟨sets, hsets, fun ids hids => ?_⟩
      obtain ⟨k, hk⟩ := List.mem_iff_getElem?.1 hids
      rw [← List.take_append_drop k w] at hq
      obtain ⟨p, hp, -⟩ := Path.append_iff.1 hq
      exact ExtTreeSet.ne_empty_of_mem ((hled k ids hk p).2 hp)
    · rintro ⟨sets', hsets', hne⟩
      rw [hsets] at hsets'
      cases hsets'
      have hlastne := hne last (List.mem_of_getLast? hlast)
      rw [ne_eq, ExtTreeSet.eq_empty_iff_forall_not_mem, not_forall_not] at hlastne
      obtain ⟨q, hq⟩ := hlastne
      exact ⟨q, (hledTo q).1 hq⟩
  · rw [hi] at hsome
    obtain ⟨sets, last, hsets, hlast, hledTo, -⟩ := Nfa.exists_walk w (hinside (hsome.1 rfl).1)
    obtain ⟨target, htarget, hledTo'⟩ := hdet.record_of_follow hids hstart hi
    obtain rfl := hledTo.unique hledTo'
    exact ⟨sets, last, hsets, hlast, htarget⟩
  · obtain ⟨b, hb, hiff⟩ := hdet.accepts_eq w
    refine ⟨b, hb, hiff.trans (and_congr_right fun hw => ?_)⟩
    exact (Nfa.accepts_iff_path w (hinside hw)).symm

/-- An automaton with a cycle of silent edges, two accepting states, a symbol of the alphabet that
no edge reads, and an edge outside the alphabet to an id that names no state. -/
def straying : Nfa where
  start := -3
  states := .ofList [
    ((-3 : StateId), (({} : NfaState).addEdge "a" 4).addSilent 4),
    ((4 : StateId), (({ accepting := true } : NfaState).addEdge "b" 7).addSilent (-3)),
    ((5 : StateId), { accepting := true })]
  alphabet := .ofList ["a", "c"]

theorem edge_straying_iff {p : StateId} {label : Option Symbol} {q : StateId} :
    Edge straying.states p label q ↔
      (p = -3 ∧ (label = none ∨ label = some "a") ∧ q = 4) ∨
        (p = 4 ∧ label = none ∧ q = -3) ∨ (p = 4 ∧ label = some "b" ∧ q = 7) := by
  have hnodup : [(-3 : StateId), 4, 5].Nodup := by decide
  have hstate {s : NfaState} := getElem?_ofList_eq_some_iff (k := p) (v := s) (l := [
    ((-3 : StateId), (({} : NfaState).addEdge "a" 4).addSilent 4),
    ((4 : StateId), (({ accepting := true } : NfaState).addEdge "b" 7).addSilent (-3)),
    ((5 : StateId), { accepting := true })]) hnodup
  rw [Edge, straying]
  simp only [hstate, List.mem_cons, Prod.mk.injEq, List.not_mem_nil, or_false]
  constructor
  · rintro ⟨s, ⟨rfl, rfl⟩ | ⟨rfl, rfl⟩ | ⟨rfl, rfl⟩, hleads⟩
    · simp at hleads
      tauto
    · simp at hleads
      tauto
    · simp at hleads
  · rintro (⟨rfl, hlabel, rfl⟩ | ⟨rfl, rfl, rfl⟩ | ⟨rfl, rfl, rfl⟩)
    · exact ⟨_, .inl ⟨rfl, rfl⟩, by simpa using hlabel⟩
    · exact ⟨_, .inr (.inl ⟨rfl, rfl⟩), by simp⟩
    · exact ⟨_, .inr (.inl ⟨rfl, rfl⟩), by simp⟩

theorem mem_alphabet_straying_iff {a : Symbol} : a ∈ straying.alphabet ↔ a = "a" ∨ a = "c" := by
  simp [straying, ExtTreeSet.mem_ofList]

/-- The words over the alphabet stay in the cycle. -/
theorem path_straying {p q : StateId} {w : List Symbol} (h : Path straying.states p w q)
    (hp : p = -3 ∨ p = 4) (hw : ∀ a ∈ w, a ∈ straying.alphabet) : q = -3 ∨ q = 4 := by
  induction h with
  | nil => exact hp
  | silent he _ ih =>
    refine ih ?_ hw
    rcases edge_straying_iff.1 he with ⟨-, -, rfl⟩ | ⟨-, -, rfl⟩ | ⟨-, hlabel, -⟩
    · exact .inr rfl
    · exact .inl rfl
    · cases hlabel
  | read he _ ih =>
    rw [List.forall_mem_cons, mem_alphabet_straying_iff] at hw
    refine ih ?_ hw.2
    rcases edge_straying_iff.1 he with ⟨-, -, rfl⟩ | ⟨-, hlabel, -⟩ | ⟨-, hlabel, -⟩
    · exact .inr rfl
    · cases hlabel
    · obtain rfl := Option.some_inj.1 hlabel
      simp at hw

theorem mem_states_straying (w : List Symbol) (hw : ∀ a ∈ w, a ∈ straying.alphabet) (q : StateId)
    (hq : Path straying.states straying.start w q) : q ∈ straying.states := by
  rcases path_straying hq (.inl rfl) hw with rfl | rfl
  · simp [straying, ExtTreeMap.mem_ofList]
  · simp [straying, ExtTreeMap.mem_ofList]

theorem accepts_straying_iff {w : List Symbol} (hw : ∀ a ∈ w, a ∈ straying.alphabet) :
    straying.Accepts w ↔ ∃ q s, Path straying.states straying.start w q ∧
      straying.states[q]? = some s ∧ s.accepting = true :=
  Nfa.accepts_iff_path w fun v hv => mem_states_straying v fun a ha => hw a (hv.subset ha)

/-- The automaton that strays is determinized, as no word over its alphabet leads to the id that
names no state. Its cycle reads any number of the one symbol, and never the other. -/
theorem ofNfa_straying : (∀ w, (∀ a ∈ w, a ∈ straying.alphabet) →
      ∀ q, Path straying.states straying.start w q → q ∈ straying.states) ∧
    ∃ d, ofNfa straying = .ok d ∧ d.accepts ["a", "a"] = .ok true ∧
      d.accepts ["c"] = .ok false := by
  obtain ⟨d, hd, hall⟩ := ofNfa_run_iff_walk straying mem_states_straying
  refine ⟨mem_states_straying, d, hd, ?_, ?_⟩
  · obtain ⟨-, -, -, b, hb, hiff⟩ := hall ["a", "a"]
    have hword : ∀ a ∈ ["a", "a"], a ∈ straying.alphabet := by simp [mem_alphabet_straying_iff]
    have hpath : Path straying.states (-3) ["a", "a"] 4 :=
      .read (edge_straying_iff.2 (.inl ⟨rfl, .inr rfl, rfl⟩))
        (.silent (edge_straying_iff.2 (.inr (.inl ⟨rfl, rfl, rfl⟩)))
          (.of_read (edge_straying_iff.2 (.inl ⟨rfl, .inr rfl, rfl⟩))))
    have hlast : straying.states[(4 : StateId)]? = some
        ((({ accepting := true } : NfaState).addEdge "b" 7).addSilent (-3)) :=
      (getElem?_ofList_eq_some_iff (by decide)).2 (by simp)
    rw [hb, hiff.2 ⟨hword, (accepts_straying_iff hword).2 ⟨4, _, hpath, hlast, rfl⟩⟩]
  · obtain ⟨-, -, -, b, hb, hiff⟩ := hall ["c"]
    have hword : ∀ a ∈ ["c"], a ∈ straying.alphabet := by simp [mem_alphabet_straying_iff]
    rw [hb, Except.ok.injEq, Bool.eq_false_iff, ne_eq, hiff, accepts_straying_iff hword]
    rintro ⟨-, q, s, hpath, -⟩
    obtain ⟨_, _, -, hedge, -⟩ := Path.singleton_iff.1 hpath
    simp [edge_straying_iff] at hedge

end Dfa

end PatternMachines
