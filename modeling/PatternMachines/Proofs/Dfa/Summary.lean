import PatternMachines.Dfa.Summary
import PatternMachines.Proofs.Dfa.Alias
import PatternMachines.Proofs.Dfa.Trim
import PatternMachines.Proofs.Fallible

/-!
# What summaries show

An automaton has a summary exactly if it is closed. The summary lists the states by the numbers of
their aliases, `S2` before `S10`, and so the accepting and the dead ones. It lists each edge once,
by the number of its source and then by its symbol.

## Main definitions

* `Dfa.numberedEdges`: the edges between the numbers of aliases, in the order of the summary.
* `Dfa.ListsAliases`, `Dfa.Precedes`: lists of states and the order of edges in a summary.
* `Dfa.Summary.Describes`: what a summary shows of an automaton.

## Main results

* `Dfa.sortAliases_toList`, `Dfa.listsAliases_sortAliases`: a set of states in a summary.
* `Dfa.mem_numberedEdges`, `Dfa.pairwise_precedes_numberedEdges`: the edges in a summary.
* `Dfa.Closed.summary_eq_ok`, `Dfa.Closed.exists_summary`: closed automata are described by their
  summaries.
* `Dfa.exists_summary_eq_error_iff`, `Dfa.not_mem_states_of_summary`: the automata without one.
-/

namespace PatternMachines.Dfa

open Std

variable {d : Dfa} {i j : StateId} {s : DfaState} {x : Symbol} {k l : Nat} {e : MissingState}

/-! ### Lists of states -/

/-- Whether `names` are the aliases of the states in `ids`, each once and in the order of their
numbers. -/
def ListsAliases (number : StateId → Nat) (ids : Set StateId) (names : List String) : Prop :=
  ∃ ks : List Nat, ks.Pairwise (· < ·) ∧ (∀ k, k ∈ ks ↔ k ∈ number '' ids) ∧
    names = ks.map aliasName

theorem ListsAliases.mem_iff {number : StateId → Nat} {ids : Set StateId} {names : List String}
    (h : ListsAliases number ids names) : aliasName k ∈ names ↔ k ∈ number '' ids := by
  obtain ⟨ks, -, hks, rfl⟩ := h
  rw [List.mem_map_of_injective aliasName_injective, hks]

/-- Sorting the aliases of a set of states gives them in the order of the aliases. -/
theorem sortAliases_toList {ids : StateSet} (hids : ∀ i ∈ ids, i ∈ d.aliasOrder) :
    sortAliases (ids.toList.map fun i => aliasName (d.number i)) =
      (d.aliasOrder.filter ids.contains).map fun i => aliasName (d.number i) := by
  have hperm : ids.toList.Perm (d.aliasOrder.filter ids.contains) := by
    refine (List.perm_ext_iff_of_nodup (nodup_toList ids) (nodup_aliasOrder.filter _)).2 fun i => ?_
    rw [ExtTreeSet.mem_toList, List.mem_filter, ExtTreeSet.contains_iff_mem]
    exact (and_iff_right_of_imp (hids i)).symm
  have hsorted : ((ids.toList.map d.number).mergeSort fun k l => decide (k ≤ l)).Pairwise
      fun k l => decide (k ≤ l) = true :=
    List.pairwise_mergeSort (by simpa using fun _ _ _ => Nat.le_trans)
      (by simpa using Nat.le_total) _
  have hnumbers : ((d.aliasOrder.filter ids.contains).map d.number).Pairwise (· ≤ ·) :=
    List.pairwise_map.2 ((pairwise_number_lt_aliasOrder.filter _).imp Nat.le_of_lt)
  have heq : (ids.toList.map d.number).mergeSort (fun k l => decide (k ≤ l)) =
      (d.aliasOrder.filter ids.contains).map d.number :=
    ((List.mergeSort_perm _ _).trans (hperm.map _)).eq_of_pairwise
      (fun _ _ _ _ => Nat.le_antisymm) (hsorted.imp of_decide_eq_true) hnumbers
  have hsort := sortAliases_map_aliasName (ids.toList.map d.number)
  rw [heq, List.map_map, List.map_map] at hsort
  exact hsort

/-- The aliases of a set of states are listed by sorting them. -/
theorem listsAliases_sortAliases {ids : StateSet} (hids : ∀ i ∈ ids, i ∈ d.aliasOrder) :
    ListsAliases d.number {i | i ∈ ids}
      (sortAliases (ids.toList.map fun i => aliasName (d.number i))) := by
  refine ⟨(d.aliasOrder.filter ids.contains).map d.number,
    List.pairwise_map.2 (pairwise_number_lt_aliasOrder.filter _), fun k => ?_, ?_⟩
  · simp only [List.mem_map, List.mem_filter, ExtTreeSet.contains_iff_mem]
    refine exists_congr fun i => and_congr_left fun _ => ?_
    exact and_iff_right_of_imp (hids i)
  · rw [sortAliases_toList hids, List.map_map]
    rfl

/-! ### Lists of edges -/

/-- Whether an edge between numbers stands before another one: by its source, then by its symbol. -/
def Precedes (e f : Nat × Symbol × Nat) : Prop := e.1 < f.1 ∨ e.1 = f.1 ∧ e.2.1 < f.2.1

/-- The edges of a state between the numbers of aliases. -/
def numberedEdgesOf (d : Dfa) (i : StateId) : List (Nat × Symbol × Nat) :=
  match d.states[i]? with
  | none => []
  | some s => s.edges.toList.map fun (x, j) => (d.number i, x, d.number j)

/-- The edges between the numbers of aliases. -/
def numberedEdges (d : Dfa) : List (Nat × Symbol × Nat) := d.aliasOrder.flatMap d.numberedEdgesOf

/-- An edge between numbers with the aliases. -/
def aliasedEdge (e : Nat × Symbol × Nat) : AliasedEdge := ⟨aliasName e.1, e.2.1, aliasName e.2.2⟩

theorem mem_numberedEdgesOf : (k, x, l) ∈ d.numberedEdgesOf i ↔
    ∃ s j, d.states[i]? = some s ∧ s.edges[x]? = some j ∧ d.number i = k ∧ d.number j = l := by
  rw [numberedEdgesOf]
  cases d.states[i]? with
  | none => simp
  | some s => simp [ExtTreeMap.mem_toList_iff_getElem?_eq_some]

theorem mem_numberedEdges : (k, x, l) ∈ d.numberedEdges ↔
    ∃ i s j, d.states[i]? = some s ∧ s.edges[x]? = some j ∧ d.number i = k ∧ d.number j = l := by
  rw [numberedEdges, List.mem_flatMap]
  simp only [mem_numberedEdgesOf]
  constructor
  · rintro ⟨i, -, h⟩
    exact ⟨i, h⟩
  · rintro ⟨i, s, j, hs, h⟩
    exact ⟨i, mem_aliasOrder.2 (.inr (mem_states_iff.2 ⟨s, hs⟩)), s, j, hs, h⟩

theorem pairwise_precedes_numberedEdges : d.numberedEdges.Pairwise Precedes := by
  refine List.pairwise_flatMap.2 ⟨fun i _ => ?_, pairwise_number_lt_aliasOrder.imp ?_⟩
  · rw [numberedEdgesOf]
    cases d.states[i]? with
    | none => exact .nil
    | some s =>
      refine List.pairwise_map.2 (ExtTreeMap.ordered_keys_toList.imp fun h => .inr ⟨rfl, ?_⟩)
      exact compareOfLessAndEq_eq_lt.1 h
  · rintro i j hlt ⟨k, x, l⟩ he ⟨k', x', l'⟩ hf
    obtain ⟨_, _, -, -, rfl, -⟩ := mem_numberedEdgesOf.1 he
    obtain ⟨_, _, -, -, rfl, -⟩ := mem_numberedEdgesOf.1 hf
    exact .inl hlt

/-! ### Summaries -/

/-- What a summary shows of an automaton, where `number` numbers the aliases. -/
structure Summary.Describes (s : Summary) (d : Dfa) (number : StateId → Nat) : Prop where
  /-- The states are those that have an alias. -/
  mem_aliases : ∀ i, i ∈ d.aliases ↔ i ∈ d.states
  /-- The aliases are given by the numbers. -/
  aliasOf_eq : ∀ i ∈ d.states, aliasOf d.aliases i = .ok (aliasName (number i))
  /-- The state of an alias is the one that has it. -/
  lookup_eq : ∀ name i, d.statesByAlias.lookup name = some i ↔ aliasOf d.aliases i = .ok name
  /-- The states are numbered without gaps. -/
  bijOn : Set.BijOn number {i | i ∈ d.states} (Set.Iio d.states.size)
  /-- The start comes first. -/
  number_start : number d.start = 0
  /-- The other states ascend. -/
  ascending : ∀ i ∈ d.states, ∀ j ∈ d.states, i ≠ d.start → j ≠ d.start → i < j →
    number i < number j
  /-- The symbols ascend. -/
  alphabet_eq : s.alphabet = d.alphabet.toList
  /-- The states are listed by their numbers. -/
  states_eq : s.states = (List.range d.states.size).map aliasName
  /-- The alias of the start is that of the first number. -/
  start_eq : s.start = aliasName 0
  /-- The accepting states are listed by their numbers. -/
  accepting : ListsAliases number {i | d.acceptsAt i = true} s.accepting
  /-- The dead states are listed by their numbers. -/
  dead : ListsAliases number {i | d.isDead i = .ok true} s.dead
  /-- The edges are listed by the numbers of their sources and by their symbols. -/
  edges : ∃ es : List (Nat × Symbol × Nat), es.Pairwise Precedes ∧
    (∀ k x l, (k, x, l) ∈ es ↔ ∃ i st j, d.states[i]? = some st ∧ st.edges[x]? = some j ∧
      number i = k ∧ number j = l) ∧ s.edges = es.map aliasedEdge

theorem mem_acceptingStates : i ∈ d.acceptingStates ↔ d.acceptsAt i = true := by
  rw [acceptingStates, ExtTreeSet.mem_ofList, List.contains_iff_mem, List.mem_filterMap, acceptsAt,
    Option.any_eq_true]
  simp only [Prod.exists, ExtTreeMap.mem_toList_iff_getElem?_eq_some, Option.ite_none_right_eq_some,
    Option.some.injEq]
  constructor
  · rintro ⟨_, s, hs, haccepting, rfl⟩
    exact ⟨s, hs, haccepting⟩
  · rintro ⟨s, hs, haccepting⟩
    exact ⟨i, s, hs, haccepting, rfl⟩

theorem isDead_eq_ok_true_iff :
    d.isDead i = .ok true ↔ ∃ s, d.states[i]? = some s ∧ isDeadState i s = true := by
  rw [isDead, state]
  cases d.states[i]? with
  | none => simp [Except.map]
  | some s => simp [Except.map]

theorem Closed.aliasedEdges_eq_ok (h : d.Closed) (hi : i ∈ d.aliasOrder) :
    d.aliasedEdges d.aliases (aliasName (d.number i)) i =
      .ok ((d.numberedEdgesOf i).map aliasedEdge) := by
  obtain ⟨s, hs⟩ := mem_states_iff.1 ((mem_aliasOrder_iff h.start_mem).1 hi)
  have hedges : s.edges.toList.mapM (m := Except MissingState) (fun (x, j) => do
      return (⟨aliasName (d.number i), x, ← aliasOf d.aliases j⟩ : AliasedEdge)) =
      .ok (s.edges.toList.map fun (x, j) => aliasedEdge (d.number i, x, d.number j)) := by
    refine mapM_eq_ok fun (x, j) hx => ?_
    have hj := h.target_mem i s x j hs (ExtTreeMap.mem_toList_iff_getElem?_eq_some.1 hx)
    simp only [aliasOf_eq_ok (mem_aliasOrder.2 (.inr hj))]
    rfl
  rw [aliasedEdges, state_eq_ok hs, numberedEdgesOf, hs, List.map_map]
  exact hedges

theorem mem_aliasOrder_of_mem_acceptingStates (hi : i ∈ d.acceptingStates) :
    i ∈ d.aliasOrder := by
  obtain ⟨s, hs, -⟩ := (Option.any_eq_true _ _).1 (mem_acceptingStates.1 hi)
  exact mem_aliasOrder.2 (.inr (mem_states_iff.2 ⟨s, hs⟩))

theorem mem_aliasOrder_of_mem_deadStates (hi : i ∈ d.deadStates) : i ∈ d.aliasOrder :=
  mem_aliasOrder.2 (.inr (mem_states_iff.2 ((mem_deadStates_iff.1 hi).imp fun _ hs => hs.1)))

/-- The summary of an automaton. Nothing but an edge of a state can make it fail. -/
theorem summary_eq (d : Dfa) : d.summary =
    (d.aliasOrder.mapM fun i => d.aliasedEdges d.aliases (aliasName (d.number i)) i).map
      fun edges => {
        alphabet := d.alphabet.toList
        states := d.aliasOrder.map fun i => aliasName (d.number i)
        start := aliasName (d.number d.start)
        accepting := sortAliases (d.acceptingStates.toList.map fun i => aliasName (d.number i))
        dead := sortAliases (d.deadStates.toList.map fun i => aliasName (d.number i))
        edges := edges.flatten } := by
  rw [summary, mergeSort_statesByAlias, statesByAlias_eq, List.mapM_map,
    aliasOf_eq_ok (mem_aliasOrder.2 (.inl rfl)),
    aliasesOf_eq_ok fun _ => mem_aliasOrder_of_mem_acceptingStates,
    aliasesOf_eq_ok fun _ => mem_aliasOrder_of_mem_deadStates, List.map_map]
  rfl

/-- The summary of a closed automaton. -/
theorem Closed.summary_eq_ok (h : d.Closed) : d.summary = .ok {
    alphabet := d.alphabet.toList
    states := d.aliasOrder.map fun i => aliasName (d.number i)
    start := aliasName (d.number d.start)
    accepting := sortAliases (d.acceptingStates.toList.map fun i => aliasName (d.number i))
    dead := sortAliases (d.deadStates.toList.map fun i => aliasName (d.number i))
    edges := d.numberedEdges.map aliasedEdge } := by
  have hedges := mapM_eq_ok fun i (hi : i ∈ d.aliasOrder) => h.aliasedEdges_eq_ok hi
  rw [summary_eq, hedges, numberedEdges, List.map_flatMap, List.flatMap_def]
  rfl

/-- A closed automaton is described by its summary. -/
theorem Closed.exists_summary (h : d.Closed) :
    ∃ s, d.summary = .ok s ∧ s.Describes d d.number := by
  refine ⟨_, h.summary_eq_ok, ?_⟩
  exact {
    mem_aliases := fun i => by rw [Dfa.mem_aliases, mem_aliasOrder_iff h.start_mem]
    aliasOf_eq := fun i hi => aliasOf_eq_ok (mem_aliasOrder.2 (.inr hi))
    lookup_eq := fun _ _ => lookup_statesByAlias_eq_some_iff
    bijOn := bijOn_number h.start_mem
    number_start := Dfa.number_start
    ascending := fun _ hi _ hj hi' hj' => number_lt_number ⟨hi, hi'⟩ ⟨hj, hj'⟩
    alphabet_eq := rfl
    states_eq := by
      rw [← length_aliasOrder h.start_mem, List.range_eq_range', ← List.zipIdx_map_snd,
        zipIdx_aliasOrder, List.map_map, List.map_map]
      rfl
    start_eq := congrArg aliasName Dfa.number_start
    accepting := by
      simp only [← mem_acceptingStates]
      exact listsAliases_sortAliases fun _ => mem_aliasOrder_of_mem_acceptingStates
    dead := by
      simp only [isDead_eq_ok_true_iff, ← mem_deadStates_iff]
      exact listsAliases_sortAliases fun _ => mem_aliasOrder_of_mem_deadStates
    edges := ⟨d.numberedEdges, pairwise_precedes_numberedEdges, fun _ _ _ => mem_numberedEdges,
      rfl⟩ }

theorem not_mem_states_of_aliasedEdges {name : String}
    (h : d.aliasedEdges d.aliases name i = .error e) : e.id ∉ d.states := by
  rw [aliasedEdges, state] at h
  cases hs : d.states[i]? with
  | none =>
    rw [hs] at h
    cases h
    exact fun hmem => by simp [mem_states_iff, hs] at hmem
  | some s =>
    rw [hs] at h
    obtain ⟨⟨x, j⟩, -, hfail⟩ := exists_of_mapM_eq_error h
    dsimp only at hfail
    cases hj : aliasOf d.aliases j with
    | error e' =>
      rw [hj] at hfail
      cases hfail
      obtain ⟨rfl, hmem⟩ := not_mem_states_of_aliasOf hj
      exact hmem
    | ok target =>
      rw [hj] at hfail
      cases hfail

/-- The error of a summary names an id that is no state. -/
theorem not_mem_states_of_summary (h : d.summary = .error e) : e.id ∉ d.states := by
  rw [summary_eq] at h
  cases hedges : d.aliasOrder.mapM fun i => d.aliasedEdges d.aliases (aliasName (d.number i)) i with
  | error e' =>
    rw [hedges] at h
    cases h
    obtain ⟨i, -, hfail⟩ := exists_of_mapM_eq_error hedges
    exact not_mem_states_of_aliasedEdges hfail
  | ok edges =>
    rw [hedges] at h
    cases h

theorem exists_state_of_aliasedEdges {name : String} {es : List AliasedEdge}
    (h : d.aliasedEdges d.aliases name i = .ok es) : ∃ s, d.states[i]? = some s ∧
      ∀ (x : Symbol) (j : StateId), s.edges[x]? = some j → j ∈ d.aliases := by
  rw [aliasedEdges, state] at h
  cases hs : d.states[i]? with
  | none =>
    rw [hs] at h
    cases h
  | some s =>
    rw [hs] at h
    refine ⟨s, rfl, fun x j hx => ?_⟩
    obtain ⟨edge, hedge⟩ :=
      exists_of_mapM_eq_ok h (x, j) (ExtTreeMap.mem_toList_iff_getElem?_eq_some.2 hx)
    rw [ExtTreeMap.mem_iff_isSome_getElem?, Option.isSome_iff_ne_none]
    intro hj
    dsimp only at hedge
    rw [aliasOf, hj] at hedge
    cases hedge

/-- An automaton that has a summary is closed. -/
theorem closed_of_summary {s : Summary} (h : d.summary = .ok s) : d.Closed := by
  rw [summary_eq] at h
  cases hedges : d.aliasOrder.mapM fun i => d.aliasedEdges d.aliases (aliasName (d.number i)) i with
  | error e =>
    rw [hedges] at h
    cases h
  | ok edges =>
    have hstates : ∀ i ∈ d.aliasOrder, ∃ s, d.states[i]? = some s ∧
        ∀ (x : Symbol) (j : StateId), s.edges[x]? = some j → j ∈ d.aliases := fun i hi => by
      obtain ⟨es, hes⟩ := exists_of_mapM_eq_ok hedges i hi
      exact exists_state_of_aliasedEdges hes
    have hmem {i : StateId} (hi : i ∈ d.aliasOrder) : i ∈ d.states :=
      mem_states_iff.2 ((hstates i hi).imp fun s hs => hs.1)
    refine ⟨hmem (mem_aliasOrder.2 (.inl rfl)), fun i s x j hs hx => ?_⟩
    obtain ⟨s', hs', htargets⟩ := hstates i (mem_aliasOrder.2 (.inr (mem_states_iff.2 ⟨s, hs⟩)))
    obtain rfl : s = s' := Option.some_inj.1 (hs.symm.trans hs')
    exact hmem (mem_aliases.1 (htargets x j hx))

/-- Only automata that are not closed have no summary. -/
theorem exists_summary_eq_error_iff : (∃ e, d.summary = .error e) ↔ ¬d.Closed := by
  constructor
  · rintro ⟨e, he⟩ hclosed
    obtain ⟨s, hs, -⟩ := hclosed.exists_summary
    rw [he] at hs
    cases hs
  · intro hclosed
    cases h : d.summary with
    | error e => exact ⟨e, rfl⟩
    | ok s => exact absurd (closed_of_summary h) hclosed

end PatternMachines.Dfa
