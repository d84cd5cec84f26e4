import PatternMachines.Proofs.Dfa.Numbering
import PatternMachines.Proofs.Dfa.Rebuilt

/-!
# Numbered automata in their summaries

The states of an automaton that the subset construction has made are numbered in the order of the
aliases. So the automaton that is rebuilt from its summary has the very same states, and it takes
only the lists of states, of accepting states and of edges to rebuild them.

## Main results

* `Dfa.Canonical.states_ofSummary`: the states that are rebuilt from a summary.
* `Dfa.Canonical.states_eq_of_summaries`: the lists in a summary tell the states.
* `Dfa.summary_congr`, `Dfa.Closed.accepts_congr`: start and states tell the lists and the verdicts.
-/

namespace PatternMachines.Dfa

open Std

variable {d d' : Dfa} {s s' : Summary}

/-- The states of a numbered automaton are their own numbers. -/
theorem Canonical.natCast_number (h : d.Canonical) (hstart : d.start ∈ d.states) {i : StateId}
    (hi : i ∈ d.states) : (d.number i : StateId) = i := by
  obtain ⟨k, -, rfl⟩ := (h.mem_iff i).1 hi
  rw [h.number_eq hstart hi]

theorem Summary.Describes.mem_states_ofSummary_iff (hs : s.Describes d d.number) {i : StateId} :
    i ∈ (ofSummary s).states ↔ ∃ k : Nat, k < d.states.size ∧ i = k := by
  have hlength : s.states.length = d.states.size := by
    rw [hs.states_eq, List.length_map, List.length_range]
  rw [ofSummary, ExtTreeMap.mem_ofList, List.contains_iff_mem, List.map_map, List.mem_map]
  constructor
  · rintro ⟨⟨name, k⟩, hk, rfl⟩
    exact ⟨k, hlength ▸ List.snd_lt_of_mem_zipIdx hk, rfl⟩
  · rintro ⟨k, hk, rfl⟩
    exact ⟨(s.states[k], k), List.mk_mem_zipIdx_iff_getElem?.2 (List.getElem?_eq_getElem _), rfl⟩

/-- The states of a numbered automaton are those that its summary shows. -/
theorem Canonical.states_ofSummary (h : d.Canonical) (hclosed : d.Closed)
    (hs : s.Describes d d.number) : (ofSummary s).states = d.states := by
  have hnumber {i : StateId} (hi : i ∈ d.states) := h.natCast_number hclosed.start_mem hi
  refine ExtTreeMap.ext_getElem? fun i => ?_
  by_cases hi : i ∈ d.states
  · obtain ⟨st, hst⟩ := mem_states_iff.1 hi
    have hshown := hs.getElem?_states_ofSummary hi
    rw [hnumber hi] at hshown
    have haccepting := hs.accepting_stateOf hi
    have hedges : (s.stateOf (aliasName (d.number i))).edges = st.edges := by
      refine ExtTreeMap.ext_getElem? fun x => ?_
      rw [hs.getElem?_edges_stateOf hclosed hst]
      cases htarget : st.edges[x]? with
      | none => rfl
      | some j => rw [Option.map_some, hnumber (hclosed.target_mem i st x j hst htarget)]
    rw [acceptsAt, hst, Option.any_some] at haccepting
    rw [hshown, hst, Option.some_inj, DfaState.mk.injEq]
    exact ⟨haccepting, hedges⟩
  · have hshown : i ∉ (ofSummary s).states := fun hmem =>
      hi ((h.mem_iff i).2 (hs.mem_states_ofSummary_iff.1 hmem))
    rw [ExtTreeMap.getElem?_eq_none hi, ExtTreeMap.getElem?_eq_none hshown]

/-- Numbered automata have the same states if their summaries list the same states, accepting states
and edges. -/
theorem Canonical.states_eq_of_summaries (h : d.Canonical) (h' : d'.Canonical)
    (hclosed : d.Closed) (hclosed' : d'.Closed) (hs : s.Describes d d.number)
    (hs' : s'.Describes d' d'.number) (hstates : s.states = s'.states)
    (haccepting : s.accepting = s'.accepting) (hedges : s.edges = s'.edges) :
    d.states = d'.states := by
  rw [← h.states_ofSummary hclosed hs, ← h'.states_ofSummary hclosed' hs', ofSummary, ofSummary]
  simp only [Summary.stateOf, Summary.placeOf, hstates, haccepting, hedges]

theorem exists_edges_of_summary (hs : d.summary = .ok s) : ∃ edges,
    d.aliasOrder.mapM (fun i => d.aliasedEdges d.aliases (aliasName (d.number i)) i) = .ok edges ∧
      s.states = d.aliasOrder.map (fun i => aliasName (d.number i)) ∧
      s.accepting = sortAliases (d.acceptingStates.toList.map fun i => aliasName (d.number i)) ∧
      s.edges = edges.flatten := by
  rw [summary_eq] at hs
  cases hedges : d.aliasOrder.mapM fun i => d.aliasedEdges d.aliases (aliasName (d.number i)) i with
  | error e =>
    rw [hedges] at hs
    cases hs
  | ok edges =>
    rw [hedges] at hs
    cases hs
    exact ⟨edges, rfl, rfl, rfl, rfl⟩

/-- The lists of states and edges in a summary depend on nothing but the start and the states. -/
theorem summary_congr (hstart : d.start = d'.start) (hstates : d.states = d'.states)
    (hs : d.summary = .ok s) (hs' : d'.summary = .ok s') :
    s.states = s'.states ∧ s.accepting = s'.accepting ∧ s.edges = s'.edges := by
  obtain ⟨edges, hedges, hnames, haccepting, hflat⟩ := exists_edges_of_summary hs
  obtain ⟨edges', hedges', hnames', haccepting', hflat'⟩ := exists_edges_of_summary hs'
  obtain ⟨start, states, alphabet, subsets⟩ := d
  obtain ⟨start', states', alphabet', subsets'⟩ := d'
  dsimp only at hstart hstates
  subst hstart hstates
  obtain rfl : edges = edges' := Except.ok.inj (hedges.symm.trans hedges')
  exact ⟨hnames.trans hnames'.symm, haccepting.trans haccepting'.symm, hflat.trans hflat'.symm⟩

/-- Automata with the same start and the same states give the same verdicts. -/
theorem Closed.accepts_congr (h : d.Closed) (hstart : d.start = d'.start)
    (hstates : d.states = d'.states) (word : List Symbol) : d.accepts word = d'.accepts word := by
  have hrenames : d.Renames id d' :=
    { start_eq := hstart.symm
      exists_state := fun i st hst => ⟨st, hstates ▸ hst, rfl, fun x => by simp⟩ }
  exact (hrenames.accepts_eq h word).symm

end PatternMachines.Dfa
