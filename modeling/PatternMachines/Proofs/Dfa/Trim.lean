import PatternMachines.Proofs.Dfa.Subset

/-!
# Trim deterministic automata

An automaton is trim if each of its states is on the way of an accepted word. A trim automaton has
no dead states, and the symbols on its edges are those that occur in accepted words. The subset
construction gives a trim automaton if from each state that a word leads to an accepting state can
be reached: it makes states only for sets that are not empty.

## Main definitions

* `Dfa.Trim`: trim automata.

## Main results

* `Dfa.Trim.deadStates_eq_empty`: there are no dead states.
* `Dfa.Trim.exists_edge_iff`: the symbols on edges.
* `Dfa.mem_alphabet_iff_of_ofNfa`: the alphabet of the subset construction.
* `Dfa.Determinizes.getElem?_subsets_iff`: the sets that are recorded.
* `Dfa.Determinizes.trim`: the subset construction.
-/

namespace PatternMachines.Dfa

open Std

variable {d : Dfa} {n : Nfa} {i j : StateId} {s : DfaState} {x : Symbol} {w : List Symbol}

/-- Whether each state can be reached from the start and leads to an accepting state. -/
structure Trim (d : Dfa) : Prop where
  /-- Each state can be reached. -/
  reached : ∀ i ∈ d.states, ∃ u, d.follow d.start u = some i
  /-- Each state leads to an accepting one. -/
  leaves : ∀ i ∈ d.states, ∃ v j, d.follow i v = some j ∧ d.acceptsAt j = true

/-! ### Dead states -/

/-- The values of a table are the second components of its list. The trees that stand behind tables
are looked at here, as the list of values is known for them only. -/
theorem values_eq_map_snd {α β : Type} [Ord α] [TransOrd α] (t : ExtTreeMap α β) :
    t.values = t.toList.map Prod.snd := by
  obtain ⟨⟨t⟩⟩ := t
  induction t using Quotient.ind with
  | _ t =>
    calc
      _ = t.inner.values := rfl
      _ = (DTreeMap.Internal.Impl.Const.toList t.inner).map Prod.snd := by
        rw [DTreeMap.Internal.Impl.values_eq_map_snd,
          DTreeMap.Internal.Impl.Const.toList_eq_toListModel_map, List.map_map]
        rfl
      _ = _ := rfl

theorem mem_deadStates_iff :
    i ∈ d.deadStates ↔ ∃ s, d.states[i]? = some s ∧ isDeadState i s = true := by
  rw [deadStates, ExtTreeSet.mem_ofList, List.contains_iff_mem, List.mem_filterMap]
  simp only [Prod.exists, ExtTreeMap.mem_toList_iff_getElem?_eq_some, Option.ite_none_right_eq_some,
    Option.some.injEq]
  constructor
  · rintro ⟨_, s, hs, hdead, rfl⟩
    exact ⟨s, hs, hdead⟩
  · rintro ⟨s, hs, hdead⟩
    exact ⟨i, s, hs, hdead, rfl⟩

theorem isDeadState_iff : isDeadState i s = true ↔
    s.accepting = false ∧ ∀ (x : Symbol) (j : StateId), s.edges[x]? = some j → j = i := by
  rw [isDeadState, Bool.and_eq_true, Bool.not_eq_true', values_eq_map_snd, List.all_map,
    List.all_eq_true]
  simp only [Prod.forall, ExtTreeMap.mem_toList_iff_getElem?_eq_some, Function.comp_apply,
    beq_iff_eq]

/-- No word leads out of a dead state. -/
theorem eq_of_follow_of_isDeadState (hs : d.states[i]? = some s) (hdead : isDeadState i s = true)
    (h : d.follow i w = some j) : j = i := by
  induction w with
  | nil =>
    cases h
    rfl
  | cons x w ih =>
    rw [follow_cons hs, Option.bind_eq_some_iff] at h
    obtain ⟨k, hk, h⟩ := h
    obtain rfl := (isDeadState_iff.1 hdead).2 x k hk
    exact ih h

namespace Trim

variable (h : d.Trim)

include h

/-- No state of a trim automaton is dead. -/
theorem deadStates_eq_empty : d.deadStates = ∅ := by
  refine ExtTreeSet.eq_empty_iff_forall_not_mem.2 fun i hi => ?_
  obtain ⟨s, hs, hdead⟩ := mem_deadStates_iff.1 hi
  obtain ⟨v, j, hfollow, haccepts⟩ := h.leaves i (mem_states_iff.2 ⟨s, hs⟩)
  obtain rfl := eq_of_follow_of_isDeadState hs hdead hfollow
  rw [acceptsAt, hs, Option.any_some, (isDeadState_iff.1 hdead).1] at haccepts
  cases haccepts

/-- Some word is accepted. -/
theorem exists_accepts (hclosed : d.Closed) : ∃ w, d.accepts w = .ok true := by
  obtain ⟨v, hv⟩ := h.leaves d.start hclosed.start_mem
  exact ⟨v, hclosed.accepts_eq_true_iff.2 hv⟩

/-- The symbols on the edges are those that occur in accepted words. -/
theorem exists_edge_iff (hclosed : d.Closed) :
    (∃ (i : StateId) (s : DfaState) (j : StateId), d.states[i]? = some s ∧ s.edges[x]? = some j) ↔
      ∃ w, x ∈ w ∧ d.accepts w = .ok true := by
  constructor
  · rintro ⟨i, s, j, hs, hj⟩
    obtain ⟨u, hu⟩ := h.reached i (mem_states_iff.2 ⟨s, hs⟩)
    obtain ⟨v, k, hv, haccepts⟩ := h.leaves j (hclosed.target_mem i s x j hs hj)
    refine ⟨u ++ x :: v, List.mem_append_right u List.mem_cons_self, ?_⟩
    refine hclosed.accepts_eq_true_iff.2 ⟨k, ?_, haccepts⟩
    rw [follow_append, hu, Option.bind_some, follow_cons hs, hj, Option.bind_some, hv]
  · rintro ⟨w, hx, hw⟩
    obtain ⟨k, hk, -⟩ := hclosed.accepts_eq_true_iff.1 hw
    by_contra hnone
    rw [follow_eq_none_of_mem (fun i s hs => ?_) hx] at hk
    · cases hk
    · rw [Option.eq_none_iff_forall_ne_some]
      exact fun j hj => hnone ⟨i, s, j, hs, hj⟩

end Trim

/-! ### The subset construction -/

/-- The alphabet of the subset construction holds the symbols on the edges. -/
theorem mem_alphabet_iff_of_ofNfa (hd : ofNfa n = .ok d) : x ∈ d.alphabet ↔
    ∃ (i : StateId) (s : DfaState) (j : StateId), d.states[i]? = some s ∧ s.edges[x]? = some j := by
  obtain ⟨first, rows, -, -, rfl⟩ := ofNfa_eq_ok_iff.1 hd
  have halphabet : x ∈ (ofSubsets n rows).alphabet ↔
      ∃ ids row, (ids, row) ∈ rows ∧ ∃ target, (x, target) ∈ row := by
    simp [ofSubsets, ExtTreeSet.mem_ofList]
  have hedge {ids : StateSet} {row : List (Symbol × StateSet)} :
      (∃ j : StateId, (stateOf n rows ids row).edges[x]? = some j) ↔
        ∃ target, (x, target) ∈ row := by
    rw [← Option.isSome_iff_exists, ← ExtTreeMap.mem_iff_isSome_getElem?]
    simp [stateOf, ExtTreeMap.mem_ofList]
  rw [halphabet]
  constructor
  · rintro ⟨ids, row, hmem, hx⟩
    obtain ⟨k, hk⟩ := List.mem_iff_getElem?.1 hmem
    obtain ⟨j, hj⟩ := hedge.2 hx
    exact ⟨k, _, j, getElem?_states_ofSubsets.2 ⟨k, ids, row, rfl, hk, rfl⟩, hj⟩
  · rintro ⟨i, s, j, hs, hj⟩
    obtain ⟨k, ids, row, rfl, hk, rfl⟩ := getElem?_states_ofSubsets.1 hs
    exact ⟨ids, row, List.mem_of_getElem? hk, hedge.1 ⟨j, hj⟩⟩

namespace Determinizes

variable (h : d.Determinizes n)

include h

/-- Behind each state there is a set that some word leads to. -/
theorem exists_word (hi : i ∈ d.states) : ∃ ids u q, d.subsets[i]? = some ids ∧
    (∀ a ∈ u, a ∈ n.alphabet) ∧ n.LedTo u ids ∧ Path n.states n.start u q := by
  obtain ⟨s, hs⟩ := mem_states_iff.1 hi
  obtain ⟨ids, hids⟩ := h.exists_record i s hs
  obtain ⟨hne, u, hu, hledTo⟩ := h.ledTo i ids hids
  rw [ne_eq, ExtTreeSet.eq_empty_iff_forall_not_mem, not_forall_not] at hne
  obtain ⟨q, hq⟩ := hne
  exact ⟨ids, u, q, hids, hu, hledTo, (hledTo q).1 hq⟩

/-- A state records the ids that its words lead to. -/
theorem getElem?_subsets_iff {ids : StateSet} :
    d.subsets[i]? = some ids ↔ ∃ w, d.follow d.start w = some i ∧ n.LedTo w ids := by
  obtain ⟨first, hfirst, hstart⟩ := h.start_record
  constructor
  · intro hi
    obtain ⟨ids', u, q, hids, hu, hledTo, hpath⟩ := h.exists_word (h.mem_states_of_record hi)
    rw [hi, Option.some_inj] at hids
    subst hids
    have hsome := (h.follow_isSome_iff hfirst hstart u).2 ⟨hu, q, hpath⟩
    obtain ⟨k, hk⟩ := Option.isSome_iff_exists.1 hsome
    obtain ⟨target, htarget, hledTo'⟩ := h.record_of_follow hfirst hstart hk
    -- The word leads to a state that records the same set, and there is only one.
    obtain rfl := hledTo'.unique hledTo
    exact ⟨u, by rw [hk, h.record_inj k i target htarget hi], hledTo⟩
  · rintro ⟨w, hw, hledTo⟩
    obtain ⟨target, htarget, hledTo'⟩ := h.record_of_follow hfirst hstart hw
    rwa [hledTo.unique hledTo']

/-- The subset construction gives a trim automaton, if words over the alphabet lead only to states
from which an accepting state can be reached. -/
theorem trim (hn : ∀ u q, (∀ a ∈ u, a ∈ n.alphabet) → Path n.states n.start u q →
      ∃ v q' s, (∀ a ∈ v, a ∈ n.alphabet) ∧ Path n.states q v q' ∧ n.states[q']? = some s ∧
        s.accepting = true) : d.Trim := by
  constructor
  case reached =>
    intro i hi
    obtain ⟨ids, -, -, hids, -⟩ := h.exists_word hi
    obtain ⟨u, hu, -⟩ := h.getElem?_subsets_iff.1 hids
    exact ⟨u, hu⟩
  case leaves =>
    intro i hi
    obtain ⟨ids, u, q, hids, hu, hledTo, hpath⟩ := h.exists_word hi
    obtain ⟨v, q', s, hv, hrest, hs, haccepting⟩ := hn u q hu hpath
    have hwhole := hpath.trans hrest
    have hsome := (h.follow_isSome_iff hids hledTo v).2 ⟨hv, q', hwhole⟩
    obtain ⟨k, hk⟩ := Option.isSome_iff_exists.1 hsome
    obtain ⟨target, htarget, hledTo'⟩ := h.record_of_follow hids hledTo hk
    exact ⟨v, k, hk, (h.acceptsAt_iff htarget).2 ⟨q', (hledTo' q').2 hwhole, s, hs, haccepting⟩⟩

end Determinizes

end PatternMachines.Dfa
