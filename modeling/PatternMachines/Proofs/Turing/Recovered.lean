import Mathlib.Algebra.BigOperators.Group.List.Basic
import PatternMachines.Proofs.Turing.Edits
import PatternMachines.Proofs.Turing.Jflap.Faithful

/-!
# Automata recovered from their machines

The machine of a deterministic automaton has one transition for each edge and one for each state at
the end of the input, and no two of them are for the same state and symbol. The end marker tells the
two kinds apart, and the names of states tell their ids. So the automaton can be recovered from its
machine, up to the sets that were recorded for its states.

## Main definitions

* `Dfa.WellFormed`, `Dfa.edgeCount`: automata over their alphabet, and how many edges there are.
* `Turing.Machine.WellFormed`: machines whose transitions stay among their states and symbols.
* `Turing.stateId?`: the id in the name of a state.
* `Turing.statesOf`, `Turing.Machine.toDfa?`: the states that transitions tell of, and the automaton
  of a machine.

## Main results

* `Turing.Machine.nodup_key_ofDfa`, `Turing.Machine.length_transitions_ofDfa`: the transitions.
* `Turing.Machine.wellFormed_ofDfa`: what transitions mention.
* `Turing.Machine.statesOf_ofDfa`: the states are recovered from the transitions.
* `Turing.Machine.ofDfa_faithful`: the machine of an automaton loses nothing.
-/

namespace PatternMachines

open Std

/-- An automaton is well-formed if it is closed, reads symbols of its alphabet only, and the end
marker is not one of them. -/
structure Dfa.WellFormed (d : Dfa) : Prop extends d.Closed where
  /-- Edges read symbols of the alphabet. -/
  symbol_mem : ∀ (id : StateId) (s : DfaState) (x : Symbol) (target : StateId),
    d.states[id]? = some s → s.edges[x]? = some target → x ∈ d.alphabet
  /-- The end marker is no symbol of the alphabet. -/
  endMarker_not_mem : Symbol.endMarker ∉ d.alphabet

/-- How many edges an automaton has. -/
def Dfa.edgeCount (d : Dfa) : Nat := (d.states.toList.flatMap fun (_, s) => s.edges.toList).length

theorem Dfa.WellFormed.endMarker_edge_eq_none {d : Dfa} (h : d.WellFormed) (id : StateId)
    (s : DfaState) (hs : d.states[id]? = some s) : s.edges[Symbol.endMarker]? = none := by
  rw [← Option.not_isSome_iff_eq_none, Option.isSome_iff_exists]
  rintro ⟨target, htarget⟩
  exact h.endMarker_not_mem (h.symbol_mem id s _ target hs htarget)

namespace Turing

/-- A machine is well-formed if its states and symbols are among those that it declares. -/
structure Machine.WellFormed (m : Machine) : Prop where
  /-- Runs begin in a state. -/
  start_mem : ∀ name, m.start = some name → name ∈ m.states
  /-- The accepting states are states. -/
  accepting_mem : ∀ name ∈ m.accepting, name ∈ m.states
  /-- The rejecting state is a state. -/
  reject_mem : ∀ name, m.reject = some name → name ∈ m.states
  /-- Inputs can stand on the tape. -/
  input_mem : ∀ x ∈ m.inputAlphabet, x ∈ m.tapeAlphabet
  /-- The blank can stand on the tape. -/
  blank_mem : m.blank ∈ m.tapeAlphabet
  /-- The end marker can stand on the tape. -/
  endMarker_mem : ∀ x, m.endMarker = some x → x ∈ m.tapeAlphabet
  /-- Transitions lead from states to states. -/
  states_mem : ∀ t ∈ m.transitions, t.source ∈ m.states ∧ t.target ∈ m.states
  /-- Transitions read and write what can stand on the tape. -/
  symbols_mem : ∀ t ∈ m.transitions, t.read ∈ m.tapeAlphabet ∧ t.write ∈ m.tapeAlphabet
  /-- No transition is for a state in which the run has ended. -/
  source_open : ∀ t ∈ m.transitions, t.source ∉ m.accepting ∧ m.reject ≠ some t.source

/-! ### Reading transitions -/

/-- The id in the name of a state. -/
def stateId? (name : String) : Option StateId :=
  match name.toList with
  | 'q' :: digits => (String.ofList digits).toInt?
  | _ => none

theorem stateId?_stateName (id : StateId) : stateId? (stateName id) = some id := by
  have hname : (stateName id).toList = 'q' :: (toString id).toList := by
    rw [stateName, String.toList_append]
    rfl
  simp only [stateId?, hname, String.ofList_toList]
  exact Int.toInt?_repr id

/-- The edge that a transition stands for, if it is one in the state `name`. -/
def edgeOf? (name : String) (t : Transition) : Option (Symbol × StateId) :=
  if t.source = name ∧ t.read ≠ Symbol.endMarker then
    (stateId? t.target).map fun target => (t.read, target)
  else none

/-- The state that a transition among `ts` decides on at the end of the input, if it does. -/
def stateOf? (ts : List Transition) (t : Transition) : Option (StateId × DfaState) :=
  if t.read = Symbol.endMarker then
    (stateId? t.source).map fun id =>
      (id, ⟨t.target == acceptState, .ofList (ts.filterMap (edgeOf? t.source))⟩)
  else none

theorem edgeOf?_eq_some_iff {name : String} {t : Transition} {x : Symbol} {target : StateId} :
    edgeOf? name t = some (x, target) ↔
      t.key = (name, x) ∧ x ≠ Symbol.endMarker ∧ stateId? t.target = some target := by
  rw [edgeOf?, Option.ite_none_right_eq_some, Option.map_eq_some_iff, Transition.key, Prod.mk.injEq]
  constructor
  · rintro ⟨⟨hsource, hread⟩, _, htarget, heq⟩
    cases heq
    exact ⟨⟨hsource, rfl⟩, hread, htarget⟩
  · rintro ⟨⟨hsource, rfl⟩, hread, htarget⟩
    exact ⟨⟨hsource, hread⟩, _, htarget, rfl⟩

theorem stateOf?_eq_some_iff {ts : List Transition} {t : Transition} {id : StateId}
    {s : DfaState} : stateOf? ts t = some (id, s) ↔
      t.read = Symbol.endMarker ∧ stateId? t.source = some id ∧
        s = ⟨t.target == acceptState, .ofList (ts.filterMap (edgeOf? t.source))⟩ := by
  rw [stateOf?, Option.ite_none_right_eq_some, Option.map_eq_some_iff]
  constructor
  · rintro ⟨hread, _, hid, heq⟩
    cases heq
    exact ⟨hread, hid, rfl⟩
  · rintro ⟨hread, hid, rfl⟩
    exact ⟨hread, _, hid, rfl⟩

/-- The states that transitions tell of. -/
def statesOf (ts : List Transition) : ExtTreeMap StateId DfaState :=
  .ofList (ts.filterMap (stateOf? ts))

/-- The automaton that a machine tells of. -/
def Machine.toDfa? (m : Machine) : Option Dfa := do
  let start ← stateId? (← m.start)
  return { start := start, states := statesOf m.transitions, alphabet := m.inputAlphabet }

namespace Machine

variable {d d' : Dfa} {id : StateId} {s : DfaState} {x : Symbol} {target : StateId}

/-! ### The transitions -/

theorem length_transitionsOf (id : StateId) (s : DfaState) :
    (transitionsOf id s).length = s.edges.size + 1 := by
  rw [transitionsOf, List.length_append, List.length_map, ExtTreeMap.length_toList,
    List.length_singleton]

theorem length_transitions_ofDfa (d : Dfa) :
    (ofDfa d).transitions.length = d.edgeCount + d.states.size := by
  rw [ofDfa, Dfa.edgeCount, List.length_flatMap, List.length_flatMap, ← ExtTreeMap.length_toList]
  simp only [length_transitionsOf, ExtTreeMap.length_toList, List.sum_map_add, List.map_const',
    List.sum_replicate_nat, Nat.mul_one]

/-- The transitions for one state are for different symbols. -/
theorem nodup_key_transitionsOf (hmarker : s.edges[Symbol.endMarker]? = none) :
    ((transitionsOf id s).map Transition.key).Nodup := by
  have hsymbols : (s.edges.toList.map Prod.fst).Nodup := by
    rw [ExtTreeMap.map_fst_toList_eq_keys]
    exact ExtTreeMap.nodup_keys
  have hedges := hsymbols.map (Prod.mk_right_injective (stateName id))
  rw [List.map_map] at hedges
  rw [transitionsOf, List.map_append, List.map_map, List.map_singleton, ← List.concat_eq_append,
    List.nodup_concat]
  refine ⟨fun hmem => ?_, hedges⟩
  obtain ⟨⟨y, target⟩, hy, hkey⟩ := List.mem_map.1 hmem
  obtain rfl : y = Symbol.endMarker := congrArg Prod.snd hkey
  rw [ExtTreeMap.mem_toList_iff_getElem?_eq_some, hmarker] at hy
  cases hy

theorem source_of_mem_transitionsOf {t : Transition} (ht : t ∈ transitionsOf id s) :
    t.source = stateName id := by
  rw [transitionsOf, List.mem_append, List.mem_map, List.mem_singleton] at ht
  rcases ht with ⟨_, -, rfl⟩ | rfl <;> rfl

theorem nodup_key_ofDfa
    (hmarker : ∀ (id : StateId) (s : DfaState), d.states[id]? = some s →
      s.edges[Symbol.endMarker]? = none) :
    ((ofDfa d).transitions.map Transition.key).Nodup := by
  rw [ofDfa, List.map_flatMap, List.Nodup, List.pairwise_flatMap]
  constructor
  · rintro ⟨id, s⟩ hs
    exact nodup_key_transitionsOf (hmarker id s (ExtTreeMap.mem_toList_iff_getElem?_eq_some.1 hs))
  · refine ExtTreeMap.ordered_keys_toList.imp ?_
    rintro ⟨i, s⟩ ⟨j, s'⟩ hlt k hk l hl rfl
    obtain ⟨t, ht, rfl⟩ := List.mem_map.1 hk
    obtain ⟨u, hu, hkey⟩ := List.mem_map.1 hl
    have hsource : u.source = t.source := congrArg Prod.fst hkey
    rw [source_of_mem_transitionsOf ht, source_of_mem_transitionsOf hu] at hsource
    rw [stateName_injective hsource, Std.compare_self] at hlt
    cases hlt

theorem mem_tapeAlphabet_ofDfa_iff : x ∈ (ofDfa d).tapeAlphabet ↔
    x ∈ d.alphabet ∨ x = Symbol.endMarker ∨ x = Symbol.blank := by
  rw [ofDfa, ExtTreeSet.mem_union_iff, ExtTreeSet.mem_ofList, List.contains_iff_mem, List.mem_cons,
    List.mem_singleton]

/-- The machine of a well-formed automaton is well-formed. -/
theorem wellFormed_ofDfa (h : d.WellFormed) : (ofDfa d).WellFormed where
  start_mem := by
    rintro name ⟨⟩
    exact mem_states_ofDfa_iff.2 (.inl ⟨d.start, h.start_mem, rfl⟩)
  accepting_mem name hname := mem_states_ofDfa_iff.2 (.inr (.inl (mem_accepting_ofDfa_iff.1 hname)))
  reject_mem := by
    rintro name ⟨⟩
    exact mem_states_ofDfa_iff.2 (.inr (.inr rfl))
  input_mem x hx := mem_tapeAlphabet_ofDfa_iff.2 (.inl hx)
  blank_mem := mem_tapeAlphabet_ofDfa_iff.2 (.inr (.inr rfl))
  endMarker_mem := by
    rintro x ⟨⟩
    exact mem_tapeAlphabet_ofDfa_iff.2 (.inr (.inl rfl))
  states_mem t ht := by
    obtain ⟨id, s, hs, ⟨x, target, hx, rfl⟩ | rfl⟩ := mem_transitions_ofDfa_iff.1 ht
    · exact ⟨mem_states_ofDfa_iff.2 (.inl ⟨id, Dfa.mem_states_iff.2 ⟨s, hs⟩, rfl⟩),
        mem_states_ofDfa_iff.2 (.inl ⟨target, h.target_mem id s x target hs hx, rfl⟩)⟩
    · refine ⟨mem_states_ofDfa_iff.2 (.inl ⟨id, Dfa.mem_states_iff.2 ⟨s, hs⟩, rfl⟩),
        mem_states_ofDfa_iff.2 (.inr ?_)⟩
      cases s.accepting
      · exact .inr rfl
      · exact .inl rfl
  symbols_mem t ht := by
    obtain ⟨id, s, hs, ⟨x, target, hx, rfl⟩ | rfl⟩ := mem_transitions_ofDfa_iff.1 ht
    · have hmem := mem_tapeAlphabet_ofDfa_iff.2 (.inl (h.symbol_mem id s x target hs hx))
      exact ⟨hmem, hmem⟩
    · have hmem := mem_tapeAlphabet_ofDfa_iff (d := d).2 (.inr (.inl rfl))
      exact ⟨hmem, hmem⟩
  source_open t ht := by
    obtain ⟨id, s, hs, ht⟩ := mem_transitions_ofDfa_iff.1 ht
    have hsource : t.source = stateName id := by
      rcases ht with ⟨_, _, _, rfl⟩ | rfl <;> rfl
    rw [mem_accepting_ofDfa_iff, hsource]
    refine ⟨stateName_ne_acceptState id, fun hreject => ?_⟩
    exact stateName_ne_rejectState id (Option.some.inj hreject).symm

/-! ### Recovering the automaton -/

section Recovering

variable (hmarker : ∀ (id : StateId) (s : DfaState), d.states[id]? = some s →
  s.edges[Symbol.endMarker]? = none)

include hmarker

/-- The edges of a state are recovered from the transitions. -/
theorem edgesOf_ofDfa (hs : d.states[id]? = some s) :
    ExtTreeMap.ofList ((ofDfa d).transitions.filterMap (edgeOf? (stateName id))) = s.edges := by
  have hmem {y : Symbol} {j : StateId} :
      (y, j) ∈ (ofDfa d).transitions.filterMap (edgeOf? (stateName id)) ↔
        s.edges[y]? = some j := by
    simp only [List.mem_filterMap, edgeOf?_eq_some_iff]
    constructor
    · rintro ⟨t, ht, hkey, hne, htarget⟩
      obtain ⟨i, s', hs', ⟨x, target, hx, rfl⟩ | rfl⟩ := mem_transitions_ofDfa_iff.1 ht
      · obtain ⟨hsource, rfl⟩ := Prod.mk.inj hkey
        obtain rfl := stateName_injective hsource
        obtain rfl : s = s' := Option.some.inj (hs.symm.trans hs')
        rw [hx, ← htarget, stateId?_stateName]
      · exact absurd (congrArg Prod.snd hkey).symm hne
    · intro hy
      refine ⟨_, mem_transitions_ofDfa_iff.2 ⟨id, s, hs, .inl ⟨y, j, hy, rfl⟩⟩, rfl, ?_,
        stateId?_stateName j⟩
      rintro rfl
      rw [hmarker id s hs] at hy
      cases hy
  have hnodup : (((ofDfa d).transitions.filterMap (edgeOf? (stateName id))).map
      Prod.fst).Nodup := by
    rw [List.Nodup, List.pairwise_map, List.pairwise_filterMap]
    refine (List.pairwise_map.1 (nodup_key_ofDfa hmarker)).imp ?_
    rintro t u hne ⟨x, target⟩ ht ⟨x', target'⟩ hu rfl
    exact hne ((edgeOf?_eq_some_iff.1 ht).1.trans (edgeOf?_eq_some_iff.1 hu).1.symm)
  refine ExtTreeMap.ext_getElem? fun y => Option.ext fun j => ?_
  rw [getElem?_ofList_eq_some_iff hnodup, hmem]

/-- The states are recovered from the transitions. -/
theorem statesOf_ofDfa : statesOf (ofDfa d).transitions = d.states := by
  have hsource {t : Transition} {id : StateId} (ht : t ∈ (ofDfa d).transitions)
      (hid : stateId? t.source = some id) : t.source = stateName id := by
    obtain ⟨i, s, hs, ⟨x, target, hx, rfl⟩ | rfl⟩ := mem_transitions_ofDfa_iff.1 ht <;>
    · rw [stateId?_stateName, Option.some_inj] at hid
      rw [← hid]
  have hnodup : (((ofDfa d).transitions.filterMap (stateOf? (ofDfa d).transitions)).map
      Prod.fst).Nodup := by
    rw [List.Nodup, List.pairwise_map, List.pairwise_filterMap]
    refine (List.pairwise_map.1 (nodup_key_ofDfa hmarker)).imp_of_mem ?_
    rintro t u ht hu hne ⟨id, s⟩ hts ⟨id', s'⟩ hus rfl
    obtain ⟨hread, hid, -⟩ := stateOf?_eq_some_iff.1 hts
    obtain ⟨hread', hid', -⟩ := stateOf?_eq_some_iff.1 hus
    refine hne ?_
    rw [Transition.key, Transition.key, hread, hread', hsource ht hid, hsource hu hid']
  have haccepting (s : DfaState) :
      ((if s.accepting then acceptState else rejectState) == acceptState) = s.accepting := by
    cases s.accepting <;> decide
  refine ExtTreeMap.ext_getElem? fun id => Option.ext fun s => ?_
  rw [statesOf, getElem?_ofList_eq_some_iff hnodup]
  simp only [List.mem_filterMap, stateOf?_eq_some_iff]
  constructor
  · rintro ⟨t, ht, hread, hid, rfl⟩
    obtain ⟨i, s, hs, ⟨x, target, hx, rfl⟩ | rfl⟩ := mem_transitions_ofDfa_iff.1 ht
    · obtain rfl : x = Symbol.endMarker := hread
      rw [hmarker i s hs] at hx
      cases hx
    · rw [stateId?_stateName, Option.some_inj] at hid
      subst hid
      rw [edgesOf_ofDfa hmarker hs, haccepting, hs]
  · intro hs
    refine ⟨_, mem_transitions_ofDfa_iff.2 ⟨id, s, hs, .inr rfl⟩, rfl, stateId?_stateName id, ?_⟩
    rw [edgesOf_ofDfa hmarker hs, haccepting]

end Recovering

theorem toDfa?_ofDfa (h : d.WellFormed) : (ofDfa d).toDfa? = some { d with subsets := ∅ } := by
  have hstart : (ofDfa d).start = some (stateName d.start) := rfl
  rw [toDfa?, hstart, statesOf_ofDfa h.endMarker_edge_eq_none]
  simp only [Option.bind_eq_bind, Option.bind_some, stateId?_stateName]
  rfl

/-- **Machines lose nothing.** The machine of a well-formed automaton has one transition for each
edge and one for each state, no two of them for the same state and symbol, and is well-formed. The
automaton is recovered from it, but for the recorded sets. So other well-formed automata have other
machines, unless they differ in the recorded sets only. -/
theorem ofDfa_faithful (h : d.WellFormed) :
    ((ofDfa d).transitions.map Transition.key).Nodup ∧ (ofDfa d).WellFormed ∧
    (ofDfa d).transitions.length = d.edgeCount + d.states.size ∧
    (∀ t ∈ (ofDfa d).transitions, t.source ≠ acceptState ∧ t.source ≠ rejectState) ∧
    (ofDfa d).toDfa? = some { d with subsets := ∅ } ∧
    ∀ d' : Dfa, d'.WellFormed → ofDfa d' = ofDfa d → { d' with subsets := d.subsets } = d := by
  refine ⟨nodup_key_ofDfa h.endMarker_edge_eq_none, wellFormed_ofDfa h, length_transitions_ofDfa d,
    fun t ht => ?sources, toDfa?_ofDfa h, fun d' h' heq => ?injective⟩
  case sources =>
    obtain ⟨haccept, hreject⟩ := (wellFormed_ofDfa h).source_open t ht
    rw [mem_accepting_ofDfa_iff] at haccept
    exact ⟨haccept, fun hsource => hreject (congrArg some hsource.symm)⟩
  case injective =>
    have hsame := toDfa?_ofDfa h'
    rw [heq, toDfa?_ofDfa h, Option.some_inj, Dfa.mk.injEq] at hsame
    obtain ⟨hstart, hstates, halphabet, -⟩ := hsame
    rw [← hstart, ← hstates, ← halphabet]

/-- An automaton with a negative id and a far one, which reads the blank. -/
def reading : Dfa where
  start := -3
  states := .ofList [
    ((-3 : StateId), DfaState.mk false (.ofList [("_", (-3 : StateId)), ("a", (12 : StateId))])),
    ((12 : StateId), DfaState.mk true (.ofList [("a", (-3 : StateId))]))]
  alphabet := .ofList ["_", "a"]

theorem wellFormed_reading : reading.WellFormed := by
  have hedge {id : StateId} {s : DfaState} {x : Symbol} {target : StateId}
      (hs : reading.states[id]? = some s) (hx : s.edges[x]? = some target) :
      target ∈ reading.states ∧ x ∈ reading.alphabet := by
    have hstate := (getElem?_ofList_eq_some_iff (by decide)).1 hs
    simp only [List.mem_cons, Prod.mk.injEq, List.not_mem_nil, or_false] at hstate
    rcases hstate with ⟨rfl, rfl⟩ | ⟨rfl, rfl⟩ <;>
    · have hmem := (getElem?_ofList_eq_some_iff (by decide)).1 hx
      simp only [List.mem_cons, Prod.mk.injEq, List.not_mem_nil, or_false] at hmem
      grind [reading]
  exact {
    start_mem := by simp [reading, ExtTreeMap.mem_ofList]
    target_mem := fun _ _ _ _ hs hx => (hedge hs hx).1
    symbol_mem := fun _ _ _ _ hs hx => (hedge hs hx).2
    endMarker_not_mem := by simp [reading, ExtTreeSet.mem_ofList, Symbol.endMarker] }

/-- The machine of the automaton that reads the blank has five transitions, and the automaton is
recovered from it. -/
theorem ofDfa_faithful_reading : reading.WellFormed ∧ (ofDfa reading).WellFormed ∧
    (ofDfa reading).transitions.map Transition.key =
      [("q-3", "_"), ("q-3", "a"), ("q-3", "#"), ("q12", "a"), ("q12", "#")] ∧
    reading.edgeCount = 3 ∧ (ofDfa reading).toDfa? = some reading := by
  obtain ⟨-, hmachine, -, -, hrecovered, -⟩ := ofDfa_faithful wellFormed_reading
  exact ⟨wellFormed_reading, hmachine, by decide, by decide, hrecovered⟩

end Machine

end Turing

end PatternMachines
