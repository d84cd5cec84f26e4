import Mathlib.Data.List.Basic
import PatternMachines.Proofs.Dfa.Run
import PatternMachines.Turing.OfDfa
import PatternMachines.Turing.Run
import Std.Data.String.ToInt

/-!
# The transitions of the machine of an automaton

The machine of a deterministic automaton has a transition for each edge and a decision for each
state at the end of the input. If no edge reads the end marker, then no two transitions are for the
same state and symbol, and so the order of the list does not matter.

## Main definitions

* `Turing.Machine.Deterministic`: the machines with at most one transition for a state and a symbol.

## Main results

* `Turing.stateName_injective`, `Turing.stateName_ne_acceptState`,
  `Turing.stateName_ne_rejectState`: the names of states.
* `Turing.Machine.mem_transitions_ofDfa_iff`: the transitions.
* `Turing.Machine.findTransition_ofDfa`, `Turing.Machine.findTransition_ofDfa_endMarker`: the
  transition that is taken.
-/

namespace PatternMachines.Turing

open Std

/-! ### Names of states -/

theorem stateName_injective : Function.Injective stateName := by
  intro i j h
  rw [stateName, stateName, String.append_right_inj] at h
  exact Int.repr_injective h

/-- The number of a state is written with digits and a sign. -/
theorem isDigit_of_mem_toString {id : StateId} {c : Char} (hc : c ∈ (toString id).toList) :
    c.isDigit = true ∨ c = '-' := by
  have hrepr : toString id = Int.repr id := rfl
  rw [hrepr, Int.repr_eq_if] at hc
  split at hc
  · rw [Nat.toList_repr] at hc
    exact .inl (Nat.isDigit_of_mem_toDigits (by decide) (by decide) hc)
  · rw [String.toList_append, List.mem_append, Nat.toList_repr] at hc
    rcases hc with hc | hc
    · exact .inr (List.mem_singleton.1 hc)
    · exact .inl (Nat.isDigit_of_mem_toDigits (by decide) (by decide) hc)

/-- No state has a name in which another character stands after the first one. -/
theorem stateName_ne_of_mem {rest : String} {c : Char} (hc : c ∈ rest.toList)
    (hdigit : c.isDigit = false) (hsign : c ≠ '-') (id : StateId) :
    stateName id ≠ "q" ++ rest := by
  intro heq
  rw [stateName, String.append_right_inj] at heq
  rw [← heq] at hc
  rcases isDigit_of_mem_toString hc with h | h
  · rw [hdigit] at h
    cases h
  · exact hsign h

theorem stateName_ne_acceptState (id : StateId) : stateName id ≠ acceptState := by
  have hmem : 'A' ∈ "Accept".toList := by decide
  exact stateName_ne_of_mem hmem (by decide) (by decide) id

theorem stateName_ne_rejectState (id : StateId) : stateName id ≠ rejectState := by
  have hmem : 'R' ∈ "Reject".toList := by decide
  exact stateName_ne_of_mem hmem (by decide) (by decide) id

namespace Machine

/-- Whether there is at most one transition for a state and a symbol. -/
def Deterministic (m : Machine) : Prop :=
  ∀ t ∈ m.transitions, ∀ t' ∈ m.transitions, t.source = t'.source → t.read = t'.read → t = t'

/-- A deterministic machine takes the transition for the state and the symbol, wherever it stands in
the list. -/
theorem Deterministic.findTransition_eq_some_iff {m : Machine} (h : m.Deterministic)
    {state : String} {x : Symbol} {t : Transition} :
    m.findTransition state x = some t ↔ t ∈ m.transitions ∧ t.source = state ∧ t.read = x := by
  constructor
  · intro hfind
    have hmatch := List.find?_some hfind
    rw [Bool.and_eq_true, beq_iff_eq, beq_iff_eq] at hmatch
    exact ⟨List.mem_of_find?_eq_some hfind, hmatch⟩
  · rintro ⟨hmem, rfl, rfl⟩
    have hsome : (m.findTransition t.source t.read).isSome := by
      rw [findTransition, List.find?_isSome]
      exact ⟨t, hmem, by simp⟩
    obtain ⟨t', hfind⟩ := Option.isSome_iff_exists.1 hsome
    have hmatch := List.find?_some hfind
    rw [Bool.and_eq_true, beq_iff_eq, beq_iff_eq] at hmatch
    rw [hfind, h t' (List.mem_of_find?_eq_some hfind) t hmem hmatch.1 hmatch.2]

variable {d : Dfa} {id : StateId} {s : DfaState} {x : Symbol} {t : Transition}

/-- The transitions are the edges and the decisions at the end of the input. -/
theorem mem_transitions_ofDfa_iff : t ∈ (ofDfa d).transitions ↔
    ∃ (id : StateId) (s : DfaState), d.states[id]? = some s ∧
      ((∃ (x : Symbol) (target : StateId), s.edges[x]? = some target ∧
          t = ⟨stateName id, x, stateName target, x, moveRight⟩) ∨
        t = ⟨stateName id, Symbol.endMarker, if s.accepting then acceptState else rejectState,
          Symbol.endMarker, moveRight⟩) := by
  rw [ofDfa, List.mem_flatMap]
  simp only [transitionsOf, Prod.exists, ExtTreeMap.mem_toList_iff_getElem?_eq_some,
    List.mem_append, List.mem_map, List.mem_singleton, @eq_comm _ _ t]

theorem deterministic_ofDfa
    (hmarker : ∀ (id : StateId) (s : DfaState), d.states[id]? = some s →
      s.edges[Symbol.endMarker]? = none) :
    (ofDfa d).Deterministic := by
  intro t ht t' ht' hsource hread
  obtain ⟨i, s, hs, ht⟩ := mem_transitions_ofDfa_iff.1 ht
  obtain ⟨i', s', hs', ht'⟩ := mem_transitions_ofDfa_iff.1 ht'
  have hi : i = i' := by
    rcases ht with ⟨_, _, _, rfl⟩ | rfl <;> rcases ht' with ⟨_, _, _, rfl⟩ | rfl <;>
      exact stateName_injective hsource
  subst hi
  rw [hs, Option.some_inj] at hs'
  subst hs'
  rcases ht with ⟨x, target, hx, rfl⟩ | rfl
  · rcases ht' with ⟨x', target', hx', rfl⟩ | rfl
    · obtain rfl : x = x' := hread
      rw [hx, Option.some_inj] at hx'
      rw [hx']
    · obtain rfl : x = Symbol.endMarker := hread
      rw [hmarker i s hs] at hx
      cases hx
  · rcases ht' with ⟨x', target', hx', rfl⟩ | rfl
    · obtain rfl : Symbol.endMarker = x' := hread
      rw [hmarker i s hs] at hx'
      cases hx'
    · rfl

variable (hmarker : ∀ (id : StateId) (s : DfaState), d.states[id]? = some s →
  s.edges[Symbol.endMarker]? = none)

include hmarker

/-- In a state of the automaton the machine takes the edge for the symbol. -/
theorem findTransition_ofDfa (hs : d.states[id]? = some s) (hx : x ≠ Symbol.endMarker) :
    (ofDfa d).findTransition (stateName id) x =
      s.edges[x]?.map fun target => ⟨stateName id, x, stateName target, x, moveRight⟩ := by
  ext t
  rw [(deterministic_ofDfa hmarker).findTransition_eq_some_iff, mem_transitions_ofDfa_iff,
    Option.map_eq_some_iff]
  constructor
  · rintro ⟨⟨i, s', hs', ⟨y, target, hy, rfl⟩ | rfl⟩, hsource, hread⟩
    · obtain rfl := stateName_injective hsource
      obtain rfl : y = x := hread
      rw [hs, Option.some_inj] at hs'
      subst hs'
      exact ⟨target, hy, rfl⟩
    · exact absurd hread.symm hx
  · rintro ⟨target, htarget, rfl⟩
    exact ⟨⟨id, s, hs, .inl ⟨x, target, htarget, rfl⟩⟩, rfl, rfl⟩

/-- At the end of the input the machine decides. -/
theorem findTransition_ofDfa_endMarker (hs : d.states[id]? = some s) :
    (ofDfa d).findTransition (stateName id) Symbol.endMarker =
      some ⟨stateName id, Symbol.endMarker, if s.accepting then acceptState else rejectState,
        Symbol.endMarker, moveRight⟩ :=
  (deterministic_ofDfa hmarker).findTransition_eq_some_iff.2
    ⟨mem_transitions_ofDfa_iff.2 ⟨id, s, hs, .inr rfl⟩, rfl, rfl⟩

end Machine

end PatternMachines.Turing
