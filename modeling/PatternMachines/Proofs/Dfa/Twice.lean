import PatternMachines.Proofs.Dfa.Canonical

/-!
# Determinizing twice

A deterministic automaton can be taken for a nondeterministic one whose edges lead to one state
each. For an automaton that comes from the subset construction, a second subset construction changes
nothing: the states, their numbers and their edges stay, and each state records itself.

## Main definitions

* `Dfa.toNfa`: the nondeterministic automaton.

## Main results

* `Dfa.path_toNfa_iff`: its paths are the runs of the deterministic one.
* `Dfa.ofNfa_toNfa`: the second subset construction changes nothing.
-/

namespace PatternMachines

open Std

namespace DfaState

variable {s : DfaState} {a : Symbol} {q : StateId}

/-- The state of a nondeterministic automaton with the same edges. -/
def toNfaState (s : DfaState) : NfaState where
  accepting := s.accepting
  edges := s.edges.map fun _ target => .ofList [target]

theorem not_leads_toNfaState_none : ¬s.toNfaState.Leads none q := ExtTreeSet.not_mem_empty

theorem leads_toNfaState_some_iff : s.toNfaState.Leads (some a) q ↔ s.edges[a]? = some q := by
  rw [NfaState.Leads, toNfaState, ExtTreeMap.getD_map]
  cases s.edges[a]? with
  | none => simp
  | some target => simp

end DfaState

namespace Dfa

variable {d : Dfa} {n : Nfa} {i p q accept : StateId} {a : Symbol} {w : List Symbol}

/-- The nondeterministic automaton with the same edges. The state that it marks as its last one can
be any, as nothing looks at it. -/
def toNfa (d : Dfa) (accept : StateId) : Nfa where
  start := d.start
  accept := accept
  states := d.states.map fun _ s => s.toNfaState
  alphabet := d.alphabet

theorem getElem?_toNfa {s : NfaState} : (d.toNfa accept).states[i]? = some s ↔
    ∃ s', d.states[i]? = some s' ∧ s'.toNfaState = s := by
  rw [toNfa, ExtTreeMap.getElem?_map, Option.map_eq_some_iff]

theorem mem_states_toNfa : i ∈ (d.toNfa accept).states ↔ i ∈ d.states := by
  rw [toNfa, ExtTreeMap.mem_map]

theorem not_edge_toNfa_none : ¬Edge (d.toNfa accept).states p none q := by
  rintro ⟨s, hs, hq⟩
  obtain ⟨s', -, rfl⟩ := getElem?_toNfa.1 hs
  exact DfaState.not_leads_toNfaState_none hq

theorem edge_toNfa_iff : Edge (d.toNfa accept).states p (some a) q ↔
    ∃ s, d.states[p]? = some s ∧ s.edges[a]? = some q := by
  rw [Edge]
  simp only [getElem?_toNfa]
  constructor
  · rintro ⟨_, ⟨s, hs, rfl⟩, hq⟩
    exact ⟨s, hs, DfaState.leads_toNfaState_some_iff.1 hq⟩
  · rintro ⟨s, hs, hq⟩
    exact ⟨_, ⟨s, hs, rfl⟩, DfaState.leads_toNfaState_some_iff.2 hq⟩

/-- The paths of the nondeterministic automaton are the runs of the deterministic one. -/
theorem path_toNfa_iff : Path (d.toNfa accept).states p w q ↔ d.follow p w = some q := by
  constructor
  · intro h
    induction h with
    | nil => rfl
    | silent hedge => exact absurd hedge not_edge_toNfa_none
    | read hedge _ ih =>
      obtain ⟨s, hs, htarget⟩ := edge_toNfa_iff.1 hedge
      rw [follow_cons hs, htarget, Option.bind_some, ih]
  · intro h
    induction w generalizing p with
    | nil =>
      cases h
      exact .nil _
    | cons a w ih =>
      cases hs : d.states[p]? with
      | none =>
        rw [follow, hs] at h
        cases h
      | some s =>
        rw [follow_cons hs, Option.bind_eq_some_iff] at h
        obtain ⟨target, htarget, h⟩ := h
        exact .read (edge_toNfa_iff.2 ⟨s, hs, htarget⟩) (ih h)

/-- The nondeterministic automaton of a closed automaton can be determinized. -/
theorem Closed.exists_ofNfa_toNfa (h : d.Closed) (accept : StateId) :
    ∃ d', ofNfa (d.toNfa accept) = .ok d' :=
  exists_ofNfa fun _ _ _ hpath =>
    mem_states_toNfa.2 (h.mem_states_of_follow h.start_mem (path_toNfa_iff.1 hpath))

theorem exists_accepting_toNfa_iff : (∃ q s, Path (d.toNfa accept).states d.start w q ∧
    (d.toNfa accept).states[q]? = some s ∧ s.accepting = true) ↔
      ∃ q, d.follow d.start w = some q ∧ d.acceptsAt q = true := by
  simp only [path_toNfa_iff, getElem?_toNfa, acceptsAt, Option.any_eq_true]
  constructor
  · rintro ⟨q, _, hq, ⟨s, hs, rfl⟩, haccepting⟩
    exact ⟨q, hq, s, hs, haccepting⟩
  · rintro ⟨q, hq, s, hs, haccepting⟩
    exact ⟨q, _, hq, ⟨s, hs, rfl⟩, haccepting⟩

/-- A word leads to the set of its one state. -/
theorem ledTo_toNfa_iff {ids : StateSet} (hw : d.follow d.start w = some i) :
    (d.toNfa accept).LedTo w ids ↔ ids = .ofList [i] := by
  have hpath (q : StateId) : Path (d.toNfa accept).states (d.toNfa accept).start w q ↔ i = q := by
    rw [path_toNfa_iff]
    exact hw ▸ Option.some_inj
  have hledTo : (d.toNfa accept).LedTo w (.ofList [i]) := fun q => by
    rw [hpath]
    simp
  exact ⟨fun h => h.unique hledTo, fun h => h ▸ hledTo⟩

/-- The symbols of words that can be followed belong to the alphabet. -/
theorem mem_alphabet_of_follow (hd : ofNfa n = .ok d) (hw : d.follow p w = some q) (ha : a ∈ w) :
    a ∈ d.alphabet := by
  by_contra hnot
  rw [follow_eq_none_of_mem (fun i s hs => ?_) ha] at hw
  · cases hw
  · rw [Option.eq_none_iff_forall_ne_some]
    exact fun j hj => hnot ((mem_alphabet_iff_of_ofNfa hd).2 ⟨i, s, j, hs, hj⟩)

/-- **Determinizing twice changes nothing.** Where the subset construction succeeds, it succeeds
again on its result taken for a nondeterministic automaton. The second result has the same start,
states, edges, accepting flags and alphabet, and the set that it records for a state holds this
state only. -/
theorem ofNfa_toNfa (hd : ofNfa n = .ok d) (accept : StateId) :
    ofNfa (d.toNfa accept) = .ok { d with subsets := d.states.map fun i _ => .ofList [i] } := by
  have hclosed := (determinizes_of_ofNfa hd).closed
  obtain ⟨d', hd'⟩ := hclosed.exists_ofNfa_toNfa accept
  have hdet' := determinizes_of_ofNfa hd'
  have hsame (u v : List Symbol) : d.LeadTogether u v ↔ d'.LeadTogether u v := by
    rw [hdet'.leadTogether_iff]
    simp only [path_toNfa_iff]
    constructor
    · rintro ⟨i, hu, hv⟩
      refine ⟨fun a ha => ?_, ⟨i, hu⟩, fun q => ?_⟩
      · rcases List.mem_append.1 ha with ha | ha
        · exact mem_alphabet_of_follow hd hu ha
        · exact mem_alphabet_of_follow hd hv ha
      · exact (congrArg (· = some q) (hu.trans hv.symm)).to_iff
    · rintro ⟨-, ⟨i, hi⟩, hiff⟩
      exact ⟨i, hi, (hiff i).1 hi⟩
  have haccepts (w : List Symbol) : d.accepts w = d'.accepts w := by
    obtain ⟨b, hb, hiff⟩ := hdet'.accepts_eq w
    rw [hb, hclosed.accepts_eq, Except.ok.injEq, Bool.eq_iff_iff, hiff, Option.any_eq_true]
    constructor
    · rintro ⟨q, hq, haccepting⟩
      exact ⟨fun a ha => mem_alphabet_of_follow hd hq ha,
        exists_accepting_toNfa_iff.2 ⟨q, hq, haccepting⟩⟩
    · exact fun h => exists_accepting_toNfa_iff.1 h.2
  have hsubsets (i : StateId) (ids : StateSet) :
      (d.states.map fun i _ => (.ofList [i] : StateSet))[i]? = some ids ↔
        ∃ w, d.follow d.start w = some i ∧ (d.toNfa accept).LedTo w ids := by
    rw [ExtTreeMap.getElem?_map, Option.map_eq_some_iff]
    constructor
    · rintro ⟨s, hs, rfl⟩
      obtain ⟨w, hw⟩ := (canonical_of_ofNfa hd).exists_firstWord i (mem_states_iff.2 ⟨s, hs⟩)
      exact ⟨w, hw.follow_eq, (ledTo_toNfa_iff hw.follow_eq).2 rfl⟩
    · rintro ⟨w, hw, hledTo⟩
      obtain ⟨s, hs⟩ := mem_states_iff.1 (hclosed.mem_states_of_follow hclosed.start_mem hw)
      exact ⟨s, hs, ((ledTo_toNfa_iff hw).1 hledTo).symm⟩
  rw [hd', eq_of_ofNfa hd hd' hsame haccepts hsubsets]

/-- The automaton that strays is determinized twice, with the same states. -/
theorem ofNfa_toNfa_straying : ∃ d, ofNfa straying = .ok d ∧
    ofNfa (d.toNfa 4) = .ok { d with subsets := d.states.map fun i _ => .ofList [i] } := by
  obtain ⟨d, hd⟩ := exists_ofNfa mem_states_straying
  exact ⟨d, hd, ofNfa_toNfa hd 4⟩

end Dfa

end PatternMachines
