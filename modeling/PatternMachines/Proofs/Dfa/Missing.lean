import PatternMachines.Proofs.Dfa.Subset
import PatternMachines.Proofs.Nfa.Closure

/-!
# When the subset construction fails

A nondeterministic automaton that is given by hand may have edges to ids that name no state, and
its start may name none. The subset construction looks at an id only if it can be reached from the
start along silent edges and edges that read symbols of the alphabet. It fails exactly if one of
these ids names no state, and its error is such an id.

## Main definitions

* `Nfa.Reaches`: the ids that the subset construction comes to.

## Main results

* `Nfa.reaches_iff`: they are those to which words over the alphabet lead.
* `Dfa.ofNfa_ends_and_fails_iff`: the construction ends, and when it fails.
-/

namespace PatternMachines

open Std

namespace Nfa

variable {n : Nfa} {ids : StateSet} {a : Symbol} {q : StateId} {e : MissingState}

/-- The ids that are reached from the start along silent edges and along edges that read a symbol of
the alphabet. -/
inductive Reaches (n : Nfa) : StateId → Prop
  | start : Reaches n n.start
  | silent {p q : StateId} (h : Reaches n p) (hedge : Edge n.states p none q) : Reaches n q
  | read {p q : StateId} {a : Symbol} (h : Reaches n p) (ha : a ∈ n.alphabet)
      (hedge : Edge n.states p (some a) q) : Reaches n q

theorem Reaches.path {p : StateId} {w : List Symbol} (hw : Path n.states p w q)
    (h : n.Reaches p) (halphabet : ∀ a ∈ w, a ∈ n.alphabet) : n.Reaches q := by
  induction hw with
  | nil => exact h
  | silent hedge _ ih => exact ih (h.silent hedge) halphabet
  | read hedge _ ih =>
    rw [List.forall_mem_cons] at halphabet
    exact ih (h.read halphabet.1 hedge) halphabet.2

/-- The ids that are reached are those to which words over the alphabet lead. -/
theorem reaches_iff :
    n.Reaches q ↔ ∃ w, (∀ a ∈ w, a ∈ n.alphabet) ∧ Path n.states n.start w q := by
  constructor
  · intro h
    induction h with
    | start => exact ⟨[], by simp, .nil n.start⟩
    | silent _ hedge ih =>
      obtain ⟨w, hw, hpath⟩ := ih
      exact ⟨w, hw, hpath.before_silent (.of_silent hedge)⟩
    | read _ ha hedge ih =>
      obtain ⟨w, hw, hpath⟩ := ih
      refine ⟨w ++ [_], ?_, hpath.trans (.of_read hedge)⟩
      exact List.forall_mem_append.2 ⟨hw, List.forall_mem_singleton.2 ha⟩
  · rintro ⟨w, hw, hpath⟩
    exact Reaches.start.path hpath hw

/-! ### How many rounds are enough -/

theorem length_powerset (l : List StateId) :
    (StateSet.powerset l).length = Nat.pow 2 l.length := by
  induction l with
  | nil => rfl
  | cons q l ih =>
    rw [StateSet.powerset, List.length_append, List.length_map, ih]
    exact (Nat.mul_two _).symm

/-- The visit to the sets of states takes no more rounds than there are sets of states and symbols
for each of them. -/
theorem visitWithin_subsetEdges {first : StateSet} {rounds : Nat}
    (hrounds : 1 + Nat.pow 2 n.states.size * n.alphabet.size ≤ rounds) :
    n.subsetEdges.visitWithin rounds ∅ [first] = some (n.subsetEdges.visit [first]) := by
  have hlength : ((StateSet.powerset n.states.keys).flatMap fun _ => n.alphabet.toList).length =
      Nat.pow 2 n.states.size * n.alphabet.size := by
    rw [List.length_flatMap, List.map_const', List.sum_replicate_nat, length_powerset,
      ExtTreeMap.length_keys, ExtTreeSet.length_toList]
  refine Exploration.visitWithin_eq_visit (fun ids row hrow => ⟨?_, ?_⟩) (hlength ▸ hrounds)
  · have hids := (row_eq_ok_iff.1 ⟨row, hrow⟩).1
    exact StateSet.mem_powerset fun q hq => ExtTreeMap.mem_keys.2 (hids q hq)
  · have hle := (sublist_of_rowOver (rowOver_of_row hrow)).length_le
    rw [List.length_map] at hle
    exact (List.length_map Prod.snd).trans_le hle

/-! ### What an error names -/

/-- The error of the edges of a set of states is an id that is reached by reading a symbol. -/
theorem path_of_rowOver_eq_error (hids : ∀ p ∈ ids, p ∈ n.states) {symbols : List Symbol}
    (h : n.rowOver ids symbols = .error e) :
    e.id ∉ n.states ∧ ∃ a ∈ symbols, ∃ p ∈ ids, Path n.states p [a] e.id := by
  induction symbols with
  | nil => cases h
  | cons a symbols ih =>
    have hlater (h : n.rowOver ids symbols = .error e) :
        e.id ∉ n.states ∧ ∃ b ∈ a :: symbols, ∃ p ∈ ids, Path n.states p [b] e.id := by
      obtain ⟨hmissing, b, hb, hpath⟩ := ih h
      exact ⟨hmissing, b, List.mem_cons_of_mem _ hb, hpath⟩
    obtain ⟨moved, hmoved⟩ := (move_eq_ok_iff (a := a)).2 hids
    rw [rowOver, hmoved] at h
    by_cases hempty : moved.isEmpty = true
    · simp only [bind, Except.bind, hempty, if_true] at h
      exact hlater h
    · simp only [bind, Except.bind, hempty] at h
      cases htarget : n.closure moved with
      | error e' =>
        rw [htarget] at h
        cases h
        obtain ⟨hmissing, q, hq, hpath⟩ := path_of_closure_eq_error htarget
        obtain ⟨p, hp, hedge⟩ := (mem_move hmoved).1 hq
        exact ⟨hmissing, a, List.mem_cons_self, p, hp, .read hedge hpath⟩
      | ok target =>
        rw [htarget] at h
        cases hrest : n.rowOver ids symbols with
        | error e' =>
          rw [hrest] at h
          cases h
          exact hlater hrest
        | ok rest =>
          rw [hrest] at h
          cases h

/-- The error of a row is a member of the set, or an id that is reached from a member by reading a
symbol of the alphabet. -/
theorem path_of_row_eq_error (h : n.row ids = .error e) :
    e.id ∉ n.states ∧ ∃ p ∈ ids, ∃ w, (∀ a ∈ w, a ∈ n.alphabet) ∧ Path n.states p w e.id := by
  obtain ⟨q, hq, hmissing, herror⟩ | ⟨hids, hrow⟩ := n.row_cases ids
  · rw [herror] at h
    cases h
    exact ⟨hmissing, q, hq, [], by simp, .nil q⟩
  · rw [hrow] at h
    obtain ⟨hmissing, a, ha, p, hp, hpath⟩ := path_of_rowOver_eq_error hids h
    have halphabet : ∀ b ∈ [a], b ∈ n.alphabet :=
      List.forall_mem_singleton.2 (ExtTreeSet.mem_toList.1 ha)
    exact ⟨hmissing, p, hp, [a], halphabet, hpath⟩

end Nfa

namespace Dfa

variable {n : Nfa} {d : Dfa} {e : MissingState}

/-- The error of the subset construction is an id that is reached and names no state. -/
theorem reaches_of_ofNfa_eq_error (h : ofNfa n = .error e) :
    n.Reaches e.id ∧ e.id ∉ n.states := by
  rw [ofNfa] at h
  cases hfirst : n.closure (.ofList [n.start]) with
  | error e' =>
    rw [hfirst] at h
    cases h
    obtain ⟨hmissing, p, hp, hpath⟩ := Nfa.path_of_closure_eq_error hfirst
    obtain rfl : n.start = p := by simpa using hp
    exact ⟨Nfa.Reaches.start.path hpath (by simp), hmissing⟩
  | ok first =>
    rw [hfirst] at h
    cases hrows : n.subsetEdges.visit [first] with
    | ok rows =>
      simp only [bind, Except.bind, hrows] at h
      cases h
    | error e' =>
      simp only [bind, Except.bind, hrows] at h
      cases h
      obtain ⟨ids, hreaches, hrow⟩ := Exploration.reaches_of_visitFrom_eq_error hrows
      obtain ⟨-, u, hu, hledTo⟩ :=
        Nfa.reaches_subsetEdges (Nfa.ledTo_closure_start hfirst) hreaches
      obtain ⟨hmissing, p, hp, w, hw, hpath⟩ := Nfa.path_of_row_eq_error hrow
      have hreached : n.Reaches p := Nfa.Reaches.start.path ((hledTo p).1 hp) hu
      exact ⟨hreached.path hpath hw, hmissing⟩

/-- Where the subset construction succeeds, all ids that are reached are states. -/
theorem Determinizes.mem_states_of_reaches (h : d.Determinizes n) {q : StateId}
    (hq : n.Reaches q) : q ∈ n.states := by
  obtain ⟨w, hw, hpath⟩ := Nfa.reaches_iff.1 hq
  obtain ⟨first, hfirst, hstart⟩ := h.start_record
  have hsome := (h.follow_isSome_iff hfirst hstart w).2 ⟨hw, q, hpath⟩
  obtain ⟨i, hi⟩ := Option.isSome_iff_exists.1 hsome
  obtain ⟨ids, hids, hledTo⟩ := h.record_of_follow hfirst hstart hi
  exact (Nfa.row_eq_ok_iff.1 (h.exists_row i ids hids)).1 q ((hledTo q).2 hpath)

/-- **The subset construction ends, and it fails exactly at ids that name no state.** On every
automaton the loop that forms a closure is over after a round for each of the given ids and for each
edge that reads nothing. The loop that visits the sets of states is over after one round and another
for each set of states and symbol of the alphabet. The construction fails exactly if an id that is
reached from the start, along silent edges and edges that read symbols of the alphabet, names no
state. The error is such an id. -/
theorem ofNfa_ends_and_fails_iff (n : Nfa) :
    (∀ ids rounds, ids.length + (n.states.keys.flatMap n.silentTargets).length ≤ rounds →
      n.silentEdges.visitWithin rounds ∅ ids = some (n.silentEdges.visit ids)) ∧
    (∀ first rounds, 1 + Nat.pow 2 n.states.size * n.alphabet.size ≤ rounds →
      n.subsetEdges.visitWithin rounds ∅ [first] = some (n.subsetEdges.visit [first])) ∧
    ((∃ e, ofNfa n = .error e) ↔ ∃ q, n.Reaches q ∧ q ∉ n.states) ∧
    ∀ e, ofNfa n = .error e → n.Reaches e.id ∧ e.id ∉ n.states := by
  refine ⟨fun _ _ => Nfa.visitWithin_silentEdges, fun _ _ => Nfa.visitWithin_subsetEdges, ⟨?_, ?_⟩,
    fun e he => reaches_of_ofNfa_eq_error he⟩
  · rintro ⟨e, he⟩
    exact ⟨e.id, reaches_of_ofNfa_eq_error he⟩
  · rintro ⟨q, hq, hmissing⟩
    cases h : ofNfa n with
    | error e => exact ⟨e, rfl⟩
    | ok d => exact absurd ((determinizes_of_ofNfa h).mem_states_of_reaches hq) hmissing

end Dfa

end PatternMachines
