import Mathlib.Data.Nat.Find
import Mathlib.Order.Bounds.Basic
import PatternMachines.Dfa

/-!
# Runs of deterministic automata

A word is followed from state to state as long as there are edges for its symbols. In a closed
automaton, whose edges lead to states only, every word gets a verdict, and it is accepted exactly
if it can be followed to its end and ends in an accepting state.

## Main definitions

* `Dfa.follow`: the state that a word leads to.
* `Dfa.Closed`: the automata whose edges lead to states only.
* `Dfa.acceptsAt`: whether the state of a given name accepts.
* `Dfa.readableLengths`: how many symbols of a word can be read.

## Main results

* `Dfa.Closed.accepts_eq`: the verdict on a word.
* `Dfa.exists_isGreatest_readableLengths`, `Dfa.edge_eq_none_of_isGreatest`: the longest beginning
  of a word that can be read, and what stops the automaton there.
-/

namespace PatternMachines.Dfa

open Std

/-- The state that a word leads to, if there are edges for all of its symbols. -/
def follow (d : Dfa) (id : StateId) : List Symbol → Option StateId
  | [] => some id
  | a :: word => do
    let s ← d.states[id]?
    let target ← s.edges[a]?
    d.follow target word

/-- Whether the state of a given name accepts. -/
def acceptsAt (d : Dfa) (id : StateId) : Bool := d.states[id]?.any (·.accepting)

/-- An automaton is closed if it begins in a state and its edges lead to states only. -/
structure Closed (d : Dfa) : Prop where
  /-- The start is a state. -/
  start_mem : d.start ∈ d.states
  /-- The targets of edges are states. -/
  target_mem : ∀ (id : StateId) (s : DfaState) (a : Symbol) (target : StateId),
    d.states[id]? = some s → s.edges[a]? = some target → target ∈ d.states

variable {d : Dfa}

theorem mem_states_iff {id : StateId} : id ∈ d.states ↔ ∃ s, d.states[id]? = some s := by
  rw [ExtTreeMap.mem_iff_isSome_getElem?, Option.isSome_iff_exists]

theorem state_eq_ok {id : StateId} {s : DfaState} (h : d.states[id]? = some s) :
    d.state id = .ok s := by
  rw [state, h]

theorem follow_cons {id : StateId} {s : DfaState} (hs : d.states[id]? = some s) (a : Symbol)
    (word : List Symbol) :
    d.follow id (a :: word) = s.edges[a]?.bind fun target => d.follow target word := by
  rw [follow, hs]
  rfl

/-- A word is followed part by part. -/
theorem follow_append (id : StateId) (u v : List Symbol) :
    d.follow id (u ++ v) = (d.follow id u).bind fun target => d.follow target v := by
  induction u generalizing id with
  | nil => rfl
  | cons a u ih =>
    cases hs : d.states[id]? with
    | none =>
      rw [List.cons_append, follow, follow, hs]
      rfl
    | some s =>
      rw [List.cons_append, follow_cons hs, follow_cons hs, Option.bind_assoc]
      simp only [ih]

/-- The beginnings of a word that can be followed can be followed. -/
theorem isSome_follow_of_beginning {id : StateId} {v w : List Symbol} (hv : v <+: w)
    (h : (d.follow id w).isSome) : (d.follow id v).isSome := by
  obtain ⟨rest, rfl⟩ := hv
  rw [follow_append] at h
  exact Option.isSome_of_isSome_bind h

/-- A word with a symbol that no edge reads leads nowhere. -/
theorem follow_eq_none_of_mem {a : Symbol}
    (ha : ∀ (id : StateId) (s : DfaState), d.states[id]? = some s → s.edges[a]? = none)
    {id : StateId} {word : List Symbol} (hword : a ∈ word) : d.follow id word = none := by
  induction word generalizing id with
  | nil => cases hword
  | cons x word ih =>
    cases hs : d.states[id]? with
    | none =>
      rw [follow, hs]
      rfl
    | some s =>
      rw [follow_cons hs]
      rcases List.mem_cons.1 hword with rfl | hword
      · rw [ha id s hs, Option.bind_none]
      · cases s.edges[x]? with
        | none => rfl
        | some target => exact ih hword

/-- In a closed automaton words lead from states to states. -/
theorem Closed.mem_states_of_follow (h : d.Closed) {id target : StateId} (hid : id ∈ d.states)
    {word : List Symbol} (hfollow : d.follow id word = some target) : target ∈ d.states := by
  induction word generalizing id with
  | nil =>
    cases hfollow
    exact hid
  | cons a word ih =>
    obtain ⟨s, hs⟩ := mem_states_iff.1 hid
    rw [follow_cons hs, Option.bind_eq_some_iff] at hfollow
    obtain ⟨j, hj, hfollow⟩ := hfollow
    exact ih (h.target_mem id s a j hs hj) hfollow

theorem Closed.acceptsFrom_eq (h : d.Closed) {id : StateId} {s : DfaState}
    (hs : d.states[id]? = some s) (word : List Symbol) :
    d.acceptsFrom s word = .ok ((d.follow id word).any d.acceptsAt) := by
  induction word generalizing id s with
  | nil => simp [acceptsFrom, follow, acceptsAt, hs]
  | cons a word ih =>
    rw [acceptsFrom, follow_cons hs]
    cases htarget : s.edges[a]? with
    | none => rfl
    | some target =>
      obtain ⟨s', hs'⟩ := mem_states_iff.1 (h.target_mem id s a target hs htarget)
      simp only [state_eq_ok hs', bind, Except.bind, ih hs', Option.bind]

/-- In a closed automaton every word gets a verdict: whether it can be followed to an accepting
state. -/
theorem Closed.accepts_eq (h : d.Closed) (word : List Symbol) :
    d.accepts word = .ok ((d.follow d.start word).any d.acceptsAt) := by
  obtain ⟨s, hs⟩ := mem_states_iff.1 h.start_mem
  rw [accepts, state_eq_ok hs]
  exact h.acceptsFrom_eq hs word

theorem Closed.accepts_eq_true_iff (h : d.Closed) {word : List Symbol} :
    d.accepts word = .ok true ↔ ∃ i, d.follow d.start word = some i ∧ d.acceptsAt i = true := by
  rw [h.accepts_eq, Except.ok.injEq, Option.any_eq_true]

/-! ### The longest beginning that can be read -/

/-- The lengths of the beginnings of a word that can be followed. -/
def readableLengths (d : Dfa) (id : StateId) (word : List Symbol) : Set Nat :=
  {k | k ≤ word.length ∧ (d.follow id (word.take k)).isSome}

/-- Among the beginnings of a word that can be followed there is a longest one. -/
theorem exists_isGreatest_readableLengths (d : Dfa) (id : StateId) (word : List Symbol) :
    ∃ k, IsGreatest (d.readableLengths id word) k := by
  let P (k : Nat) : Prop := (d.follow id (word.take k)).isSome
  have hspec : P (Nat.findGreatest P word.length) :=
    Nat.findGreatest_spec (Nat.zero_le word.length) rfl
  exact ⟨Nat.findGreatest P word.length, ⟨Nat.findGreatest_le _, hspec⟩,
    fun k hk => Nat.le_findGreatest hk.1 hk.2⟩

variable {id i : StateId} {s : DfaState} {word : List Symbol} {a : Symbol} {k : Nat}

/-- All shorter beginnings can be followed too. -/
theorem exists_follow_of_isGreatest (h : IsGreatest (d.readableLengths id word) k) {j : Nat}
    (hj : j ≤ k) : ∃ i, d.follow id (word.take j) = some i := by
  refine Option.isSome_iff_exists.1 (isSome_follow_of_beginning ?_ h.1.2)
  exact List.take_prefix_take_left hj

/-- No edge reads the symbol after the longest beginning. -/
theorem edge_eq_none_of_isGreatest (h : IsGreatest (d.readableLengths id word) k)
    (ha : word[k]? = some a) (hi : d.follow id (word.take k) = some i)
    (hs : d.states[i]? = some s) : s.edges[a]? = none := by
  by_contra hedge
  obtain ⟨j, hj⟩ := Option.ne_none_iff_exists'.1 hedge
  have hfollow : d.follow id (word.take (k + 1)) = some j := by
    rw [List.take_add_one, ha, Option.toList_some, follow_append, hi, Option.bind_some,
      follow_cons hs, hj]
    rfl
  have hlt : k < word.length := (List.getElem?_eq_some_iff.1 ha).1
  have hle := h.2 ⟨hlt, by rw [hfollow, Option.isSome_some]⟩
  exact Nat.not_succ_le_self k hle

/-- A word that is longer than its longest beginning cannot be followed. -/
theorem follow_eq_none_of_isGreatest (h : IsGreatest (d.readableLengths id word) k)
    (hk : k < word.length) : d.follow id word = none := by
  rw [← Option.not_isSome_iff_eq_none]
  intro hsome
  refine Nat.not_le_of_lt hk (h.2 ⟨Nat.le_refl _, ?_⟩)
  rwa [List.take_length]

end PatternMachines.Dfa
