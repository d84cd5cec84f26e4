import Mathlib.Data.List.Perm.Subperm
import PatternMachines.Proofs.Exploration.Rounds
import PatternMachines.Proofs.Fallible
import PatternMachines.Proofs.Nfa.Walk

/-!
# Closures and the order in which they are formed

The closure of some ids holds what is reached from them along any number of edges that read nothing.
It cannot be formed exactly if an id so reached names no state, and the error is such an id. Where
closures can be formed, they obey the laws of a closure operator.

A closure is formed round by round. An id is taken from the front of a queue and looked up, and the
targets of its edges go to the end of the queue. The edges of a state are a set, so they have no
order, and neither have the ids with which the queue begins. In whatever order the queue is filled,
there are no more rounds than states, and what comes of it is the same.

## Main definitions

* `Nfa.SilentlyReaches`: what is reached from some ids without reading.
* `Nfa.Yields`: what may come of forming the closure of some ids.
* `Nfa.IsClosureOperator`: the laws of closures.
* `Nfa.Closing`: closures in the making, from their beginnings round by round to their ends.
* `Nfa.silentTargets`: the targets of the edges that read nothing from a state.

## Main results

* `Nfa.yields_closure`, `Nfa.Yields.toOption_eq`: what comes of forming a closure.
* `Nfa.isClosureOperator_closure`: the laws hold.
* `Nfa.Closing.round_or_ends`, `Nfa.Closing.Invariant.yields`: a closure in the making goes on until
  it has ended, and what comes of it.
* `Nfa.closure_ends_and_holds_reached`: forming a closure ends, with what is reached.
-/

namespace PatternMachines.Nfa

open Std

variable {n : Nfa} {ids ids' c : StateSet} {p q : StateId} {e : MissingState}
  {r r' : Except MissingState StateSet}

/-! ### What is reached without reading -/

/-- Whether an id is reached from some ids along any number of edges that read nothing. -/
def SilentlyReaches (n : Nfa) (ids : StateSet) (q : StateId) : Prop :=
  ∃ p ∈ ids, Relation.ReflTransGen (fun p q => Edge n.states p none q) p q

theorem silentlyReaches_iff_path :
    n.SilentlyReaches ids q ↔ ∃ p ∈ ids, Path n.states p [] q := by
  simp only [SilentlyReaches, Path.nil_iff_reflTransGen]

namespace SilentlyReaches

theorem of_mem (h : q ∈ ids) : n.SilentlyReaches ids q := ⟨q, h, .refl⟩

theorem step (h : n.SilentlyReaches ids p) (hedge : Edge n.states p none q) :
    n.SilentlyReaches ids q := by
  obtain ⟨p', hp', hreaches⟩ := h
  exact ⟨p', hp', hreaches.tail hedge⟩

/-- What is reached from ids that are reached is reached. -/
theorem trans (h : n.SilentlyReaches ids' q) (hids : ∀ p ∈ ids', n.SilentlyReaches ids p) :
    n.SilentlyReaches ids q := by
  obtain ⟨p, hp, hpq⟩ := h
  obtain ⟨p', hp', hreaches⟩ := hids p hp
  exact ⟨p', hp', hreaches.trans hpq⟩

theorem mono (h : n.SilentlyReaches ids q) (hids : ∀ p ∈ ids, p ∈ ids') :
    n.SilentlyReaches ids' q :=
  h.trans fun p hp => of_mem (hids p hp)

/-- A set that no edge leaves holds all that is reached from its members. -/
theorem mem_of_closed (h : n.SilentlyReaches ids q) (hids : ∀ p ∈ ids, p ∈ c)
    (hc : ∀ p ∈ c, ∀ q, Edge n.states p none q → q ∈ c) : q ∈ c := by
  obtain ⟨p, hp, hreaches⟩ := h
  induction hreaches with
  | refl => exact hids p hp
  | tail _ hedge ih => exact hc _ ih _ hedge

end SilentlyReaches

theorem silentlyReaches_union :
    n.SilentlyReaches (ids ∪ ids') q ↔ n.SilentlyReaches ids q ∨ n.SilentlyReaches ids' q := by
  simp only [SilentlyReaches, ExtTreeSet.mem_union_iff, or_and_right, exists_or]

/-! ### What comes of forming a closure -/

/-- What may come of forming the closure of some ids: all ids that are reached from them, if these
are states, or else the error of one of them that is none. -/
inductive Yields (n : Nfa) (ids : StateSet) : Except MissingState StateSet → Prop
  | ok {c : StateSet} (hmem : ∀ q, q ∈ c ↔ n.SilentlyReaches ids q)
      (hstates : ∀ q ∈ c, q ∈ n.states) : Yields n ids (.ok c)
  | error {e : MissingState} (hreaches : n.SilentlyReaches ids e.id)
      (hmissing : e.id ∉ n.states) : Yields n ids (.error e)

/-- All that may come of forming a closure is the same, but for the id that an error names. -/
theorem Yields.toOption_eq (h : n.Yields ids r) (h' : n.Yields ids r') :
    r.toOption = r'.toOption := by
  cases h with
  | ok hmem hstates =>
    cases h' with
    | ok hmem' hstates' =>
      exact congrArg some (ExtTreeSet.ext_mem fun {q} => (hmem q).trans (hmem' q).symm)
    | error hreaches hmissing => exact absurd (hstates _ ((hmem _).2 hreaches)) hmissing
  | error hreaches hmissing =>
    cases h' with
    | ok hmem hstates => exact absurd (hstates _ ((hmem _).2 hreaches)) hmissing
    | error => rfl

theorem id_of_state_eq_error {id : StateId} (h : n.state id = .error e) :
    e.id = id ∧ id ∉ n.states := by
  have hid : id ∉ n.states := fun hid => by
    obtain ⟨s, hs⟩ := exists_state_iff.2 hid
    rw [h] at hs
    cases hs
  rw [state] at h
  split at h
  · cases h
  · cases h
    exact ⟨rfl, hid⟩

/-- The error of a closure is an id at the end of a path that reads nothing. -/
theorem path_of_closure_eq_error (h : n.closure ids = .error e) :
    e.id ∉ n.states ∧ ∃ p ∈ ids, Path n.states p [] e.id := by
  rw [closure] at h
  cases hvisit : n.silentEdges.visit ids.toList with
  | ok out =>
    rw [hvisit] at h
    cases h
  | error e' =>
    rw [hvisit] at h
    cases h
    obtain ⟨id, hreaches, hid⟩ := Exploration.reaches_of_visitFrom_eq_error hvisit
    obtain ⟨rfl, hmissing⟩ := id_of_state_eq_error hid
    obtain ⟨p, hp, hpath⟩ := reaches_silentEdges_iff.1 hreaches
    exact ⟨hmissing, p, ExtTreeSet.mem_toList.1 hp, hpath⟩

theorem reaches_of_closure_eq_error (h : n.closure ids = .error e) :
    n.SilentlyReaches ids e.id ∧ e.id ∉ n.states := by
  obtain ⟨hmissing, hpath⟩ := path_of_closure_eq_error h
  exact ⟨silentlyReaches_iff_path.2 hpath, hmissing⟩

theorem yields_closure (n : Nfa) (ids : StateSet) : n.Yields ids (n.closure ids) := by
  cases h : n.closure ids with
  | ok c =>
    refine .ok (fun q => (mem_closure h).trans silentlyReaches_iff_path.symm) fun q hq => ?_
    obtain ⟨p, hp, hpath⟩ := (mem_closure h).1 hq
    exact closure_eq_ok_iff.1 ⟨c, h⟩ p hp q hpath
  | error e =>
    obtain ⟨hreaches, hmissing⟩ := reaches_of_closure_eq_error h
    exact .error hreaches hmissing

/-- What comes of forming a closure is its closure, but for the id that an error names. -/
theorem Yields.toOption_closure (h : n.Yields ids r) : r.toOption = (n.closure ids).toOption :=
  h.toOption_eq (n.yields_closure ids)

theorem closure_eq_ok_iff_reaches : n.closure ids = .ok c ↔
    (∀ q, q ∈ c ↔ n.SilentlyReaches ids q) ∧ ∀ q ∈ c, q ∈ n.states := by
  constructor
  · intro h
    have hyields := n.yields_closure ids
    rw [h] at hyields
    cases hyields with
    | ok hmem hstates => exact ⟨hmem, hstates⟩
  · rintro ⟨hmem, hstates⟩
    exact eq_ok_of_toOption (Yields.ok hmem hstates).toOption_closure.symm

theorem exists_closure_iff : (∃ c, n.closure ids = .ok c) ↔
    ∀ q, n.SilentlyReaches ids q → q ∈ n.states := by
  rw [closure_eq_ok_iff]
  simp only [silentlyReaches_iff_path]
  exact ⟨fun h q ⟨p, hp, hpath⟩ => h p hp q hpath, fun h p hp q hpath => h q ⟨p, hp, hpath⟩⟩

theorem closure_eq_error_iff : (∃ e, n.closure ids = .error e) ↔
    ∃ q, n.SilentlyReaches ids q ∧ q ∉ n.states := by
  constructor
  · rintro ⟨e, he⟩
    exact ⟨e.id, reaches_of_closure_eq_error he⟩
  · rintro ⟨q, hreaches, hmissing⟩
    cases h : n.closure ids with
    | ok c => exact absurd (exists_closure_iff.1 ⟨c, h⟩ q hreaches) hmissing
    | error e => exact ⟨e, rfl⟩

/-! ### The laws of closures -/

/-- The laws of a function that closes sets of ids, wherever it can close them. -/
structure IsClosureOperator (close : StateSet → Except MissingState StateSet) : Prop where
  /-- A closure holds what it is formed from. -/
  extensive : ∀ ids c, close ids = .ok c → ∀ q ∈ ids, q ∈ c
  /-- The closure of a part is formed wherever that of the whole is, and it is a part of it. -/
  monotone : ∀ ids ids' c', (∀ q ∈ ids, q ∈ ids') → close ids' = .ok c' →
    ∃ c, close ids = .ok c ∧ ∀ q ∈ c, q ∈ c'
  /-- A closure is its own closure. -/
  idempotent : ∀ ids c, close ids = .ok c → close c = .ok c
  /-- The closure of two sets together is that of the one and of the other. -/
  union : ∀ ids ids' c, close (ids ∪ ids') = .ok c ↔
    ∃ d d', close ids = .ok d ∧ close ids' = .ok d' ∧ c = d ∪ d'

theorem exists_closure_of_part (hids : ∀ q ∈ ids, q ∈ ids') {c' : StateSet}
    (h : n.closure ids' = .ok c') : ∃ c, n.closure ids = .ok c ∧ ∀ q ∈ c, q ∈ c' := by
  obtain ⟨hmem', hstates'⟩ := closure_eq_ok_iff_reaches.1 h
  have hpart (q : StateId) (hq : n.SilentlyReaches ids q) : q ∈ c' := (hmem' q).2 (hq.mono hids)
  obtain ⟨c, hc⟩ := exists_closure_iff.2 fun q hq => hstates' q (hpart q hq)
  obtain ⟨hmem, -⟩ := closure_eq_ok_iff_reaches.1 hc
  exact ⟨c, hc, fun q hq => hpart q ((hmem q).1 hq)⟩

theorem closure_closure (h : n.closure ids = .ok c) : n.closure c = .ok c := by
  obtain ⟨hmem, hstates⟩ := closure_eq_ok_iff_reaches.1 h
  refine closure_eq_ok_iff_reaches.2 ⟨fun q => ⟨.of_mem, fun hq => ?_⟩, hstates⟩
  exact (hmem q).2 (hq.trans fun p hp => (hmem p).1 hp)

theorem closure_union {d d' : StateSet} (h : n.closure ids = .ok d) (h' : n.closure ids' = .ok d') :
    n.closure (ids ∪ ids') = .ok (d ∪ d') := by
  obtain ⟨hmem, hstates⟩ := closure_eq_ok_iff_reaches.1 h
  obtain ⟨hmem', hstates'⟩ := closure_eq_ok_iff_reaches.1 h'
  refine closure_eq_ok_iff_reaches.2 ⟨fun q => ?_, fun q hq => ?_⟩
  · rw [ExtTreeSet.mem_union_iff, hmem, hmem', silentlyReaches_union]
  · exact (ExtTreeSet.mem_union_iff.1 hq).elim (hstates q) (hstates' q)

theorem isClosureOperator_closure (n : Nfa) : IsClosureOperator n.closure where
  extensive ids c h q hq := ((closure_eq_ok_iff_reaches.1 h).1 q).2 (.of_mem hq)
  monotone ids ids' c' hids h := exists_closure_of_part hids h
  idempotent ids c h := closure_closure h
  union ids ids' c := by
    constructor
    · intro h
      obtain ⟨d, hd, -⟩ :=
        exists_closure_of_part (fun q hq => ExtTreeSet.mem_union_iff.2 (.inl hq)) h
      obtain ⟨d', hd', -⟩ :=
        exists_closure_of_part (fun q hq => ExtTreeSet.mem_union_iff.2 (.inr hq)) h
      exact ⟨d, d', hd, hd', Except.ok.inj (h.symm.trans (closure_union hd hd'))⟩
    · rintro ⟨d, d', hd, hd', rfl⟩
      exact closure_union hd hd'

/-! ### How many rounds are enough -/

/-- The targets of the edges that read nothing from a state. -/
def silentTargets (n : Nfa) (q : StateId) : List StateId :=
  n.states[q]?.elim [] fun s => s.silent.toList

/-- The closure of some ids takes a round for each of them and for each edge that reads nothing. -/
theorem visitWithin_silentEdges {first : List StateId} {rounds : Nat}
    (hrounds : first.length + (n.states.keys.flatMap n.silentTargets).length ≤ rounds) :
    n.silentEdges.visitWithin rounds ∅ first = some (n.silentEdges.visit first) := by
  refine Exploration.visitWithin_eq_visit (fun q s hs => ?_) hrounds
  have hs := state_eq_ok_iff.1 hs
  refine ⟨ExtTreeMap.mem_keys.2 (mem_states_iff.2 ⟨s, hs⟩), ?_⟩
  rw [silentTargets, hs]
  exact Nat.le_refl _

/-! ### Closures in the making -/

/-- A closure in the making. -/
structure Closing where
  /-- The ids that have been found. -/
  found : StateSet
  /-- Those of them that have not been looked up, in the order in which they will be. -/
  queue : List StateId

namespace Closing

variable {s t : Closing} {looked : List StateId} {k : Nat}

/-- Whether the closure of some ids begins so. The ids are in the queue, in any order. -/
structure Begins (ids : StateSet) (s : Closing) : Prop where
  found_eq : s.found = ids
  queue_perm : s.queue.Perm ids.toList

/-- Whether a round leads from one closure in the making to another. The first id in the queue is
looked up, and those targets of its edges that have not been found are found and go to the end of
the queue, in any order. -/
inductive Round (n : Nfa) : Closing → Closing → Prop
  | intro {found : StateSet} {id : StateId} {queue new : List StateId} {state : NfaState}
      (hstate : n.state id = .ok state)
      (hnew : new.Perm (state.silent.toList.filter fun q => !found.contains q)) :
      Round n ⟨found, id :: queue⟩ ⟨found ∪ .ofList new, queue ++ new⟩

/-- Whether so many rounds lead from one closure in the making to another. -/
inductive Rounds (n : Nfa) (s : Closing) : Nat → Closing → Prop
  | zero : Rounds n s 0 s
  | succ {k : Nat} {t u : Closing} (h : Rounds n s k t) (hround : t.Round n u) :
      Rounds n s (k + 1) u

/-- Whether a closure in the making has ended, and what has come of it: nothing is left in the
queue, or its first id names no state. -/
inductive Ends (n : Nfa) : Closing → Except MissingState StateSet → Prop
  | done (found : StateSet) : Ends n ⟨found, []⟩ (.ok found)
  | missing {found : StateSet} {id : StateId} {queue : List StateId} {e : MissingState}
      (hstate : n.state id = .error e) : Ends n ⟨found, id :: queue⟩ (.error e)

/-- A closure in the making goes on until it has ended. -/
theorem round_or_ends (n : Nfa) : ∀ s : Closing, (∃ t, s.Round n t) ∨ ∃ r, s.Ends n r
  | ⟨found, []⟩ => .inr ⟨_, .done found⟩
  | ⟨_, id :: _⟩ => by
    cases h : n.state id with
    | ok state => exact .inl ⟨_, .intro h (.refl _)⟩
    | error e => exact .inr ⟨_, .missing h⟩

/-- What is known of a closure in the making after some ids have been looked up. -/
structure Invariant (n : Nfa) (ids : StateSet) (looked : List StateId) (s : Closing) : Prop where
  /-- The ids have been found. -/
  found_of_mem : ∀ q ∈ ids, q ∈ s.found
  /-- Nothing has been found but what is reached. -/
  reaches : ∀ q ∈ s.found, n.SilentlyReaches ids q
  /-- What has been found has been looked up or is in the queue. -/
  mem_found : ∀ q, q ∈ s.found ↔ q ∈ looked ++ s.queue
  /-- Nothing is looked up twice. -/
  nodup : (looked ++ s.queue).Nodup
  /-- States have been looked up. -/
  mem_states : ∀ p ∈ looked, p ∈ n.states
  /-- The targets of their edges have been found. -/
  targets : ∀ p ∈ looked, ∀ q, Edge n.states p none q → q ∈ s.found

theorem Begins.invariant (h : Begins ids s) : Invariant n ids [] s where
  found_of_mem q hq := h.found_eq ▸ hq
  reaches q hq := .of_mem (h.found_eq ▸ hq)
  mem_found q := by
    rw [h.found_eq, List.nil_append, h.queue_perm.mem_iff, ExtTreeSet.mem_toList]
  nodup := by
    rw [List.nil_append, h.queue_perm.nodup_iff]
    exact nodup_toList ids
  mem_states p hp := absurd hp List.not_mem_nil
  targets p hp := absurd hp List.not_mem_nil

/-- The id that a round looks up is a new one. -/
theorem Invariant.round (h : Invariant n ids looked s) (hround : s.Round n t) :
    ∃ id, Invariant n ids (looked ++ [id]) t := by
  cases hround with
  | @intro found id queue new state hstate hperm =>
    have hstate := state_eq_ok_iff.1 hstate
    have hid : id ∈ found := (h.mem_found id).2 (by simp)
    have hnew (q : StateId) : q ∈ new ↔ Edge n.states id none q ∧ q ∉ found := by
      rw [hperm.mem_iff, List.mem_filter, ExtTreeSet.mem_toList, Bool.not_eq_true',
        ← Bool.not_eq_true, ← ExtTreeSet.mem_iff_contains, Edge, hstate]
      simp [NfaState.Leads]
    have hfound (q : StateId) : q ∈ found ∪ .ofList new ↔ q ∈ found ∨ q ∈ new := by
      rw [ExtTreeSet.mem_union_iff, ExtTreeSet.mem_ofList, List.contains_iff_mem]
    have hlisted : looked ++ [id] ++ (queue ++ new) = looked ++ id :: queue ++ new := by simp
    refine ⟨id, { found_of_mem := fun q hq => (hfound q).2 (.inl (h.found_of_mem q hq)),
                  reaches := ?reaches, mem_found := ?mem_found, nodup := ?nodup,
                  mem_states := ?mem_states, targets := ?targets }⟩
    case reaches =>
      intro q hq
      rcases (hfound q).1 hq with hq | hq
      · exact h.reaches q hq
      · exact (h.reaches id hid).step ((hnew q).1 hq).1
    case mem_found =>
      intro q
      rw [hlisted, List.mem_append, ← h.mem_found q]
      exact hfound q
    case nodup =>
      rw [hlisted, List.nodup_append']
      refine ⟨h.nodup, hperm.nodup_iff.2 ((nodup_toList _).filter _), fun q hq hq' => ?_⟩
      exact ((hnew q).1 hq').2 ((h.mem_found q).2 hq)
    case mem_states =>
      refine List.forall_mem_append.2 ⟨h.mem_states, List.forall_mem_singleton.2 ?_⟩
      exact mem_states_iff.2 ⟨state, hstate⟩
    case targets =>
      refine List.forall_mem_append.2 ⟨fun p hp q hedge => ?_,
        List.forall_mem_singleton.2 fun q hedge => ?_⟩
      · exact (hfound q).2 (.inl (h.targets p hp q hedge))
      · by_cases hq : q ∈ found
        · exact (hfound q).2 (.inl hq)
        · exact (hfound q).2 (.inr ((hnew q).2 ⟨hedge, hq⟩))

theorem Rounds.exists_invariant (h : Rounds n s k t) (hs : Begins ids s) :
    ∃ looked, looked.length = k ∧ Invariant n ids looked t := by
  induction h with
  | zero => exact ⟨[], rfl, hs.invariant⟩
  | succ _ hround ih =>
    obtain ⟨looked, rfl, hinvariant⟩ := ih
    obtain ⟨id, hnext⟩ := hinvariant.round hround
    exact ⟨looked ++ [id], List.length_append, hnext⟩

/-- States are looked up, and none of them twice. -/
theorem Invariant.length_le (h : Invariant n ids looked s) : looked.length ≤ n.states.size := by
  have hkeys : looked ⊆ n.states.keys := fun p hp => ExtTreeMap.mem_keys.2 (h.mem_states p hp)
  have hnodup : looked.Nodup := (List.nodup_append'.1 h.nodup).1
  exact (List.subperm_of_subset hnodup hkeys).length_le.trans_eq ExtTreeMap.length_keys

/-- What has come of a closure in the making when it has ended. -/
theorem Invariant.yields (h : Invariant n ids looked s) (hends : s.Ends n r) :
    n.Yields ids r := by
  cases hends with
  | done found =>
    -- All that has been found has been looked up, so no edge leaves it.
    have hlooked (q : StateId) (hq : q ∈ found) : q ∈ looked := by
      simpa using (h.mem_found q).1 hq
    refine .ok (fun q => ⟨h.reaches q, fun hq => ?_⟩) fun q hq => h.mem_states q (hlooked q hq)
    exact hq.mem_of_closed h.found_of_mem fun p hp => h.targets p (hlooked p hp)
  | @missing found id queue e hstate =>
    obtain ⟨rfl, hmissing⟩ := id_of_state_eq_error hstate
    exact .error (h.reaches _ ((h.mem_found _).2 (by simp))) hmissing

end Closing

/-! ### Forming closures -/

/-- **Forming a closure ends, with what is reached.** The loop that forms the closure of some ids is
over after a round for each of them and for each edge that reads nothing. It fails exactly if an id
that is reached from them, along any number of edges that read nothing, names no state, and the
error is such an id. If it does not fail, the closure holds the ids that are so reached and no
others. So closures obey the laws of a closure operator.

In whatever order the ids are put into the queue, at first and in each round, there are no more
rounds than states, the rounds go on until the closure has been formed or an id names no state, and
what comes of it is the same, but for the id that the error names. -/
theorem closure_ends_and_holds_reached (n : Nfa) :
    (∀ ids rounds, ids.size + (n.states.keys.flatMap n.silentTargets).length ≤ rounds →
      (n.silentEdges.visitWithin rounds ∅ ids.toList).map
        (·.map fun visited => .ofList (visited.map Prod.fst)) = some (n.closure ids)) ∧
    (∀ ids, (∃ e, n.closure ids = .error e) ↔ ∃ q, n.SilentlyReaches ids q ∧ q ∉ n.states) ∧
    (∀ ids e, n.closure ids = .error e → n.SilentlyReaches ids e.id ∧ e.id ∉ n.states) ∧
    (∀ ids c, n.closure ids = .ok c → ∀ q, q ∈ c ↔ n.SilentlyReaches ids q) ∧
    IsClosureOperator n.closure ∧
    ∀ ids, (∃ s, Closing.Begins ids s) ∧
      ∀ s k t, Closing.Begins ids s → Closing.Rounds n s k t →
        k ≤ n.states.size ∧ ((∃ u, t.Round n u) ∨ ∃ r, t.Ends n r) ∧
          ∀ r, t.Ends n r → n.Yields ids r ∧ r.toOption = (n.closure ids).toOption := by
  refine ⟨fun ids rounds hrounds => ?ends, fun ids => closure_eq_error_iff,
    fun ids e he => reaches_of_closure_eq_error he,
    fun ids c hc => (closure_eq_ok_iff_reaches.1 hc).1, n.isClosureOperator_closure,
    fun ids => ⟨⟨⟨ids, ids.toList⟩, rfl, .refl _⟩, fun s k t hs ht => ?order⟩⟩
  case ends =>
    rw [← ExtTreeSet.length_toList] at hrounds
    rw [visitWithin_silentEdges hrounds]
    rfl
  case order =>
    obtain ⟨looked, rfl, hinvariant⟩ := ht.exists_invariant hs
    refine ⟨hinvariant.length_le, t.round_or_ends n, fun r hr => ?_⟩
    exact ⟨hinvariant.yields hr, (hinvariant.yields hr).toOption_closure⟩

end PatternMachines.Nfa
