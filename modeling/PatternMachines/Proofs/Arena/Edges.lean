import PatternMachines.Arena
import PatternMachines.Proofs.Nfa.Path

/-!
# The edges of an arena

What can be seen of an arena is which ids name states, which edges there are and which states have
the accepting flag. The rules of composition are put together from two changes, which add states and
edges, and take flags away. They name new states after their number, and so an id that is given out
is new.

## Main definitions

* `Arena.AcceptsAt`: the states with the accepting flag.
* `Arena.Dense`: the ids are the numbers below the number of states.
* `Arena.Extends`: later arenas, with the states of an earlier one kept apart from some of them.

## Main results

* `Arena.edge_add_iff`, `Arena.edge_leave_iff`: the edges after a change.
* `Arena.Extends.trans`: changes one after another.
-/

namespace PatternMachines

open Std

namespace NfaState

variable {s : NfaState} {label : Option Symbol} {q : StateId}

@[simp]
theorem leads_mk_silent {b : Bool} {silent : StateSet} :
    (NfaState.mk b ∅ silent).Leads label q ↔ label = none ∧ q ∈ silent := by
  cases label with
  | none => simp [Leads]
  | some a => simp [Leads]

theorem leads_accepting_iff {b : Bool} :
    ({ s with accepting := b } : NfaState).Leads label q ↔ s.Leads label q := by
  cases label with
  | none => exact Iff.rfl
  | some a => exact Iff.rfl

theorem leads_foldl_addSilent {targets : List StateId} :
    (targets.foldl addSilent s).Leads label q ↔
      (label = none ∧ q ∈ targets) ∨ s.Leads label q := by
  induction targets generalizing s with
  | nil => simp
  | cons target targets ih =>
    rw [List.foldl_cons, ih, leads_addSilent, List.mem_cons, and_or_left, or_assoc, or_left_comm]

theorem leads_foldl_addEdge {symbols : List Symbol} {target : StateId} :
    (symbols.foldl (fun s x => s.addEdge x target) s).Leads label q ↔
      (∃ x ∈ symbols, label = some x ∧ q = target) ∨ s.Leads label q := by
  induction symbols generalizing s with
  | nil => simp
  | cons x symbols ih =>
    rw [List.foldl_cons, ih, leads_addEdge, List.exists_mem_cons_iff, or_assoc, or_left_comm]

end NfaState

namespace Arena

variable {a a' a'' : Arena} {s : NfaState} {p q id last : StateId} {label : Option Symbol}
  {targets : List StateId} {S T : Set StateId}

/-- Whether an id names a state with the accepting flag. -/
def AcceptsAt (a : Arena) (id : StateId) : Prop :=
  ∃ s, a.states[id]? = some s ∧ s.accepting = true

/-- Whether the ids are the numbers below the number of states. -/
def Dense (a : Arena) : Prop := ∀ id, id ∈ a.states ↔ 0 ≤ id ∧ id < a.nextId

theorem mem_states_of_edge (h : Edge a.states p label q) : p ∈ a.states := by
  obtain ⟨s, hs, -⟩ := h
  rw [ExtTreeMap.mem_iff_isSome_getElem?, hs, Option.isSome_some]

theorem AcceptsAt.mem_states (h : a.AcceptsAt id) : id ∈ a.states := by
  obtain ⟨s, hs, -⟩ := h
  rw [ExtTreeMap.mem_iff_isSome_getElem?, hs, Option.isSome_some]

theorem dense_empty : ({} : Arena).Dense := by
  intro id
  simp [nextId, size]

theorem Dense.nextId_not_mem (ha : a.Dense) : a.nextId ∉ a.states := by
  intro h
  exact Int.lt_irrefl _ ((ha _).1 h).2

/-! ### Adding a state -/

theorem getElem?_add : (a.add s).states[p]? = if p = a.nextId then some s else a.states[p]? := by
  rw [add, ExtTreeMap.getElem?_insert]
  simp only [Std.compare_eq_iff_eq, @eq_comm _ a.nextId p]

@[simp]
theorem mem_states_add : id ∈ (a.add s).states ↔ id = a.nextId ∨ id ∈ a.states := by
  rw [add, ExtTreeMap.mem_insert, Std.compare_eq_iff_eq, @eq_comm _ a.nextId id]

theorem nextId_add (ha : a.Dense) : (a.add s).nextId = a.nextId + 1 := by
  have hnew : a.states.contains a.nextId = false := by
    rw [Bool.eq_false_iff, ne_eq, ExtTreeMap.contains_iff_mem]
    exact ha.nextId_not_mem
  rw [nextId, size, add, ExtTreeMap.size_insert, hnew]
  rfl

theorem Dense.add (ha : a.Dense) (s : NfaState) : (a.add s).Dense := by
  intro id
  rw [mem_states_add, ha id, nextId_add ha]
  have hbelow (i n : Int) (hn : 0 ≤ n) : i = n ∨ 0 ≤ i ∧ i < n ↔ 0 ≤ i ∧ i < n + 1 := by omega
  exact hbelow id a.nextId (Int.natCast_nonneg a.size)

theorem edge_add_iff (ha : a.Dense) : Edge (a.add s).states p label q ↔
    Edge a.states p label q ∨ (p = a.nextId ∧ s.Leads label q) := by
  rw [Edge, getElem?_add]
  by_cases hp : p = a.nextId
  · have hnone : ¬Edge a.states p label q := by
      intro h
      exact ha.nextId_not_mem (hp ▸ mem_states_of_edge h)
    simp [hp, hp ▸ hnone]
  · simp [hp, Edge]

theorem acceptsAt_add_iff (ha : a.Dense) : (a.add s).AcceptsAt id ↔
    a.AcceptsAt id ∨ (id = a.nextId ∧ s.accepting = true) := by
  rw [AcceptsAt, getElem?_add]
  by_cases hid : id = a.nextId
  · have hnone : ¬a.AcceptsAt id := by
      intro h
      exact ha.nextId_not_mem (hid ▸ h.mem_states)
    simp [hid, hid ▸ hnone]
  · simp [hid, AcceptsAt]

/-! ### Changing a state -/

theorem getElem?_modify {f : NfaState → NfaState} :
    (a.modify id f).states[p]? = if p = id then a.states[id]?.map f else a.states[p]? := by
  rw [modify, ExtTreeMap.getElem?_modify]
  simp only [Std.compare_eq_iff_eq, @eq_comm _ id p]

@[simp]
theorem mem_states_modify {f : NfaState → NfaState} :
    p ∈ (a.modify id f).states ↔ p ∈ a.states := by
  rw [modify, ExtTreeMap.mem_modify]

@[simp]
theorem nextId_modify {f : NfaState → NfaState} : (a.modify id f).nextId = a.nextId := by
  rw [nextId, size, modify, ExtTreeMap.size_modify, nextId, size]

theorem Dense.modify (ha : a.Dense) (id : StateId) (f : NfaState → NfaState) :
    (a.modify id f).Dense := by
  intro p
  rw [mem_states_modify, nextId_modify, ha p]

@[simp]
theorem mem_states_leave : p ∈ (a.leave last targets).states ↔ p ∈ a.states :=
  mem_states_modify

theorem Dense.leave (ha : a.Dense) (last : StateId) (targets : List StateId) :
    (a.leave last targets).Dense := ha.modify _ _

theorem edge_leave_iff : Edge (a.leave last targets).states p label q ↔
    Edge a.states p label q ∨ (p = last ∧ last ∈ a.states ∧ label = none ∧ q ∈ targets) := by
  rw [Edge, leave, getElem?_modify]
  by_cases hp : p = last
  · subst hp
    rw [if_pos rfl, ExtTreeMap.mem_iff_isSome_getElem?, Edge]
    cases a.states[p]? with
    | none => simp
    | some s =>
      simp only [Option.map_some, Option.some.injEq, exists_eq_left', Option.isSome_some,
        true_and, NfaState.leads_accepting_iff, NfaState.leads_foldl_addSilent]
      exact or_comm
  · simp [hp, Edge]

theorem acceptsAt_leave_iff :
    (a.leave last targets).AcceptsAt id ↔ a.AcceptsAt id ∧ id ≠ last := by
  rw [AcceptsAt, leave, getElem?_modify]
  by_cases hid : id = last
  · simp [hid]
  · simp [hid, AcceptsAt]

/-- Setting the flag of a state changes no edges. -/
theorem edge_accepting_iff {b : Bool} :
    Edge (a.modify id fun s => { s with accepting := b }).states p label q ↔
      Edge a.states p label q := by
  rw [Edge, getElem?_modify]
  by_cases hp : p = id
  · subst hp
    rw [if_pos rfl, Edge]
    cases a.states[p]? with
    | none => simp
    | some s => simp [NfaState.leads_accepting_iff]
  · simp [hp, Edge]

theorem acceptsAt_accepting_iff (hlast : last ∈ a.states) :
    (a.modify last fun s => { s with accepting := true }).AcceptsAt id ↔
      a.AcceptsAt id ∨ id = last := by
  rw [AcceptsAt, getElem?_modify]
  by_cases hid : id = last
  · obtain ⟨s, hs⟩ := Option.isSome_iff_exists.1 (ExtTreeMap.mem_iff_isSome_getElem?.1 hlast)
    simp [hid, hs]
  · simp [hid, AcceptsAt]

/-! ### Later arenas -/

/-- A later arena, which has the states of an earlier one. Those outside the set `S` have kept their
edges and their flags. -/
structure Extends (a a' : Arena) (S : Set StateId) : Prop where
  /-- The ids of the later arena are the numbers below the number of its states. -/
  dense : a'.Dense
  /-- No state is lost. -/
  mem_states : ∀ id ∈ a.states, id ∈ a'.states
  /-- Edges are kept. -/
  edge_iff : ∀ p ∈ a.states, p ∉ S → ∀ label q, Edge a'.states p label q ↔ Edge a.states p label q
  /-- Flags are kept. -/
  acceptsAt_iff : ∀ p ∈ a.states, p ∉ S → (a'.AcceptsAt p ↔ a.AcceptsAt p)

namespace Extends

theorem refl (ha : a.Dense) : a.Extends a S :=
  ⟨ha, fun _ hid => hid, fun _ _ _ _ _ => Iff.rfl, fun _ _ _ => Iff.rfl⟩

theorem mono (h : a.Extends a' S) (hST : ∀ p ∈ a.states, p ∈ S → p ∈ T) : a.Extends a' T :=
  ⟨h.dense, h.mem_states, fun p hp hT => h.edge_iff p hp fun hS => hT (hST p hp hS),
    fun p hp hT => h.acceptsAt_iff p hp fun hS => hT (hST p hp hS)⟩

theorem trans (h : a.Extends a' S) (h' : a'.Extends a'' T) : a.Extends a'' (S ∪ T) where
  dense := h'.dense
  mem_states id hid := h'.mem_states id (h.mem_states id hid)
  edge_iff p hp hST label q :=
    (h'.edge_iff p (h.mem_states p hp) (fun hT => hST (.inr hT)) label q).trans
      (h.edge_iff p hp (fun hS => hST (.inl hS)) label q)
  acceptsAt_iff p hp hST :=
    (h'.acceptsAt_iff p (h.mem_states p hp) fun hT => hST (.inr hT)).trans
      (h.acceptsAt_iff p hp fun hS => hST (.inl hS))

theorem add (ha : a.Dense) (s : NfaState) : a.Extends (a.add s) ∅ where
  dense := ha.add s
  mem_states id hid := mem_states_add.2 (.inr hid)
  edge_iff p hp _ label q := by
    have hne : p ≠ a.nextId := fun h => ha.nextId_not_mem (h ▸ hp)
    rw [edge_add_iff ha]
    simp [hne]
  acceptsAt_iff p hp _ := by
    have hne : p ≠ a.nextId := fun h => ha.nextId_not_mem (h ▸ hp)
    rw [acceptsAt_add_iff ha]
    simp [hne]

theorem modify (ha : a.Dense) (id : StateId) (f : NfaState → NfaState) :
    a.Extends (a.modify id f) {id} where
  dense := ha.modify id f
  mem_states _ hp := mem_states_modify.2 hp
  edge_iff p _ hp label q := by
    rw [Edge, getElem?_modify, if_neg (Set.mem_singleton_iff.not.1 hp), Edge]
  acceptsAt_iff p _ hp := by
    rw [AcceptsAt, getElem?_modify, if_neg (Set.mem_singleton_iff.not.1 hp), AcceptsAt]

end Extends

end Arena

end PatternMachines
