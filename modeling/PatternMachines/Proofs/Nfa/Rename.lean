import Mathlib.Data.Set.Function
import PatternMachines.Proofs.Nfa.Walk

/-!
# Renaming the ids of an automaton

The ids of a nondeterministic automaton are replaced by others. Where different ids stay different,
the paths of the renamed automaton are the renamed paths, with the same words. This counts all ids
that occur, those too that name no state.

## Main definitions

* `StateSet.image`, `NfaState.rename`, `Nfa.rename`: renamed sets, states and automata.
* `Nfa.ids`: the ids that occur in an automaton.

## Main results

* `Nfa.path_rename_iff`: the paths of the renamed automaton.
-/

namespace PatternMachines

open Std

variable {f : StateId → StateId} {label : Option Symbol} {p q r : StateId}
  {u v w : List Symbol}

/-- The set of the renamed ids. -/
def StateSet.image (f : StateId → StateId) (ids : StateSet) : StateSet :=
  .ofList (ids.toList.map f)

theorem StateSet.mem_image {ids : StateSet} : q ∈ StateSet.image f ids ↔ ∃ p ∈ ids, f p = q := by
  rw [image, ExtTreeSet.mem_ofList, List.contains_iff_mem, List.mem_map]
  simp only [ExtTreeSet.mem_toList]

/-- The state with the targets of its edges renamed. -/
def NfaState.rename (f : StateId → StateId) (s : NfaState) : NfaState where
  accepting := s.accepting
  edges := s.edges.map fun _ targets => StateSet.image f targets
  silent := StateSet.image f s.silent

theorem NfaState.leads_rename {s : NfaState} :
    (s.rename f).Leads label q ↔ ∃ p, s.Leads label p ∧ f p = q := by
  cases label with
  | none => exact StateSet.mem_image
  | some a =>
    rw [Leads, rename, ExtTreeMap.getD_map]
    simp only [Leads, ExtTreeMap.getD_eq_getD_getElem?]
    cases s.edges[a]? with
    | none => simp
    | some targets => exact StateSet.mem_image

namespace Nfa

variable {n : Nfa}

/-- The automaton with its ids renamed. -/
def rename (f : StateId → StateId) (n : Nfa) : Nfa where
  start := f n.start
  accept := f n.accept
  states := .ofList (n.states.toList.map fun (id, s) => (f id, s.rename f))
  alphabet := n.alphabet

/-- The ids that occur in an automaton: the start, the states and the targets of the edges. -/
def ids (n : Nfa) : Set StateId :=
  {q | q = n.start ∨ q ∈ n.states ∨ ∃ p label, Edge n.states p label q}

theorem start_mem_ids : n.start ∈ n.ids := .inl rfl

theorem mem_ids_of_mem_states (h : q ∈ n.states) : q ∈ n.ids := .inr (.inl h)

theorem mem_ids_of_edge (h : Edge n.states p label q) : p ∈ n.ids ∧ q ∈ n.ids := by
  refine ⟨?_, .inr (.inr ⟨p, label, h⟩)⟩
  obtain ⟨s, hs, -⟩ := h
  exact mem_ids_of_mem_states (mem_states_iff.2 ⟨s, hs⟩)

theorem mem_ids_of_path (hp : p ∈ n.ids) (h : Path n.states p w q) : q ∈ n.ids :=
  h.mem_of_closed (fun _ _ _ _ hedge => (mem_ids_of_edge hedge).2) hp

variable (hf : Set.InjOn f n.ids)

include hf

theorem getElem?_rename {s : NfaState} : (n.rename f).states[q]? = some s ↔
    ∃ p s', n.states[p]? = some s' ∧ f p = q ∧ s'.rename f = s := by
  have hkeys : ((n.states.toList.map fun (id, s) => (f id, s.rename f)).map Prod.fst).Nodup := by
    have hmap : (n.states.toList.map fun (id, s) => (f id, s.rename f)).map Prod.fst =
        n.states.keys.map f := by
      rw [← ExtTreeMap.map_fst_toList_eq_keys, List.map_map, List.map_map]
      rfl
    rw [hmap]
    refine List.Nodup.map_on ?_ ExtTreeMap.nodup_keys
    intro p hp q hq heq
    exact hf (mem_ids_of_mem_states (ExtTreeMap.mem_keys.1 hp))
      (mem_ids_of_mem_states (ExtTreeMap.mem_keys.1 hq)) heq
  rw [rename, getElem?_ofList_eq_some_iff hkeys, List.mem_map]
  simp only [Prod.exists, ExtTreeMap.mem_toList_iff_getElem?_eq_some, Prod.mk.injEq]

theorem mem_states_rename (hq : q ∈ n.states) : f q ∈ (n.rename f).states := by
  obtain ⟨s, hs⟩ := mem_states_iff.1 hq
  exact mem_states_iff.2 ⟨s.rename f, (getElem?_rename hf).2 ⟨q, s, hs, rfl, rfl⟩⟩

theorem edge_rename_iff : Edge (n.rename f).states q label r ↔
    ∃ p p', Edge n.states p label p' ∧ f p = q ∧ f p' = r := by
  constructor
  · rintro ⟨s, hs, hleads⟩
    obtain ⟨p, s', hs', hp, rfl⟩ := (getElem?_rename hf).1 hs
    obtain ⟨p', hp', hr⟩ := NfaState.leads_rename.1 hleads
    exact ⟨p, p', ⟨s', hs', hp'⟩, hp, hr⟩
  · rintro ⟨p, p', ⟨s, hs, hleads⟩, rfl, rfl⟩
    exact ⟨s.rename f, (getElem?_rename hf).2 ⟨p, s, hs, rfl, rfl⟩,
      NfaState.leads_rename.2 ⟨p', hleads, rfl⟩⟩

/-- The edges from a renamed id are the renamed edges from it. -/
theorem edge_rename (hp : p ∈ n.ids) (h : Edge (n.rename f).states (f p) label r) :
    ∃ q, Edge n.states p label q ∧ f q = r := by
  obtain ⟨p', q, hedge, heq, hr⟩ := (edge_rename_iff hf).1 h
  obtain rfl := hf (mem_ids_of_edge hedge).1 hp heq
  exact ⟨q, hedge, hr⟩

/-- The paths from a renamed id are the renamed paths from it. -/
theorem path_rename_iff (hp : p ∈ n.ids) :
    Path (n.rename f).states (f p) w r ↔ ∃ q, Path n.states p w q ∧ f q = r := by
  constructor
  · intro h
    generalize hstart : f p = p' at h
    induction h generalizing p with
    | nil => exact ⟨p, .nil p, hstart⟩
    | silent hedge _ ih =>
      subst hstart
      obtain ⟨q, hedge', hq⟩ := edge_rename hf hp hedge
      obtain ⟨q', hpath, hr⟩ := ih (mem_ids_of_edge hedge').2 hq
      exact ⟨q', .silent hedge' hpath, hr⟩
    | read hedge _ ih =>
      subst hstart
      obtain ⟨q, hedge', hq⟩ := edge_rename hf hp hedge
      obtain ⟨q', hpath, hr⟩ := ih (mem_ids_of_edge hedge').2 hq
      exact ⟨q', .read hedge' hpath, hr⟩
  · rintro ⟨q, h, rfl⟩
    clear hp
    induction h with
    | nil p => exact .nil (f p)
    | silent hedge _ ih => exact .silent ((edge_rename_iff hf).2 ⟨_, _, hedge, rfl, rfl⟩) ih
    | read hedge _ ih => exact .read ((edge_rename_iff hf).2 ⟨_, _, hedge, rfl, rfl⟩) ih

/-- The words of the renamed automaton lead to the renamed ids. -/
theorem path_start_rename_iff : Path (n.rename f).states (n.rename f).start w r ↔
    ∃ q, Path n.states n.start w q ∧ f q = r :=
  path_rename_iff hf start_mem_ids

/-- Words lead to the same ids before and after renaming. -/
theorem forall_path_rename_iff : (∀ r, Path (n.rename f).states (n.rename f).start u r ↔
    Path (n.rename f).states (n.rename f).start v r) ↔
      ∀ q, Path n.states n.start u q ↔ Path n.states n.start v q := by
  simp only [path_start_rename_iff hf]
  constructor
  · have himp {u v : List Symbol} (h : ∀ r, (∃ q, Path n.states n.start u q ∧ f q = r) →
        ∃ q, Path n.states n.start v q ∧ f q = r) (q : StateId)
        (hq : Path n.states n.start u q) : Path n.states n.start v q := by
      obtain ⟨q', hq', heq⟩ := h (f q) ⟨q, hq, rfl⟩
      obtain rfl := hf (mem_ids_of_path start_mem_ids hq') (mem_ids_of_path start_mem_ids hq) heq
      exact hq'
    exact fun h q => ⟨himp (fun r => (h r).1) q, himp (fun r => (h r).2) q⟩
  · exact fun h r => exists_congr fun q => and_congr_left fun _ => h q

/-- A word leads to an accepting state after renaming exactly if it does so before. -/
theorem exists_accepting_rename_iff :
    (∃ r s, Path (n.rename f).states (n.rename f).start w r ∧
      (n.rename f).states[r]? = some s ∧ s.accepting = true) ↔
        ∃ q s, Path n.states n.start w q ∧ n.states[q]? = some s ∧ s.accepting = true := by
  constructor
  · rintro ⟨r, s, hpath, hs, haccepting⟩
    obtain ⟨q, hq, rfl⟩ := (path_start_rename_iff hf).1 hpath
    obtain ⟨p, s', hs', heq, rfl⟩ := (getElem?_rename hf).1 hs
    have hp : p ∈ n.ids := mem_ids_of_mem_states (mem_states_iff.2 ⟨s', hs'⟩)
    obtain rfl := hf hp (mem_ids_of_path start_mem_ids hq) heq
    exact ⟨p, s', hq, hs', haccepting⟩
  · rintro ⟨q, s, hpath, hs, haccepting⟩
    exact ⟨f q, s.rename f, (path_start_rename_iff hf).2 ⟨q, hpath, rfl⟩,
      (getElem?_rename hf).2 ⟨q, s, hs, rfl, rfl⟩, haccepting⟩

theorem LedTo.rename {ids : StateSet} (h : n.LedTo w ids) :
    (n.rename f).LedTo w (StateSet.image f ids) := by
  intro r
  rw [StateSet.mem_image, path_start_rename_iff hf]
  simp only [h _]

end Nfa

end PatternMachines
