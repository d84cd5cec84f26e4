import Mathlib.Data.List.Pairwise
import Mathlib.Data.Set.Function
import PatternMachines.Dfa.Alias
import PatternMachines.Proofs.Dfa.Run
import PatternMachines.Proofs.Fallible
import PatternMachines.Proofs.Nfa.Path
import Std.Data.String.ToNat

/-!
# The numbers of aliases

The aliases of an automaton that begins in a state number its states from `0` without gaps. The
start comes first, and the other states follow in ascending order of their ids, which may be
negative and far apart. An alias shows its number, so that aliases are sorted as their numbers are.

## Main definitions

* `Dfa.number`: the number of the alias of a state.

## Main results

* `Dfa.aliasName_injective`: different numbers give different aliases.
* `Dfa.aliasKey_aliasName`, `Dfa.sortAliases_map_aliasName`: the order of the aliases.
* `Dfa.aliasOf_eq_ok`, `Dfa.not_mem_states_of_aliasOf`: the states that have an alias.
* `Dfa.lookup_statesByAlias_eq_some_iff`: the states of the aliases.
* `Dfa.bijOn_number`, `Dfa.number_start`, `Dfa.number_lt_number`: the numbers.
-/

namespace PatternMachines.Dfa

open Std

variable {d : Dfa} {i j : StateId} {k : Nat}

/-- Where no name stands twice, the value of a name is the one beside it. -/
theorem lookup_eq_some_iff_mem {α β : Type} [BEq α] [LawfulBEq α] {entries : List (α × β)} {a : α}
    {b : β} (h : (entries.map Prod.fst).Nodup) :
    entries.lookup a = some b ↔ (a, b) ∈ entries := by
  induction entries with
  | nil => simp
  | cons entry entries ih =>
    rw [List.map_cons, List.nodup_cons] at h
    rw [List.lookup_cons, List.mem_cons, Prod.ext_iff]
    cases hname : a == entry.1 with
    | true =>
      obtain rfl := beq_iff_eq.1 hname
      have hother : (entry.1, b) ∉ entries := fun hmem =>
        h.1 (List.mem_map.2 ⟨_, hmem, rfl⟩)
      simp [hother, eq_comm]
    | false => simp [ne_of_beq_false hname, ih h.2]

/-- The number of the alias of a state: its place in the order of the aliases. -/
def number (d : Dfa) (i : StateId) : Nat := d.aliasOrder.idxOf i

theorem aliasName_injective : Function.Injective aliasName := by
  intro k l h
  rw [aliasName, aliasName, String.append_right_inj] at h
  exact Nat.repr_injective h

/-! ### The numbers that aliases show -/

/-- An alias shows its number. -/
theorem aliasKey_aliasName (k : Nat) : aliasKey (aliasName k) = k := by
  have hdigits : (aliasName k).toList.drop 1 = Nat.toDigits 10 k := by
    rw [aliasName, String.toList_append, ← Nat.toList_repr]
    rfl
  have hne : (Nat.toDigits 10 k).isEmpty = false :=
    List.isEmpty_eq_false_iff.2 Nat.toDigits_ne_nil
  have hall : (Nat.toDigits 10 k).all Char.isDigit = true := List.all_eq_true.2 fun c hc =>
    Nat.isDigit_of_mem_toDigits (by decide) (by decide) hc
  rw [aliasKey, hdigits, hne, hall]
  exact Nat.ofDigitChars_toDigits (by decide) (by decide)

/-- Aliases are sorted by sorting their numbers. -/
theorem sortAliases_map_aliasName (ks : List Nat) : sortAliases (ks.map aliasName) =
    (ks.mergeSort fun k l => decide (k ≤ l)).map aliasName := by
  rw [sortAliases]
  refine (List.map_mergeSort fun k _ l _ => ?_).symm
  rw [aliasKey_aliasName, aliasKey_aliasName]

/-! ### The order of the aliases -/

theorem mem_aliasOrder : i ∈ d.aliasOrder ↔ i = d.start ∨ i ∈ d.states := by
  rw [aliasOrder, List.mem_cons, List.mem_filter, ExtTreeMap.mem_keys, bne_iff_ne]
  tauto

theorem nodup_aliasOrder : d.aliasOrder.Nodup := by
  rw [aliasOrder, List.nodup_cons]
  exact ⟨fun h => by simp at h, ExtTreeMap.nodup_keys.filter _⟩

/-- After the start the states ascend. -/
theorem pairwise_lt_tail_aliasOrder : d.aliasOrder.tail.Pairwise (· < ·) :=
  (ExtTreeMap.ordered_keys.imp Std.compare_eq_lt.1).filter _

theorem getElem?_aliasOrder_eq_some_iff :
    d.aliasOrder[k]? = some i ↔ i ∈ d.aliasOrder ∧ d.number i = k := by
  constructor
  · intro h
    obtain ⟨hk, rfl⟩ := List.getElem?_eq_some_iff.1 h
    exact ⟨List.getElem_mem hk, nodup_aliasOrder.idxOf_getElem k hk⟩
  · rintro ⟨hi, rfl⟩
    exact List.getElem?_idxOf hi

theorem getElem?_aliases_eq_some_iff :
    d.aliases[i]? = some k ↔ i ∈ d.aliasOrder ∧ d.number i = k := by
  rw [aliases, getElem?_ofList_zipIdx_eq_some_iff nodup_aliasOrder,
    getElem?_aliasOrder_eq_some_iff]

theorem mem_aliases : i ∈ d.aliases ↔ i ∈ d.aliasOrder := by
  rw [ExtTreeMap.mem_iff_isSome_getElem?, Option.isSome_iff_exists]
  simp only [getElem?_aliases_eq_some_iff, exists_and_left, exists_eq', and_true]

theorem aliasOf_eq_ok (hi : i ∈ d.aliasOrder) :
    aliasOf d.aliases i = .ok (aliasName (d.number i)) := by
  rw [aliasOf, getElem?_aliases_eq_some_iff.2 ⟨hi, rfl⟩]

/-- Only ids that name no state have no alias, and the error names them. -/
theorem not_mem_states_of_aliasOf {e : MissingState} (h : aliasOf d.aliases i = .error e) :
    e.id = i ∧ i ∉ d.states := by
  have hi : i ∉ d.aliasOrder := fun hi => by
    rw [aliasOf_eq_ok hi] at h
    cases h
  rw [← mem_aliases, ExtTreeMap.mem_iff_isSome_getElem?, Option.not_isSome_iff_eq_none] at hi
  rw [aliasOf, hi] at h
  cases h
  rw [← Option.not_isSome_iff_eq_none, ← ExtTreeMap.mem_iff_isSome_getElem?, mem_aliases,
    mem_aliasOrder, not_or] at hi
  exact ⟨rfl, hi.2⟩

theorem aliasesOf_eq_ok {ids : StateSet} (hids : ∀ i ∈ ids, i ∈ d.aliasOrder) :
    d.aliasesOf ids = .ok (ids.toList.map fun i => aliasName (d.number i)) :=
  mapM_eq_ok fun _ hi => aliasOf_eq_ok (hids _ (ExtTreeSet.mem_toList.1 hi))

theorem zipIdx_aliasOrder : d.aliasOrder.zipIdx = d.aliasOrder.map fun i => (i, d.number i) := by
  refine List.ext_getElem? fun k => ?_
  rw [List.getElem?_zipIdx, List.getElem?_map, Nat.zero_add]
  cases hi : d.aliasOrder[k]? with
  | none => rfl
  | some i => rw [Option.map_some, Option.map_some, (getElem?_aliasOrder_eq_some_iff.1 hi).2]

theorem statesByAlias_eq :
    d.statesByAlias = d.aliasOrder.map fun i => (aliasName (d.number i), i) := by
  rw [statesByAlias, zipIdx_aliasOrder, List.map_map]
  rfl

/-! ### The numbers of states -/

theorem injOn_number : Set.InjOn d.number {i | i ∈ d.aliasOrder} := fun i hi j hj heq => by
  have hi' := getElem?_aliasOrder_eq_some_iff.2 ⟨hi, heq⟩
  have hj' := getElem?_aliasOrder_eq_some_iff.2 ⟨hj, rfl⟩
  exact Option.some_inj.1 (hi'.symm.trans hj')

theorem pairwise_number_lt_aliasOrder : d.aliasOrder.Pairwise (d.number · < d.number ·) := by
  refine List.pairwise_iff_getElem.2 fun k l hk hl hlt => ?_
  rwa [(getElem?_aliasOrder_eq_some_iff.1 (List.getElem?_eq_getElem hk)).2,
    (getElem?_aliasOrder_eq_some_iff.1 (List.getElem?_eq_getElem hl)).2]

/-- The states stand in the order of their aliases. -/
theorem mergeSort_statesByAlias :
    d.statesByAlias.mergeSort (fun p q => decide (aliasKey p.1 ≤ aliasKey q.1)) =
      d.statesByAlias := by
  refine List.mergeSort_of_pairwise ?_
  rw [statesByAlias_eq, List.pairwise_map]
  refine pairwise_number_lt_aliasOrder.imp fun hlt => decide_eq_true ?_
  rw [aliasKey_aliasName, aliasKey_aliasName]
  exact Nat.le_of_lt hlt

/-- The state of an alias is the one that has it. -/
theorem lookup_statesByAlias_eq_some_iff {name : String} :
    d.statesByAlias.lookup name = some i ↔ aliasOf d.aliases i = .ok name := by
  have hmem : aliasOf d.aliases i = .ok name ↔
      i ∈ d.aliasOrder ∧ aliasName (d.number i) = name := by
    by_cases hi : i ∈ d.aliasOrder
    · rw [aliasOf_eq_ok hi, Except.ok.injEq, and_iff_right hi]
    · rw [aliasOf]
      have hnone : d.aliases[i]? = none := by
        rw [← Option.not_isSome_iff_eq_none, ← ExtTreeMap.mem_iff_isSome_getElem?, mem_aliases]
        exact hi
      simp [hnone, hi]
  have hnodup : (d.statesByAlias.map Prod.fst).Nodup := by
    rw [statesByAlias_eq, List.map_map, List.Nodup, List.pairwise_map]
    refine pairwise_number_lt_aliasOrder.imp fun hlt heq => ?_
    exact Nat.ne_of_lt hlt (aliasName_injective heq)
  rw [hmem, lookup_eq_some_iff_mem hnodup, statesByAlias_eq, List.mem_map]
  simp only [Prod.mk.injEq]
  constructor
  · rintro ⟨j, hj, hname, rfl⟩
    exact ⟨hj, hname⟩
  · rintro ⟨hi, hname⟩
    exact ⟨i, hi, hname, rfl⟩

theorem number_start : d.number d.start = 0 := List.idxOf_cons_self

/-- The states other than the start are numbered in ascending order. -/
theorem number_lt_number (hi : i ∈ d.states ∧ i ≠ d.start) (hj : j ∈ d.states ∧ j ≠ d.start)
    (hlt : i < j) : d.number i < d.number j := by
  have hplace {i : StateId} (hi : i ∈ d.states ∧ i ≠ d.start) :
      ∃ (k : Nat) (hk : k < d.aliasOrder.tail.length), d.aliasOrder.tail[k] = i ∧
        d.number i = k + 1 := by
    have hmem : i ∈ d.aliasOrder.tail := by
      rw [aliasOrder, List.tail_cons, List.mem_filter, ExtTreeMap.mem_keys, bne_iff_ne]
      exact hi
    refine ⟨d.aliasOrder.tail.idxOf i, List.idxOf_lt_length_iff.2 hmem, List.getElem_idxOf _, ?_⟩
    exact List.idxOf_cons_ne _ hi.2.symm
  obtain ⟨k, hk, rfl, hik⟩ := hplace hi
  obtain ⟨l, hl, rfl, hjl⟩ := hplace hj
  rw [hik, hjl]
  have hsorted := List.pairwise_iff_getElem.1 (pairwise_lt_tail_aliasOrder (d := d))
  -- If the places were the other way round, so would be the ids.
  rcases Nat.lt_trichotomy k l with h | rfl | h
  · omega
  · exact absurd hlt (Int.lt_irrefl _)
  · exact absurd (Int.lt_trans hlt (hsorted l k hl hk h)) (Int.lt_irrefl _)

variable (hstart : d.start ∈ d.states)

include hstart

theorem mem_aliasOrder_iff : i ∈ d.aliasOrder ↔ i ∈ d.states := by
  rw [mem_aliasOrder, or_iff_right_of_imp]
  rintro rfl
  exact hstart

theorem length_aliasOrder : d.aliasOrder.length = d.states.size := by
  have hperm : d.aliasOrder.Perm d.states.keys :=
    (List.perm_ext_iff_of_nodup nodup_aliasOrder ExtTreeMap.nodup_keys).2 fun i => by
      rw [mem_aliasOrder_iff hstart, ExtTreeMap.mem_keys]
  rw [hperm.length_eq, ExtTreeMap.length_keys]

/-- The states are numbered without gaps. -/
theorem bijOn_number : Set.BijOn d.number {i | i ∈ d.states} (Set.Iio d.states.size) := by
  refine ⟨fun i hi => ?mapsTo, fun i hi j hj heq => ?injOn, fun k hk => ?surjOn⟩
  case mapsTo =>
    rw [Set.mem_Iio, ← length_aliasOrder hstart]
    exact List.idxOf_lt_length_iff.2 ((mem_aliasOrder_iff hstart).2 hi)
  case injOn =>
    exact injOn_number ((mem_aliasOrder_iff hstart).2 hi) ((mem_aliasOrder_iff hstart).2 hj) heq
  case surjOn =>
    rw [Set.mem_Iio, ← length_aliasOrder hstart] at hk
    obtain ⟨hmem, hnumber⟩ :=
      getElem?_aliasOrder_eq_some_iff.1 (List.getElem?_eq_getElem hk)
    exact ⟨_, (mem_aliasOrder_iff hstart).1 hmem, hnumber⟩

end PatternMachines.Dfa
