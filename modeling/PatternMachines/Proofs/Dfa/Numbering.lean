import Mathlib.Data.List.Sort
import PatternMachines.Proofs.Dfa.Alias
import PatternMachines.Proofs.Dfa.Canonical
import PatternMachines.Proofs.Dfa.Missing
import PatternMachines.Proofs.Nfa.Rename
import PatternMachines.Proofs.Turing.OfDfa

/-!
# The names of the states of a deterministic automaton

The states that the subset construction numbers depend on the words of the nondeterministic
automaton only. So its ids can be renamed: the states, their numbers and their edges stay as long as
different ids stay different. In reports a state is called by its number after an `S`, and the state
of the machine by its number after a `q`.

## Main results

* `Dfa.ofNfa_rename`: renaming the ids of the nondeterministic automaton.
* `Dfa.Canonical.aliasOf_eq_ok_iff`: the aliases.
* `Dfa.ofNfa_numbering`: the numbers of the subset construction.
-/

namespace PatternMachines.Dfa

open Std

variable {d : Dfa} {n : Nfa} {i : StateId} {k : Nat} {f : StateId → StateId}

/-! ### The recorded sets -/

/-- The set behind a state is a closure. -/
theorem Determinizes.closure_eq (h : d.Determinizes n) {ids : StateSet}
    (hids : d.subsets[i]? = some ids) : n.closure ids = .ok ids := by
  obtain ⟨-, u, hu, hledTo⟩ := h.ledTo i ids hids
  have hclosed {p q : StateId} (hp : p ∈ ids) (hpath : Path n.states p [] q) : q ∈ ids :=
    (hledTo q).2 (((hledTo p).1 hp).before_silent hpath)
  have hstates := (Nfa.row_eq_ok_iff.1 (h.exists_row i ids hids)).1
  obtain ⟨c, hc⟩ := Nfa.closure_eq_ok_iff.2 fun p hp q hpath => hstates q (hclosed hp hpath)
  have heq : c = ids := ExtTreeSet.ext_mem fun q => by
    rw [Nfa.mem_closure hc]
    exact ⟨fun ⟨p, hp, hpath⟩ => hclosed hp hpath, fun hq => ⟨q, hq, .nil q⟩⟩
  rw [hc, heq]

theorem Determinizes.mem_subsets_iff (h : d.Determinizes n) : i ∈ d.subsets ↔ i ∈ d.states := by
  rw [ExtTreeMap.mem_iff_isSome_getElem?, Option.isSome_iff_exists]
  constructor
  · rintro ⟨ids, hids⟩
    exact h.mem_states_of_record hids
  · intro hi
    obtain ⟨s, hs⟩ := mem_states_iff.1 hi
    exact h.exists_record i s hs

/-! ### Renaming -/

/-- The subset construction succeeds on a renamed automaton, if it does on the automaton. -/
theorem Determinizes.exists_ofNfa_rename (h : d.Determinizes n) (hf : Set.InjOn f n.ids) :
    ∃ d', ofNfa (n.rename f) = .ok d' := by
  refine exists_ofNfa fun w hw r hpath => ?_
  obtain ⟨q, hq, rfl⟩ := (Nfa.path_start_rename_iff hf).1 hpath
  exact Nfa.mem_states_rename hf (h.mem_states_of_reaches (Nfa.reaches_iff.2 ⟨w, hw, hq⟩))

/-- Renaming the ids changes nothing but the recorded sets, which hold the renamed ids. -/
theorem ofNfa_rename (hd : ofNfa n = .ok d) (hf : Set.InjOn f n.ids) : ofNfa (n.rename f) =
    .ok { d with subsets := d.subsets.map fun _ ids => StateSet.image f ids } := by
  have hdet := determinizes_of_ofNfa hd
  obtain ⟨d', hd'⟩ := hdet.exists_ofNfa_rename hf
  have hdet' := determinizes_of_ofNfa hd'
  have hsame (u v : List Symbol) : d.LeadTogether u v ↔ d'.LeadTogether u v := by
    have hexists : (∃ r, Path (n.rename f).states (n.rename f).start u r) ↔
        ∃ q, Path n.states n.start u q := by
      simp only [Nfa.path_start_rename_iff hf]
      exact ⟨fun ⟨_, q, hq, _⟩ => ⟨q, hq⟩, fun ⟨q, hq⟩ => ⟨f q, q, hq, rfl⟩⟩
    rw [hdet.leadTogether_iff, hdet'.leadTogether_iff, Nfa.forall_path_rename_iff hf, hexists]
    rfl
  have haccepts (w : List Symbol) : d.accepts w = d'.accepts w := by
    obtain ⟨b, hb, hiff⟩ := hdet.accepts_eq w
    obtain ⟨b', hb', hiff'⟩ := hdet'.accepts_eq w
    rw [Nfa.exists_accepting_rename_iff hf] at hiff'
    rw [hb, hb', Except.ok.injEq, Bool.eq_iff_iff, hiff, hiff']
    rfl
  have hsubsets (i : StateId) (ids' : StateSet) :
      (d.subsets.map fun _ ids => StateSet.image f ids)[i]? = some ids' ↔
        ∃ w, d.follow d.start w = some i ∧ (n.rename f).LedTo w ids' := by
    rw [ExtTreeMap.getElem?_map, Option.map_eq_some_iff]
    simp only [hdet.getElem?_subsets_iff]
    constructor
    · rintro ⟨ids, ⟨w, hw, hledTo⟩, rfl⟩
      exact ⟨w, hw, hledTo.rename hf⟩
    · rintro ⟨w, hw, hledTo'⟩
      obtain ⟨first, hfirst, hstart⟩ := hdet.start_record
      obtain ⟨ids, -, hledTo⟩ := hdet.record_of_follow hfirst hstart hw
      exact ⟨ids, ⟨w, hw, hledTo⟩, (hledTo.rename hf).unique hledTo'⟩
  rw [hd', eq_of_ofNfa hd hd' hsame haccepts hsubsets]

/-! ### Names -/

/-- The aliases stand in the order of the numbers. -/
theorem Canonical.aliasOrder_eq (h : d.Canonical) (hstart : d.start ∈ d.states) :
    d.aliasOrder = (List.range d.states.size).map fun k : Nat => (k : StateId) := by
  refine List.Pairwise.eq_of_mem_iff (r := (· < ·)) ?_ ?_ fun i => ?_
  · refine List.pairwise_cons.2 ⟨fun i hi => ?_, pairwise_lt_tail_aliasOrder⟩
    rw [List.mem_filter, ExtTreeMap.mem_keys, bne_iff_ne, h.mem_iff, h.start_eq] at hi
    obtain ⟨⟨k, -, rfl⟩, hne⟩ := hi
    rw [h.start_eq]
    exact Int.lt_iff_le_and_ne.2 ⟨Int.natCast_nonneg k, hne.symm⟩
  · exact List.pairwise_map.2 (List.pairwise_lt_range.imp Int.ofNat_lt.2)
  · rw [mem_aliasOrder_iff hstart, h.mem_iff, List.mem_map]
    simp only [List.mem_range, @eq_comm _ i]

theorem Canonical.number_eq (h : d.Canonical) (hstart : d.start ∈ d.states)
    (hi : (k : StateId) ∈ d.states) : d.number k = k := by
  obtain ⟨l, hl, heq⟩ := (h.mem_iff _).1 hi
  obtain rfl := Int.ofNat.inj heq
  refine (getElem?_aliasOrder_eq_some_iff.1 ?_).2
  rw [h.aliasOrder_eq hstart, List.getElem?_map, List.getElem?_range hl, Option.map_some]

/-- An alias is the alias of the state whose number it holds. -/
theorem Canonical.aliasOf_eq_ok_iff (h : d.Canonical) (hstart : d.start ∈ d.states)
    (hi : i ∈ d.states) : aliasOf d.aliases i = .ok (aliasName k) ↔ i = k := by
  obtain ⟨l, -, rfl⟩ := (h.mem_iff i).1 hi
  rw [aliasOf_eq_ok ((mem_aliasOrder_iff hstart).2 hi), h.number_eq hstart hi, Except.ok.injEq,
    aliasName_injective.eq_iff]
  exact Int.ofNat_inj.symm

/-- **The numbers of the subset construction.** Where it succeeds, the states are the numbers from
`0`, which is the start, in the order of the first words that lead to them. The sets behind them are
closures, different and not empty. If the ids of the nondeterministic automaton are renamed, so that
different ids stay different, only these sets change, to the sets of the renamed ids. The alias of a
state and the name of the machine's state for it hold its number. -/
theorem ofNfa_numbering (hd : ofNfa n = .ok d) :
    d.Canonical ∧ (∀ i : StateId, i ∈ d.subsets ↔ i ∈ d.states) ∧
    (∀ (i j : StateId) (ids : StateSet),
      d.subsets[i]? = some ids → d.subsets[j]? = some ids → i = j) ∧
    (∀ (i : StateId) (ids : StateSet),
      d.subsets[i]? = some ids → ids ≠ ∅ ∧ n.closure ids = .ok ids) ∧
    (∀ f : StateId → StateId, Set.InjOn f n.ids → ofNfa (n.rename f) =
      .ok { d with subsets := d.subsets.map fun _ ids => StateSet.image f ids }) ∧
    ∀ i ∈ d.states, ∀ k : Nat, (aliasOf d.aliases i = .ok ("S" ++ toString k) ↔ i = k) ∧
      (Turing.stateName i = "q" ++ toString k ↔ i = k) := by
  have hdet := determinizes_of_ofNfa hd
  have hcanonical := canonical_of_ofNfa hd
  refine ⟨hcanonical, fun i => hdet.mem_subsets_iff, hdet.record_inj, fun i ids hids => ?_,
    fun f hf => ofNfa_rename hd hf, fun i hi k => ⟨?_, ?_⟩⟩
  · exact ⟨(hdet.ledTo i ids hids).1, hdet.closure_eq hids⟩
  · exact hcanonical.aliasOf_eq_ok_iff hdet.closed.start_mem hi
  · exact Turing.stateName_injective.eq_iff (b := (k : StateId))

/-- The automaton that strays keeps its states and their numbers when the signs of its ids, and with
them their order, are reversed. -/
theorem ofNfa_rename_straying : ∃ d, ofNfa straying = .ok d ∧ d.Canonical ∧
    Set.InjOn (fun id : StateId => -id) straying.ids ∧ ofNfa (straying.rename fun id => -id) =
      .ok { d with subsets := d.subsets.map fun _ ids => StateSet.image (fun id => -id) ids } := by
  obtain ⟨d, hd⟩ := exists_ofNfa mem_states_straying
  have hf : Set.InjOn (fun id : StateId => -id) straying.ids := neg_injective.injOn
  obtain ⟨hcanonical, -, -, -, hrename, -⟩ := ofNfa_numbering hd
  exact ⟨d, hd, hcanonical, hf, hrename _ hf⟩

end PatternMachines.Dfa
