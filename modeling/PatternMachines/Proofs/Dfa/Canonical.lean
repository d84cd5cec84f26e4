import PatternMachines.Proofs.Dfa.Trim
import PatternMachines.Proofs.Exploration.Order
import PatternMachines.Proofs.Symbol

/-!
# The numbering of the subset construction

The subset construction numbers its states from `0` without gaps, in the order of the first words
that lead to them: shorter words come before longer ones, and words of one length are compared
symbol by symbol, the symbols by the codes of their characters. So the numbers say nothing of how the
sets behind the states were found. Two automata that are numbered in this way have the same states,
if the same words lead to one state and if the same words are accepted.

## Main definitions

* `Dfa.FirstWord`: the first of the words that lead to a state.
* `Dfa.Canonical`: the automata that are numbered in the order of first words.
* `Dfa.LeadTogether`: the words that lead to one state.

## Main results

* `Dfa.canonical_of_ofNfa`: the subset construction.
* `Dfa.Canonical.states_eq`: the states are determined by the words.
* `Dfa.eq_of_ofNfa`: when two subset constructions have the same result.
-/

namespace PatternMachines

open Std

namespace Nfa

variable {n : Nfa}

/-- The edges of sets of states are labelled with symbols, which ascend. -/
theorem labelled_subsetEdges : n.subsetEdges.Labelled where
  successors_eq _ := rfl
  ascending _ _ hrow :=
    (Symbol.pairwise_lt_toList n.alphabet).sublist (sublist_of_rowOver (rowOver_of_row hrow))

end Nfa

namespace Dfa

variable {d d' : Dfa} {n : Nfa} {i j : StateId} {u v w : List Symbol}

/-- Whether a word is the first of those that lead from the start to a state. -/
structure FirstWord (d : Dfa) (i : StateId) (w : List Symbol) : Prop where
  /-- It leads to the state. -/
  follow_eq : d.follow d.start w = some i
  /-- All others come after it. -/
  lt_of_ne : ∀ v, d.follow d.start v = some i → v ≠ w → ShortlexLt w v

theorem FirstWord.unique (h : d.FirstWord i v) (h' : d.FirstWord i w) : v = w := by
  by_contra hne
  exact (h.lt_of_ne w h'.follow_eq (Ne.symm hne)).not_lt (h'.lt_of_ne v h.follow_eq hne)

/-- Whether the states are numbered from the start without gaps, in the order of their first
words. -/
structure Canonical (d : Dfa) : Prop where
  /-- The start has the first number. -/
  start_eq : d.start = 0
  /-- There are no gaps. -/
  mem_iff : ∀ i, i ∈ d.states ↔ ∃ k : Nat, k < d.states.size ∧ i = k
  /-- Some word leads to each state, and one of them is the first. -/
  exists_firstWord : ∀ i ∈ d.states, ∃ w, d.FirstWord i w
  /-- The first words ascend with the numbers. -/
  ascending : ∀ (i j : StateId) (v w : List Symbol),
    d.FirstWord i v → d.FirstWord j w → i < j → ShortlexLt v w

/-- Whether two words lead from the start to one state. -/
def LeadTogether (d : Dfa) (u v : List Symbol) : Prop :=
  ∃ i, d.follow d.start u = some i ∧ d.follow d.start v = some i

/-! ### The subset construction -/

/-- A word that leads to a set of states can be followed to the state that records it. -/
theorem Determinizes.follow_of_leads (h : d.Determinizes n) {first ids : StateSet}
    (hfirst : d.subsets[d.start]? = some first) (hw : n.subsetEdges.Leads first w ids) :
    ∃ i, d.subsets[i]? = some ids ∧ d.follow d.start w = some i := by
  induction hw with
  | nil => exact ⟨d.start, hfirst, rfl⟩
  | @snoc w ids row a target _ hrow htarget ih =>
    obtain ⟨i, hi, hfollow⟩ := ih
    obtain ⟨ha, hedge⟩ := (Nfa.mem_row hrow).1 htarget
    obtain ⟨j, hj⟩ := h.exists_target i ids a target hi ha hedge
    refine ⟨j, hj, ?_⟩
    rw [follow_append, hfollow, Option.bind_some]
    exact (h.follow_cons_eq hi a []).2 ⟨j, target, ha, hedge, hj, rfl⟩

/-- A word leads to the set of states behind the state that it is followed to. -/
theorem Determinizes.leads_of_follow (h : d.Determinizes n) {first : StateSet}
    (hfirst : d.subsets[d.start]? = some first) (hw : d.follow d.start w = some i) :
    ∃ ids, d.subsets[i]? = some ids ∧ n.subsetEdges.Leads first w ids := by
  induction w using List.reverseRecOn generalizing i with
  | nil =>
    cases hw
    exact ⟨first, hfirst, .nil⟩
  | append_singleton w a ih =>
    rw [follow_append, Option.bind_eq_some_iff] at hw
    obtain ⟨k, hk, hlast⟩ := hw
    obtain ⟨ids, hids, hleads⟩ := ih hk
    obtain ⟨j, target, ha, hedge, htarget, hfollow⟩ := (h.follow_cons_eq hids a []).1 hlast
    cases hfollow
    obtain ⟨row, hrow⟩ := h.exists_row k ids hids
    exact ⟨target, htarget, hleads.snoc hrow ((Nfa.mem_row hrow).2 ⟨ha, hedge⟩)⟩

/-- Two words lead to one state if they are over the alphabet and lead to the same ids, and there
are such ids. -/
theorem Determinizes.leadTogether_iff (h : d.Determinizes n) : d.LeadTogether u v ↔
    (∀ a ∈ u ++ v, a ∈ n.alphabet) ∧ (∃ q, Path n.states n.start u q) ∧
      ∀ q, Path n.states n.start u q ↔ Path n.states n.start v q := by
  obtain ⟨first, hfirst, hstart⟩ := h.start_record
  have hsome := h.follow_isSome_iff hfirst hstart
  simp only [List.nil_append, Option.isSome_iff_exists] at hsome
  rw [List.forall_mem_append]
  constructor
  · rintro ⟨i, hu, hv⟩
    obtain ⟨ids, hids, hledTo⟩ := h.record_of_follow hfirst hstart hu
    obtain ⟨ids', hids', hledTo'⟩ := h.record_of_follow hfirst hstart hv
    rw [hids, Option.some_inj] at hids'
    subst hids'
    obtain ⟨hualphabet, hpath⟩ := (hsome u).1 ⟨i, hu⟩
    exact ⟨⟨hualphabet, ((hsome v).1 ⟨i, hv⟩).1⟩, hpath,
      fun q => (hledTo q).symm.trans (hledTo' q)⟩
  · rintro ⟨⟨hualphabet, hvalphabet⟩, ⟨q, hpath⟩, hiff⟩
    obtain ⟨i, hi⟩ := (hsome u).2 ⟨hualphabet, q, hpath⟩
    obtain ⟨j, hj⟩ := (hsome v).2 ⟨hvalphabet, q, (hiff q).1 hpath⟩
    obtain ⟨ids, hids, hledTo⟩ := h.record_of_follow hfirst hstart hi
    obtain ⟨ids', hids', hledTo'⟩ := h.record_of_follow hfirst hstart hj
    have heq : ids = ids' := ExtTreeSet.ext_mem fun q =>
      (hledTo q).trans ((hiff q).trans (hledTo' q).symm)
    subst heq
    exact ⟨i, hi, by rw [hj, h.record_inj j i ids hids' hids]⟩

section Rows

variable {rows : List (StateSet × List (Symbol × StateSet))}

theorem mem_states_ofSubsets :
    i ∈ (ofSubsets n rows).states ↔ ∃ k : Nat, k < rows.length ∧ i = k := by
  rw [mem_states_iff]
  constructor
  · rintro ⟨s, hs⟩
    obtain ⟨k, ids, row, rfl, hk, -⟩ := getElem?_states_ofSubsets.1 hs
    exact ⟨k, (List.getElem?_eq_some_iff.1 hk).1, rfl⟩
  · rintro ⟨k, hk, rfl⟩
    exact ⟨_, getElem?_states_ofSubsets.2 ⟨k, _, _, rfl, List.getElem?_eq_getElem hk, rfl⟩⟩

theorem size_states_ofSubsets : (ofSubsets n rows).states.size = rows.length := by
  have hdistinct : (numbered rows).Pairwise fun x y => ¬compare x.1 y.1 = .eq := by
    simpa only [Std.compare_eq_iff_eq] using List.pairwise_map.1 (@nodup_numbered_fst rows)
  rw [states_ofSubsets, ExtTreeMap.size_ofList, List.length_map, numbered, List.length_map,
    List.length_zipIdx]
  exact List.pairwise_map.2 hdistinct

/-- The words of the exploration are the first words of the states. -/
theorem firstWord_of_leads (hdet : (ofSubsets n rows).Determinizes n) {first : StateSet}
    (hfirst : (ofSubsets n rows).subsets[(ofSubsets n rows).start]? = some first) {k : Nat}
    {ids : StateSet} {row : List (Symbol × StateSet)} (hk : rows[k]? = some (ids, row))
    (hw : n.subsetEdges.Leads first w ids)
    (hleast : ∀ v, n.subsetEdges.Leads first v ids → v ≠ w → ShortlexLt w v) :
    (ofSubsets n rows).FirstWord k w := by
  have hids : (ofSubsets n rows).subsets[(k : StateId)]? = some ids :=
    getElem?_subsets_ofSubsets.2 ⟨k, row, rfl, hk⟩
  refine ⟨?_, fun v hv hne => hleast v ?_ hne⟩
  · obtain ⟨i, hi, hfollow⟩ := hdet.follow_of_leads hfirst hw
    rwa [hdet.record_inj i k ids hi hids] at hfollow
  · obtain ⟨ids', hids', hv⟩ := hdet.leads_of_follow hfirst hv
    rw [hids, Option.some_inj] at hids'
    exact hids' ▸ hv

end Rows

/-- The subset construction numbers its states in the order of their first words. -/
theorem canonical_of_ofNfa (hd : ofNfa n = .ok d) : d.Canonical := by
  have hdet := determinizes_of_ofNfa hd
  obtain ⟨first, rows, hfirst, hrows, rfl⟩ := ofNfa_eq_ok_iff.1 hd
  obtain ⟨words, hascending, hwords⟩ := Nfa.labelled_subsetEdges.exists_first_words hrows
  have hrecord : (ofSubsets n rows).subsets[(ofSubsets n rows).start]? = some first := by
    obtain ⟨ids, hids, hledTo⟩ := hdet.start_record
    rw [hids, hledTo.unique (Nfa.ledTo_closure_start hfirst)]
  have hfirstWord : ∀ k < rows.length,
      ∃ w, words[k]? = some w ∧ (ofSubsets n rows).FirstWord k w := by
    intro k hk
    obtain ⟨w, hw, hleads, hleast⟩ := hwords k _ _ (List.getElem?_eq_getElem hk)
    exact ⟨w, hw, firstWord_of_leads hdet hrecord (List.getElem?_eq_getElem hk) hleads hleast⟩
  have hplace {i : StateId} {v : List Symbol} (hv : (ofSubsets n rows).FirstWord i v) :
      ∃ k : Nat, i = k ∧ words[k]? = some v := by
    have hi := hdet.closed.mem_states_of_follow hdet.closed.start_mem hv.follow_eq
    obtain ⟨k, hk, rfl⟩ := mem_states_ofSubsets.1 hi
    obtain ⟨w, hw, hfirst⟩ := hfirstWord k hk
    exact ⟨k, rfl, by rw [hw, hv.unique hfirst]⟩
  constructor
  case start_eq => rfl
  case mem_iff =>
    intro i
    rw [mem_states_ofSubsets, size_states_ofSubsets]
  case exists_firstWord =>
    intro i hi
    obtain ⟨k, hk, rfl⟩ := mem_states_ofSubsets.1 hi
    exact (hfirstWord k hk).imp fun w hw => hw.2
  case ascending =>
    intro i j v w hv hw hlt
    obtain ⟨k, rfl, hk⟩ := hplace hv
    obtain ⟨l, rfl, hl⟩ := hplace hw
    obtain ⟨hkw, rfl⟩ := List.getElem?_eq_some_iff.1 hk
    obtain ⟨hlw, rfl⟩ := List.getElem?_eq_some_iff.1 hl
    exact List.pairwise_iff_getElem.1 hascending k l hkw hlw (Int.ofNat_lt.1 hlt)

/-! ### Automata with the same words -/

/-- The first word of a state is the first word of the state that it leads to in another automaton
where the same words lead to one state. -/
theorem FirstWord.of_leadTogether (h : d.FirstWord i w)
    (hsame : ∀ u v, d'.LeadTogether u v → d.LeadTogether u v)
    (hj : d'.follow d'.start w = some j) : d'.FirstWord j w := by
  refine ⟨hj, fun v hv hne => h.lt_of_ne v ?_ hne⟩
  obtain ⟨k, hk, hk'⟩ := hsame v w ⟨j, hv, hj⟩
  rw [hk, ← hk', h.follow_eq]

namespace Canonical

/-- A word leads to no smaller number in another automaton where the same words lead to one
state. -/
theorem le_of_leadTogether (h : d.Canonical) (h' : d'.Canonical) (hclosed : d.Closed)
    (hclosed' : d'.Closed) (hsame : ∀ u v, d.LeadTogether u v ↔ d'.LeadTogether u v) {k l : Nat}
    (hk : d.follow d.start w = some (k : StateId))
    (hl : d'.follow d'.start w = some (l : StateId)) : k ≤ l := by
  induction k generalizing l w with
  | zero => exact Nat.zero_le l
  | succ k ih =>
    have hmem := hclosed.mem_states_of_follow hclosed.start_mem hk
    obtain ⟨m, hm, heq⟩ := (h.mem_iff _).1 hmem
    obtain rfl := Int.ofNat.inj heq
    have hbefore : (k : StateId) ∈ d.states := (h.mem_iff _).2 ⟨k, by omega, rfl⟩
    obtain ⟨u, hu⟩ := h.exists_firstWord _ hbefore
    obtain ⟨v, hv⟩ := h.exists_firstWord _ hmem
    have hlt : ShortlexLt u v := h.ascending _ _ u v hu hv (Int.ofNat_lt.2 (Nat.lt_succ_self k))
    -- The other automaton takes the first words of both states to states with these first words.
    obtain ⟨j, hju, -⟩ := (hsame u u).1 ⟨k, hu.follow_eq, hu.follow_eq⟩
    obtain ⟨m, hm', rfl⟩ :=
      (h'.mem_iff _).1 (hclosed'.mem_states_of_follow hclosed'.start_mem hju)
    have hlv : d'.follow d'.start v = some (l : StateId) := by
      obtain ⟨j, hjw, hjv⟩ := (hsame w v).1 ⟨_, hk, hv.follow_eq⟩
      rw [hjv, ← hjw, hl]
    have hu' := hu.of_leadTogether (fun x y => (hsame x y).2) hju
    have hv' := hv.of_leadTogether (fun x y => (hsame x y).2) hlv
    have hle := ih hu.follow_eq hju
    rcases Nat.lt_trichotomy m l with hml | rfl | hlm
    · omega
    · obtain ⟨j, hj, hj'⟩ := (hsame u v).2 ⟨_, hju, hlv⟩
      rw [hu.follow_eq, Option.some_inj] at hj
      rw [hv.follow_eq, Option.some_inj] at hj'
      have := Int.ofNat.inj (hj.trans hj'.symm)
      omega
    · exact absurd (h'.ascending _ _ v u hv' hu' (Int.ofNat_lt.2 hlm)) hlt.not_lt

theorem follow_of_follow (h : d.Canonical) (h' : d'.Canonical) (hclosed : d.Closed)
    (hclosed' : d'.Closed) (hsame : ∀ u v, d.LeadTogether u v ↔ d'.LeadTogether u v)
    (hi : d.follow d.start w = some i) : d'.follow d'.start w = some i := by
  obtain ⟨j, hj, -⟩ := (hsame w w).1 ⟨i, hi, hi⟩
  obtain ⟨k, -, rfl⟩ :=
    (h.mem_iff _).1 (hclosed.mem_states_of_follow hclosed.start_mem hi)
  obtain ⟨l, -, rfl⟩ :=
    (h'.mem_iff _).1 (hclosed'.mem_states_of_follow hclosed'.start_mem hj)
  have hkl := h.le_of_leadTogether h' hclosed hclosed' hsame hi hj
  have hlk := h'.le_of_leadTogether h hclosed' hclosed (fun u v => (hsame u v).symm) hj hi
  rw [hj, Nat.le_antisymm hkl hlk]

/-- If words are followed alike and the same words are accepted, each state has its accepting flag
and its edges in both automata. -/
theorem getElem?_states (h : d.Canonical) (hclosed : d.Closed) (hclosed' : d'.Closed)
    (hfollow : ∀ w, d.follow d.start w = d'.follow d'.start w)
    (haccepts : ∀ w, d.accepts w = d'.accepts w) {s : DfaState} (hs : d.states[i]? = some s) :
    d'.states[i]? = some s := by
  obtain ⟨w, hw⟩ := h.exists_firstWord i (mem_states_iff.2 ⟨s, hs⟩)
  have hi := hw.follow_eq
  have hi' := hi
  rw [hfollow] at hi'
  obtain ⟨s', hs'⟩ :=
    mem_states_iff.1 (hclosed'.mem_states_of_follow hclosed'.start_mem hi')
  have haccepting : s.accepting = s'.accepting := by
    have := haccepts w
    rw [hclosed.accepts_eq, hclosed'.accepts_eq, hi, hi'] at this
    simpa [acceptsAt, hs, hs'] using this
  have hedges : s.edges = s'.edges := by
    refine ExtTreeMap.ext_getElem? fun a => ?_
    have := hfollow (w ++ [a])
    rw [follow_append, follow_append, hi, hi', Option.bind_some, Option.bind_some,
      follow_cons hs, follow_cons hs'] at this
    simpa [follow] using this
  obtain rfl : s = s' := by
    cases s
    cases s'
    rw [DfaState.mk.injEq]
    exact ⟨haccepting, hedges⟩
  exact hs'

/-- In automata that are numbered in the order of first words, words are followed alike, if the same
words lead to one state. -/
theorem follow_eq (h : d.Canonical) (h' : d'.Canonical) (hclosed : d.Closed)
    (hclosed' : d'.Closed) (hsame : ∀ u v, d.LeadTogether u v ↔ d'.LeadTogether u v)
    (w : List Symbol) : d.follow d.start w = d'.follow d'.start w :=
  Option.ext fun _ => ⟨h.follow_of_follow h' hclosed hclosed' hsame,
    h'.follow_of_follow h hclosed' hclosed fun u v => (hsame u v).symm⟩

/-- Automata that are numbered in the order of first words have the same states, if the same words
lead to one state and the same words are accepted. -/
theorem states_eq (h : d.Canonical) (h' : d'.Canonical) (hclosed : d.Closed)
    (hclosed' : d'.Closed) (hsame : ∀ u v, d.LeadTogether u v ↔ d'.LeadTogether u v)
    (haccepts : ∀ w, d.accepts w = d'.accepts w) : d.states = d'.states := by
  have hfollow := h.follow_eq h' hclosed hclosed' hsame
  refine ExtTreeMap.ext_getElem? fun i => Option.ext fun s => ⟨?_, ?_⟩
  · exact h.getElem?_states hclosed hclosed' hfollow haccepts
  · exact h'.getElem?_states hclosed' hclosed (fun w => (hfollow w).symm)
      fun w => (haccepts w).symm

end Canonical

/-- The results of the subset construction differ in the recorded sets only, if the same words lead
to one state and the same words are accepted. The sets are known from the words that lead to the
states. -/
theorem eq_of_ofNfa {n' : Nfa} (hd : ofNfa n = .ok d) (hd' : ofNfa n' = .ok d')
    (hsame : ∀ u v, d.LeadTogether u v ↔ d'.LeadTogether u v)
    (haccepts : ∀ w, d.accepts w = d'.accepts w) {subsets : ExtTreeMap StateId StateSet}
    (hsubsets : ∀ (i : StateId) (ids : StateSet),
      subsets[i]? = some ids ↔ ∃ w, d.follow d.start w = some i ∧ n'.LedTo w ids) :
    d' = { d with subsets := subsets } := by
  have h := canonical_of_ofNfa hd
  have h' := canonical_of_ofNfa hd'
  have hdet' := determinizes_of_ofNfa hd'
  have hclosed := (determinizes_of_ofNfa hd).closed
  have hstart : d'.start = d.start := by rw [h.start_eq, h'.start_eq]
  have hstates : d'.states = d.states :=
    (h.states_eq h' hclosed hdet'.closed hsame haccepts).symm
  have halphabet : d'.alphabet = d.alphabet := ExtTreeSet.ext_mem fun a => by
    rw [mem_alphabet_iff_of_ofNfa hd, mem_alphabet_iff_of_ofNfa hd', hstates]
  have hrecords : d'.subsets = subsets := by
    refine ExtTreeMap.ext_getElem? fun i => Option.ext fun ids => ?_
    rw [hdet'.getElem?_subsets_iff, hsubsets]
    simp only [h.follow_eq h' hclosed hdet'.closed hsame]
  rw [Dfa.mk.injEq]
  exact ⟨hstart, hstates, halphabet, hrecords⟩

end Dfa

end PatternMachines
