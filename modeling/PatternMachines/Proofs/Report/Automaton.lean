import PatternMachines.Proofs.Batch.Written
import PatternMachines.Proofs.Dfa.Dead
import PatternMachines.Proofs.Dfa.Listed
import PatternMachines.Report.Automaton

/-!
# What a printed automaton shows

A printed automaton lists its states by their aliases, and its edges in two sections: those of the
dead states stand under the names of these, and the others by themselves. The dead states are sorted
by their names as texts, the others are in the order of the aliases. Whichever states are dead, each
edge is in one of the two sections, and it is written there once.

## Main definitions

* `Dfa.ListsOnce`: names that are those of given states, each once.
* `Report.Listing`, `Report.Listing.lines`: what is printed of an automaton, and its lines.
* `Report.Listing.Shows`: a listing shows the states and the edges of an automaton.

## Main results

* `Dfa.display_aliasedEdge_injective`: an edge can be told from its written form.
* `Dfa.Closed.edgesWhere_eq_ok`, `Report.automaton_eq_ok`: the printed text of a closed automaton.
* `Report.allEdges_listing`: all edges are listed.
* `Report.automaton_shows`: the listing of every closed automaton shows it.
-/

namespace PatternMachines

open Std Report

namespace Dfa

variable {d : Dfa} {i : StateId}

/-! ### Written edges -/

/-- The written form of an edge shows its parts, whatever its symbol is. The number at the front
ends before the first blank, and that at the end begins behind the last character that is no
digit. -/
theorem display_aliasedEdge_injective :
    Function.Injective fun e : Nat × Symbol × Nat => (aliasedEdge e).display := by
  rintro ⟨k, x, l⟩ ⟨k', x', l'⟩ heq
  have hchars (k l : Nat) (x : Symbol) : (aliasedEdge (k, x, l)).display.toList =
      (aliasName k).toList ++ (" --".toList ++ ((x.toList ++ "--> S".toList) ++
        (toString l).toList)) := by
    simp [aliasedEdge, AliasedEdge.display, aliasName]
  have hdigits (l : Nat) (c : Char) (hc : c ∈ (toString l).toList) : c.isDigit = true :=
    Nat.isDigit_of_mem_toDigits (by decide) (by decide) (Nat.toList_repr ▸ hc)
  have hlast (x : Symbol) : ∀ c ∈ (x.toList ++ "--> S".toList).getLast?, c.isDigit = false := by
    intro c hc
    have hS : "--> S".toList.getLast? = some 'S' := by decide
    rw [List.getLast?_append, hS, Option.some_or, Option.mem_some_iff] at hc
    rw [← hc]
    rfl
  have hchars' := congrArg String.toList heq
  dsimp only at hchars'
  rw [hchars, hchars] at hchars'
  obtain ⟨rfl, hrest⟩ := delimited_aliasName k trivial k' trivial _ _ (by simp) (by simp) hchars'
  obtain ⟨hsymbol, htarget⟩ := Text.eq_of_append_eq_right (hlast x) (hlast x') (hdigits l)
    (hdigits l') (List.append_cancel_left hrest)
  obtain rfl := String.toList_inj.1 (List.append_cancel_right hsymbol)
  obtain rfl := Nat.repr_injective (String.toList_inj.1 htarget)
  rfl

/-! ### States and their edges -/

/-- Whether `names` are the names of the states in `ids`, each once. -/
def ListsOnce (name : StateId → String) (ids : Set StateId) (names : List String) : Prop :=
  names.Nodup ∧ ∀ n, n ∈ names ↔ n ∈ name '' ids

theorem ListsOnce.perm {name : StateId → String} {ids : Set StateId} {names names' : List String}
    (h : ListsOnce name ids names) (hperm : names'.Perm names) : ListsOnce name ids names' :=
  ⟨hperm.nodup_iff.2 h.1, fun n => hperm.mem_iff.trans (h.2 n)⟩

/-- The states that are picked in the order of the aliases. -/
theorem listsOnce_filter {p : StateId → Bool} {ids : Set StateId}
    (hids : ∀ i, i ∈ ids ↔ i ∈ d.aliasOrder ∧ p i = true) :
    ListsOnce (fun i => aliasName (d.number i)) ids
      ((d.aliasOrder.filter p).map fun i => aliasName (d.number i)) := by
  constructor
  · refine List.pairwise_map.2 ((pairwise_number_lt_aliasOrder.filter p).imp fun hlt heq => ?_)
    exact Nat.ne_of_lt hlt (aliasName_injective heq)
  · intro n
    simp only [List.mem_map, List.mem_filter, Set.mem_image, hids]

/-- The states that are dead, or those that are not, in the order of the aliases. -/
def statesWhere (d : Dfa) (dead : Bool) : List StateId :=
  d.aliasOrder.filter fun i => d.deadStates.contains i == dead

/-- What is printed of a state and of its edges. -/
def entry (d : Dfa) (i : StateId) : String × List AliasedEdge :=
  (aliasName (d.number i), (d.numberedEdgesOf i).map aliasedEdge)

theorem entry_eq {s : DfaState} (hs : d.states[i]? = some s) : d.entry i =
    (aliasName (d.number i), s.edges.toList.map fun (x, j) =>
      ⟨aliasName (d.number i), x, aliasName (d.number j)⟩) := by
  rw [entry, numberedEdgesOf, hs, List.map_map]
  rfl

theorem mem_statesWhere (hstart : d.start ∈ d.states) {dead : Bool} :
    i ∈ d.statesWhere dead ↔ d.isDead i = .ok dead := by
  rw [statesWhere, List.mem_filter, mem_aliasOrder_iff hstart, mem_states_iff, isDead, state]
  cases hs : d.states[i]? with
  | none => simp [Except.map]
  | some s =>
    have hdead : d.deadStates.contains i = isDeadState i s := by
      rw [Bool.eq_iff_iff, ExtTreeSet.contains_iff_mem, mem_deadStates_iff, hs]
      simp
    simp [Except.map, hdead]

/-- The entries of the dead states, or those of the others. -/
theorem Closed.edgesWhere_eq_ok (h : d.Closed) (dead : Bool) :
    edgesWhere d dead = .ok ((d.statesWhere dead).map d.entry) := by
  rw [edgesWhere, statesByAlias_eq, List.filter_map, List.mapM_map]
  refine mapM_eq_ok fun i hi => ?_
  rw [Function.comp_apply]
  dsimp only
  rw [h.aliasedEdges_eq_ok (List.mem_filter.1 hi).1]
  rfl

end Dfa

namespace Report

open Dfa

/-! ### Listings -/

/-- What is printed of an automaton. -/
structure Listing where
  /-- The symbols. -/
  alphabet : List Symbol
  /-- The states. -/
  states : List String
  /-- The start. -/
  start : String
  /-- The accepting states. -/
  accepting : List String
  /-- The edges of the states that are not dead. -/
  edges : List AliasedEdge
  /-- The dead states with their edges. -/
  dead : List (String × List AliasedEdge)

namespace Listing

/-- The lines of a listing. -/
def lines (l : Listing) : List String :=
  ["=== AFD ===",
    "Alfabeto: " ++ listed l.alphabet,
    "Estados: " ++ Text.join ", " l.states,
    "Estado inicial: " ++ l.start,
    "Estados de aceptación: " ++ listed l.accepting,
    "Transiciones:"] ++
  l.edges.map (fun e => "  " ++ e.display) ++
  ["Estados muertos:"] ++
  (if l.dead.isEmpty then ["  " ++ nothing] else []) ++
  l.dead.flatMap (fun (name, edges) =>
    ("  " ++ name) :: edges.map fun e => "    " ++ e.display) ++
  [""]

/-- All edges of a listing. -/
def allEdges (l : Listing) : List AliasedEdge := l.edges ++ l.dead.flatMap Prod.snd

/-- Whether a listing shows an automaton whose states have the given names. -/
structure Shows (l : Listing) (d : Dfa) (name : StateId → String) : Prop where
  /-- The states are listed. -/
  states : ListsOnce name {i | i ∈ d.states} l.states
  /-- The accepting states are listed. -/
  accepting : ListsOnce name {i | d.acceptsAt i = true} l.accepting
  /-- The dead states have entries. -/
  dead : ListsOnce name {i | d.isDead i = .ok true} (l.dead.map Prod.fst)
  /-- The entry of a dead state shows its edges. -/
  mem_dead : ∀ n edges, (n, edges) ∈ l.dead ↔ ∃ i s, d.isDead i = .ok true ∧
    d.states[i]? = some s ∧ n = name i ∧
    edges = s.edges.toList.map fun (x, j) => ⟨name i, x, name j⟩
  /-- The other edges are shown by themselves. -/
  mem_edges : ∀ e, e ∈ l.edges ↔ ∃ i s x j, d.isDead i = .ok false ∧ d.states[i]? = some s ∧
    s.edges[x]? = some j ∧ e = ⟨name i, x, name j⟩
  /-- No edge is written twice. -/
  nodup_display : (l.allEdges.map AliasedEdge.display).Nodup

end Listing

/-- The listing of an automaton. -/
def listing (d : Dfa) : Listing where
  alphabet := d.alphabet.toList
  states := d.aliasOrder.map fun i => aliasName (d.number i)
  start := aliasName (d.number d.start)
  accepting := alphabetical (d.acceptingStates.toList.map fun i => aliasName (d.number i))
  edges := (d.statesWhere false).flatMap fun i => (d.entry i).2
  dead := ((d.statesWhere true).map d.entry).mergeSort fun s t => decide (s.1 ≤ t.1)

variable {d : Dfa}

theorem automaton_eq_ok (h : d.Closed) :
    automaton d = .ok (Text.ofLines (listing d).lines) := by
  rw [automaton, aliasOf_eq_ok (mem_aliasOrder.2 (.inl rfl)),
    aliasesOf_eq_ok fun _ => mem_aliasOrder_of_mem_acceptingStates, h.edgesWhere_eq_ok,
    h.edgesWhere_eq_ok]
  have hempty {es : List (String × List AliasedEdge)} :
      (es.mergeSort fun s t => decide (s.1 ≤ t.1)).isEmpty = es.isEmpty :=
    (List.mergeSort_perm _ _).isEmpty_eq
  have hstates : d.statesByAlias.map Prod.fst =
      d.aliasOrder.map fun i => aliasName (d.number i) := by
    rw [statesByAlias_eq, List.map_map]
    rfl
  have hedges : ((d.statesWhere false).map d.entry).flatMap
      (fun x => x.2.map fun e => "  " ++ e.display) =
      (listing d).edges.map fun e => "  " ++ e.display := by
    rw [listing, List.map_flatMap, List.flatMap_map]
  rw [Listing.lines, ← hedges]
  simp only [listing, hempty, ← hstates]
  rfl

/-- The names of the states of a set, each once. -/
theorem listsOnce_toList {ids : StateSet} (hids : ∀ i ∈ ids, i ∈ d.aliasOrder) :
    ListsOnce (fun i => aliasName (d.number i)) {i | i ∈ ids}
      (ids.toList.map fun i => aliasName (d.number i)) := by
  constructor
  · refine List.Nodup.map_on (fun i hi j hj heq => ?_) (nodup_toList ids)
    exact injOn_number (hids i (ExtTreeSet.mem_toList.1 hi)) (hids j (ExtTreeSet.mem_toList.1 hj))
      (aliasName_injective heq)
  · intro n
    simp only [List.mem_map, ExtTreeSet.mem_toList]
    rfl

/-- The names of the dead states. -/
theorem names_dead_listing (hstart : d.start ∈ d.states) :
    ((listing d).dead.map Prod.fst).Perm
      (d.deadStates.toList.map fun i => aliasName (d.number i)) := by
  refine ((List.mergeSort_perm _ _).map _).trans ?_
  rw [List.map_map]
  refine List.Perm.map (fun i => aliasName (d.number i)) ?_
  refine (List.perm_ext_iff_of_nodup (nodup_aliasOrder.filter _) (nodup_toList _)).2 fun i => ?_
  rw [ExtTreeSet.mem_toList, mem_deadStates_iff_isDead]
  exact mem_statesWhere hstart

/-- Each edge is in one of the two sections. -/
theorem allEdges_listing (d : Dfa) :
    (listing d).allEdges.Perm (d.numberedEdges.map aliasedEdge) := by
  have hdead : ((listing d).dead.flatMap Prod.snd).Perm
      ((d.statesWhere true).flatMap fun i => (d.entry i).2) := by
    refine ((List.mergeSort_perm _ _).flatMap_right _).trans (List.Perm.of_eq ?_)
    rw [List.flatMap_map]
  have hstates : (d.statesWhere false ++ d.statesWhere true).Perm d.aliasOrder := by
    simp only [statesWhere, beq_false, beq_true]
    exact List.perm_append_comm.trans (List.filter_append_perm _ _)
  rw [Listing.allEdges, numberedEdges, List.map_flatMap]
  refine (hdead.append_left _).trans ?_
  rw [listing, ← List.flatMap_append]
  exact hstates.flatMap_right _

theorem shows_listing (h : d.Closed) :
    (listing d).Shows d fun i => aliasName (d.number i) := by
  have hmem {i : StateId} : i ∈ d.aliasOrder ↔ i ∈ d.states := mem_aliasOrder_iff h.start_mem
  have hwhere {dead : Bool} {i : StateId} : i ∈ d.statesWhere dead ↔ d.isDead i = .ok dead :=
    mem_statesWhere h.start_mem
  constructor
  case states =>
    have hall : ListsOnce (fun i => aliasName (d.number i)) {i | i ∈ d.states}
        ((d.aliasOrder.filter fun _ => true).map fun i => aliasName (d.number i)) :=
      listsOnce_filter fun i => by simp [hmem]
    rwa [List.filter_true] at hall
  case accepting =>
    simp only [← mem_acceptingStates]
    exact (listsOnce_toList fun _ => mem_aliasOrder_of_mem_acceptingStates).perm
      (List.mergeSort_perm _ _)
  case dead =>
    simp only [← mem_deadStates_iff_isDead]
    exact (listsOnce_toList fun _ => mem_aliasOrder_of_mem_deadStates).perm
      (names_dead_listing h.start_mem)
  case mem_dead =>
    intro n edges
    rw [listing, List.mem_mergeSort, List.mem_map]
    simp only [hwhere]
    refine exists_congr fun i => ?_
    constructor
    · rintro ⟨hdead, heq⟩
      obtain ⟨s, hs, -⟩ := isDead_eq_ok_true_iff.1 hdead
      rw [entry_eq hs, Prod.mk.injEq] at heq
      exact ⟨s, hdead, hs, heq.1.symm, heq.2.symm⟩
    · rintro ⟨s, hdead, hs, rfl, rfl⟩
      exact ⟨hdead, entry_eq hs⟩
  case mem_edges =>
    intro e
    rw [listing, List.mem_flatMap]
    simp only [hwhere]
    refine exists_congr fun i => ?_
    constructor
    · rintro ⟨hlive, he⟩
      have hi : i ∈ d.states := hmem.1 (List.mem_filter.1 (hwhere.2 hlive)).1
      obtain ⟨s, hs⟩ := mem_states_iff.1 hi
      rw [entry_eq hs, List.mem_map] at he
      obtain ⟨⟨x, j⟩, hx, rfl⟩ := he
      exact ⟨s, x, j, hlive, hs, ExtTreeMap.mem_toList_iff_getElem?_eq_some.1 hx, rfl⟩
    · rintro ⟨s, x, j, hlive, hs, hx, rfl⟩
      rw [entry_eq hs, List.mem_map]
      exact ⟨hlive, (x, j), ExtTreeMap.mem_toList_iff_getElem?_eq_some.2 hx, rfl⟩
  case nodup_display =>
    rw [((allEdges_listing d).map _).nodup_iff, List.map_map]
    refine List.Nodup.map display_aliasedEdge_injective ?_
    refine pairwise_precedes_numberedEdges.imp ?_
    rintro e f (hlt | ⟨-, hlt⟩) rfl
    · exact Nat.lt_irrefl _ hlt
    · exact String.lt_irrefl _ hlt

/-- **Printed automata.** Every closed automaton is printed. Its lines list the states, the
accepting states and the dead states by their aliases, each once. Each edge is written once: under
the entry of its source if that is dead, and in the section of edges if not. The summary of the
automaton has the same states, accepting states, dead states and edges. -/
theorem automaton_shows {d : Dfa} (h : d.Closed) : ∃ (l : Listing) (s : Summary)
    (name : StateId → String), automaton d = .ok (Text.ofLines l.lines) ∧ d.summary = .ok s ∧
      (∀ i ∈ d.states, aliasOf d.aliases i = .ok (name i)) ∧ l.Shows d name ∧
      l.start = name d.start ∧ l.alphabet = s.alphabet ∧ l.states = s.states ∧
      l.accepting.Perm s.accepting ∧ (l.dead.map Prod.fst).Perm s.dead ∧
      l.allEdges.Perm s.edges := by
  refine ⟨listing d, _, fun i => aliasName (d.number i), automaton_eq_ok h, h.summary_eq_ok,
    fun i hi => aliasOf_eq_ok (mem_aliasOrder.2 (.inr hi)), shows_listing h, rfl, rfl, rfl,
    (List.mergeSort_perm _ _).trans (List.mergeSort_perm _ _).symm,
    (names_dead_listing h.start_mem).trans (List.mergeSort_perm _ _).symm, allEdges_listing d⟩

/-- An automaton that begins in a dead state. Another dead state has no edges, and the edges into
both of them lead from a state that no word leads to. -/
def stranded : Dfa where
  start := 4
  states := .ofList [
    ((4 : StateId), DfaState.mk false (.ofList [("a", (4 : StateId))])),
    ((-1 : StateId), DfaState.mk true (.ofList [("b", (4 : StateId)), ("\n", (7 : StateId))])),
    ((7 : StateId), DfaState.mk false ∅)]
  alphabet := .ofList ["a", "b", "\n"]

/-- The dead states of an automaton have their own entries, also if they have no edges. -/
theorem automaton_shows_stranded : stranded.Closed ∧ ∃ (l : Listing) (name : StateId → String),
    automaton stranded = .ok (Text.ofLines l.lines) ∧ l.Shows stranded name ∧
    (l.dead.map Prod.fst).Perm ["S0", "S2"] ∧ l.allEdges.Perm [⟨"S0", "a", "S0"⟩,
      ⟨"S1", "\n", "S2"⟩, ⟨"S1", "b", "S0"⟩] := by
  have hsummary : stranded.summary = .ok {
      alphabet := ["\n", "a", "b"], states := ["S0", "S1", "S2"], start := "S0", accepting := ["S1"]
      dead := ["S0", "S2"]
      edges := [⟨"S0", "a", "S0"⟩, ⟨"S1", "\n", "S2"⟩, ⟨"S1", "b", "S0"⟩] } := by
    rw [summary_eq, sortAliases_toList fun _ => mem_aliasOrder_of_mem_acceptingStates,
      sortAliases_toList fun _ => mem_aliasOrder_of_mem_deadStates]
    exact eq_ok_of_toOption (by decide +kernel)
  have hclosed := closed_of_summary hsummary
  obtain ⟨l, s, name, htext, hs, -, hshows, -, -, -, -, hdead, hedges⟩ := automaton_shows hclosed
  obtain rfl := Except.ok.inj (hs.symm.trans hsummary)
  exact ⟨hclosed, l, name, htext, hshows, hdead, hedges⟩

end Report

end PatternMachines
