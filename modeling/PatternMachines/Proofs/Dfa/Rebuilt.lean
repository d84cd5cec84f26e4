import PatternMachines.Proofs.Dfa.Summary

/-!
# Automata from their summaries

The document of a summary is read back, and the automaton is rebuilt from it with the numbers of the
aliases as ids. The rebuilt automaton is the old one under other names, so it gives every word the
same verdict.

## Main definitions

* `Dfa.Summary.ofJson?`: the summary that a document shows.
* `Dfa.ofSummary`, `Dfa.ofDocument?`: the automaton that a summary or its document describes.
* `Dfa.Renames`: an automaton under other names.

## Main results

* `Dfa.Renames.accepts_eq`: other names do not change the verdict.
* `Dfa.Summary.Describes.renames`: the rebuilt automaton.
* `Dfa.summary_faithful`: summaries lose nothing.
-/

namespace PatternMachines

open Std

namespace Json

/-- The text of a value that is a text of characters. -/
def text? : Json → Option String
  | .text (.proper s) => some s
  | _ => none

/-- The items of a value that is a list. -/
def items? : Json → Option (List Json)
  | .array items => some items
  | _ => none

/-- The texts of a value that is a list of texts. -/
def texts? (v : Json) : Option (List String) := do (← v.items?).mapM text?

theorem mapM_map_eq_some {α : Type} {read : Json → Option α} (write : α → Json)
    (h : ∀ x, read (write x) = some x) (xs : List α) : (xs.map write).mapM read = some xs := by
  have hread : xs.mapM (fun x => read (write x)) = pure (xs.map id) := mapM_eq_pure fun x _ => h x
  rw [List.mapM_map, Function.comp_def, hread, List.map_id]
  rfl

theorem texts?_texts (ss : List String) : (texts ss).texts? = some ss :=
  mapM_map_eq_some ofText (fun _ => rfl) ss

end Json

namespace Dfa

/-! ### Reading summaries -/

namespace Summary

/-- The edge that a document shows. -/
def edgeOfJson? (v : Json) : Option AliasedEdge := do
  return {
    source := ← (← v.member? "from").text?
    symbol := ← (← v.member? "symbol").text?
    target := ← (← v.member? "to").text? }

/-- The summary that a document shows. -/
def ofJson? (v : Json) : Option Summary := do
  return {
    alphabet := ← (← v.member? "alphabet").texts?
    states := ← (← v.member? "states").texts?
    start := ← (← v.member? "start").text?
    accepting := ← (← v.member? "accepting").texts?
    dead := ← (← v.member? "dead_states").texts?
    edges := ← (← (← v.member? "transitions").items?).mapM edgeOfJson? }

/-- The document of a summary shows the summary. -/
theorem ofJson?_toJson (s : Summary) : ofJson? s.toJson = some s := by
  have halphabet : s.toJson.member? "alphabet" = some (.texts s.alphabet) := rfl
  have hstates : s.toJson.member? "states" = some (.texts s.states) := rfl
  have hstart : s.toJson.member? "start" = some (.text s.start) := rfl
  have haccepting : s.toJson.member? "accepting" = some (.texts s.accepting) := rfl
  have hdead : s.toJson.member? "dead_states" = some (.texts s.dead) := rfl
  have htransitions : s.toJson.member? "transitions" =
      some (.array (s.edges.map (edgeJson Json.ofText))) := rfl
  have hedges : (s.edges.map (edgeJson Json.ofText)).mapM edgeOfJson? = some s.edges :=
    Json.mapM_map_eq_some (edgeJson Json.ofText) (fun _ => rfl) s.edges
  simp only [ofJson?, halphabet, hstates, hstart, haccepting, hdead, htransitions,
    Json.texts?_texts, Json.text?, Json.items?, hedges, Option.bind_eq_bind, Option.bind_some]
  rfl

end Summary

/-! ### Other names -/

/-- Whether the states of `d` are states of `d'` under other names, and their edges too. -/
structure Renames (name : StateId → StateId) (d d' : Dfa) : Prop where
  /-- The start is the start. -/
  start_eq : d'.start = name d.start
  /-- A state accepts if it does under its other name, and has the same edges. -/
  exists_state : ∀ (i : StateId) (s : DfaState), d.states[i]? = some s →
    ∃ s', d'.states[name i]? = some s' ∧ s'.accepting = s.accepting ∧
      ∀ x : Symbol, s'.edges[x]? = s.edges[x]?.map name

namespace Renames

variable {d d' : Dfa} {name : StateId → StateId} (h : d.Renames name d')

include h

theorem acceptsFrom_eq (hclosed : d.Closed) {i : StateId} {s s' : DfaState}
    (hs : d.states[i]? = some s) (hs' : d'.states[name i]? = some s') (word : List Symbol) :
    d'.acceptsFrom s' word = d.acceptsFrom s word := by
  obtain ⟨t, ht, haccepting, hedges⟩ := h.exists_state i s hs
  obtain rfl : s' = t := Option.some_inj.1 (hs'.symm.trans ht)
  induction word generalizing i s s' with
  | nil => rw [acceptsFrom, acceptsFrom, haccepting]
  | cons a word ih =>
    rw [acceptsFrom, acceptsFrom, hedges]
    cases ha : s.edges[a]? with
    | none => rfl
    | some j =>
      obtain ⟨t, ht⟩ := mem_states_iff.1 (hclosed.target_mem i s a j hs ha)
      obtain ⟨t', ht', haccepting', hedges'⟩ := h.exists_state j t ht
      simp only [Option.map_some, state_eq_ok ht, state_eq_ok ht']
      exact ih ht ht' ht' haccepting' hedges'

/-- Other names do not change the verdict. -/
theorem accepts_eq (hclosed : d.Closed) (word : List Symbol) :
    d'.accepts word = d.accepts word := by
  obtain ⟨s, hs⟩ := mem_states_iff.1 hclosed.start_mem
  obtain ⟨s', hs', -⟩ := h.exists_state d.start s hs
  rw [accepts, accepts, h.start_eq, state_eq_ok hs, state_eq_ok hs']
  exact h.acceptsFrom_eq hclosed hs hs' word

end Renames

/-! ### Rebuilding automata -/

/-- The state of an alias in a summary, by its place in the list of states. -/
def Summary.placeOf (s : Summary) (name : String) : StateId := (s.states.idxOf name : Nat)

/-- The state that a summary shows under an alias. -/
def Summary.stateOf (s : Summary) (name : String) : DfaState where
  accepting := s.accepting.contains name
  edges := .ofList ((s.edges.filter (·.source == name)).map fun e => (e.symbol, s.placeOf e.target))

/-- The automaton that a summary describes. -/
def ofSummary (s : Summary) : Dfa where
  start := s.placeOf s.start
  states := .ofList (s.states.zipIdx.map fun (name, i) => ((i : StateId), s.stateOf name))
  alphabet := .ofList s.alphabet

/-- The automaton that the document of a summary describes. -/
def ofDocument? (v : Json) : Option Dfa := (Summary.ofJson? v).map ofSummary

namespace Summary.Describes

variable {d : Dfa} {s : Summary} {number : StateId → Nat} (h : s.Describes d number)
  {i j : StateId} {k : Nat} {x : Symbol}

include h

theorem placeOf_aliasName (hk : k < d.states.size) : s.placeOf (aliasName k) = k := by
  have hnodup : s.states.Nodup := by
    rw [h.states_eq]
    exact List.nodup_range.map aliasName_injective
  have hlength : k < s.states.length := by rwa [h.states_eq, List.length_map, List.length_range]
  have hget : s.states[k] = aliasName k := by simp [h.states_eq]
  rw [placeOf, ← hget, hnodup.idxOf_getElem k hlength]

theorem number_lt (hi : i ∈ d.states) : number i < d.states.size := h.bijOn.mapsTo hi

theorem getElem?_states_ofSummary (hi : i ∈ d.states) :
    (ofSummary s).states[(number i : StateId)]? = some (s.stateOf (aliasName (number i))) := by
  have hkeys : ((s.states.zipIdx.map fun (name, i) => ((i : StateId), s.stateOf name)).map
      Prod.fst).Nodup := by
    have hmap : (s.states.zipIdx.map fun (name, i) => ((i : StateId), s.stateOf name)).map
        Prod.fst = (s.states.zipIdx.map Prod.snd).map Int.ofNat := by
      rw [List.map_map, List.map_map]
      rfl
    rw [hmap, List.zipIdx_map_snd]
    exact List.Nodup.map (fun _ _ => Int.ofNat.inj) List.nodup_range'
  refine (getElem?_ofList_eq_some_iff hkeys).2 (List.mem_map.2 ⟨(aliasName (number i), number i),
    List.mem_zipIdx_iff_getElem?.2 ?_, rfl⟩)
  simp [h.states_eq, h.number_lt hi]

theorem accepting_stateOf (hi : i ∈ d.states) :
    (s.stateOf (aliasName (number i))).accepting = d.acceptsAt i := by
  rw [Bool.eq_iff_iff, stateOf, List.contains_iff_mem, h.accepting.mem_iff]
  constructor
  · rintro ⟨j, hj, heq⟩
    obtain ⟨t, ht, -⟩ := (Option.any_eq_true _ _).1 hj
    obtain rfl := h.bijOn.injOn (mem_states_iff.2 ⟨t, ht⟩) hi heq
    exact hj
  · exact fun haccepts => ⟨i, haccepts, rfl⟩

/-- The edges of a state have different symbols. -/
theorem nodup_symbols (name : String) :
    (((s.edges.filter (·.source == name)).map fun e => (e.symbol, s.placeOf e.target)).map
      Prod.fst).Nodup := by
  obtain ⟨es, hsorted, -, hedges⟩ := h.edges
  rw [List.map_map, hedges, List.Nodup, List.pairwise_map, List.pairwise_filter, List.pairwise_map]
  refine hsorted.imp fun {e f} hlt he hf heq => ?_
  have hsource : e.1 = f.1 := aliasName_injective ((beq_iff_eq.1 he).trans (beq_iff_eq.1 hf).symm)
  rcases hlt with hlt | ⟨-, hlt⟩
  · exact Nat.ne_of_lt hlt hsource
  · have hsymbol : e.2.1 = f.2.1 := heq
    rw [hsymbol] at hlt
    exact String.lt_irrefl _ hlt

theorem getElem?_edges_stateOf (hclosed : d.Closed) {st : DfaState}
    (hs : d.states[i]? = some st) : (s.stateOf (aliasName (number i))).edges[x]? =
      st.edges[x]?.map fun j => (number j : StateId) := by
  have hplace {j : StateId} {y : Symbol} {st : DfaState} {i : StateId}
      (hs : d.states[i]? = some st) (hj : st.edges[y]? = some j) :
      s.placeOf (aliasName (number j)) = number j :=
    h.placeOf_aliasName (h.number_lt (hclosed.target_mem i st y j hs hj))
  obtain ⟨es, -, hmem, hedges⟩ := h.edges
  refine Option.ext fun p => ?_
  rw [stateOf, getElem?_ofList_eq_some_iff (h.nodup_symbols _), Option.map_eq_some_iff, hedges,
    List.mem_map]
  simp only [List.mem_filter, List.mem_map, beq_iff_eq]
  constructor
  · rintro ⟨_, ⟨⟨⟨k, y, l⟩, he, rfl⟩, hsource⟩, heq⟩
    obtain ⟨i', st', j, hs', hj, rfl, rfl⟩ := (hmem k y l).1 he
    obtain rfl : i' = i := h.bijOn.injOn (mem_states_iff.2 ⟨st', hs'⟩) (mem_states_iff.2 ⟨st, hs⟩)
      (aliasName_injective hsource)
    obtain rfl : st' = st := Option.some_inj.1 (hs'.symm.trans hs)
    cases heq
    exact ⟨j, hj, (hplace hs hj).symm⟩
  · rintro ⟨j, hj, rfl⟩
    refine ⟨aliasedEdge (number i, x, number j), ⟨⟨_, ?_, rfl⟩, rfl⟩, ?_⟩
    · exact (hmem _ _ _).2 ⟨i, st, j, hs, hj, rfl, rfl⟩
    · exact congrArg (Prod.mk x) (hplace hs hj)

/-- The automaton that is rebuilt from a summary is the old one under other names. -/
theorem renames (hclosed : d.Closed) :
    d.Renames (fun i => (number i : StateId)) (ofSummary s) where
  start_eq := by
    rw [ofSummary, h.start_eq, h.number_start, h.placeOf_aliasName]
    exact h.number_start ▸ h.number_lt hclosed.start_mem
  exists_state i st hs := by
    have hi : i ∈ d.states := mem_states_iff.2 ⟨st, hs⟩
    refine ⟨_, h.getElem?_states_ofSummary hi, ?_, fun x =>
      h.getElem?_edges_stateOf hclosed hs⟩
    rw [h.accepting_stateOf hi, acceptsAt, hs, Option.any_some]

end Summary.Describes

/-- **Summaries lose nothing.** Just the automata that are not closed have no summary, and the error
names an id that is no state. Otherwise the aliases number the states without gaps, from the start
and then in ascending order. The summary lists the states, the accepting ones and the dead ones by
these numbers, and each edge once, by the number of its source and its symbol. The automaton that
is rebuilt from the document of the summary gives every word the same verdict. -/
theorem summary_faithful (d : Dfa) :
    (∃ e, d.summary = .error e ∧ e.id ∉ d.states ∧ ¬d.Closed) ∨
      ∃ s number d', d.summary = .ok s ∧ d.Closed ∧ s.Describes d number ∧
        Summary.ofJson? s.toJson = some s ∧ ofDocument? s.toJson = some d' ∧
        d'.alphabet = d.alphabet ∧ ∀ word, d'.accepts word = d.accepts word := by
  cases hsummary : d.summary with
  | error e =>
    have hclosed : ¬d.Closed := exists_summary_eq_error_iff.1 ⟨e, hsummary⟩
    exact .inl ⟨e, rfl, not_mem_states_of_summary hsummary, hclosed⟩
  | ok s =>
    have hclosed : d.Closed := closed_of_summary hsummary
    obtain ⟨s', hs', hdescribes⟩ := hclosed.exists_summary
    obtain rfl : s = s' := Except.ok.inj (hsummary.symm.trans hs')
    refine .inr ⟨s, d.number, ofSummary s, rfl, hclosed, hdescribes, s.ofJson?_toJson, ?_, ?_,
      (hdescribes.renames hclosed).accepts_eq hclosed⟩
    · rw [ofDocument?, s.ofJson?_toJson, Option.map_some]
    · refine ExtTreeSet.ext_mem fun x => ?_
      rw [ofSummary, hdescribes.alphabet_eq, ExtTreeSet.mem_ofList, List.contains_iff_mem,
        ExtTreeSet.mem_toList]

end Dfa

end PatternMachines
