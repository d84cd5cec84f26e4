import PatternMachines.Proofs.Turing.Jflap.Reader
import PatternMachines.Proofs.Turing.OfDfa

/-!
# JFLAP documents are faithful

The document of the machine of an automaton can be read back. The machine that is put together from
what the document says, with the blank, the end marker and the rejecting state supplied, runs as the
machine that was exported.

## Main definitions

* `Turing.Jflap.Document.Describes`: whether a document describes a machine.

## Main results

* `Turing.Machine.run_alphabets`: runs do not depend on the alphabets.
* `Turing.Jflap.Document.Describes.machine_eq`: the machine that a document describes.
* `Turing.Machine.portable_ofDfa`, `Turing.Machine.jflap_faithful`: the machine of an automaton.
-/

namespace PatternMachines.Turing

open Std

/-! ### Machines that differ in their alphabets -/

namespace Machine

variable (m : Machine)

/-- No round looks at the alphabets. -/
theorem runFrom_alphabets (symbols cells : ExtTreeSet Symbol) (taken left : Nat)
    (c : Configuration) :
    { m with inputAlphabet := symbols, tapeAlphabet := cells }.runFrom taken left c =
      m.runFrom taken left c := by
  induction left generalizing taken c with
  | zero => rfl
  | succ left ih =>
    simp only [runFrom, ih]
    rfl

theorem run_alphabets (symbols cells : ExtTreeSet Symbol) (input : String) :
    { m with inputAlphabet := symbols, tapeAlphabet := cells }.run input = m.run input := by
  rw [run, run, runFrom_alphabets]
  rfl

end Machine

namespace Jflap

/-- Whether a document describes a machine. -/
structure Document.Describes (doc : Document) (m : Machine) : Prop where
  /-- The states are numbered from `0` without gaps. -/
  numbers : doc.states.map (·.number) = List.range m.states.size
  /-- No state stands in the document twice. -/
  nodup_names : (doc.states.map (·.name)).Nodup
  /-- The states are those of the machine. -/
  mem_names : ∀ name, name ∈ doc.states.map (·.name) ↔ name ∈ m.states
  /-- Runs begin in exactly one state, which has the number `0`. -/
  initial : ∃ e, doc.states.filter (·.initial) = [e] ∧ e.number = 0 ∧ m.start = some e.name
  /-- The accepting states are those of the machine. -/
  final_iff : ∀ e ∈ doc.states, e.final = true ↔ e.name ∈ m.accepting
  /-- The transitions are those of the machine, in their order. -/
  transitions_eq : doc.transitions = m.transitions

variable {m : Machine} {start : String} {doc : Document}

theorem map_name_document : (document m start).states.map (·.name) = stateOrder m start := by
  rw [document, List.map_map]
  exact List.zipIdx_map_fst 0 (stateOrder m start)

theorem filter_initial_document :
    (document m start).states.filter (·.initial) = [stateElement m start (start, 0)] := by
  have hrest : (((m.states.toList.filter (· != start)).zipIdx 1).map
      (stateElement m start)).filter (·.initial) = [] := by
    rw [List.filter_eq_nil_iff]
    intro e he hinitial
    obtain ⟨s, hs, rfl⟩ := List.mem_map.1 he
    have hname := List.mem_map_of_mem (f := Prod.fst) hs
    rw [List.zipIdx_map_fst, List.mem_filter, bne_iff_ne] at hname
    exact hname.2 (beq_iff_eq.1 hinitial)
  rw [document, stateOrder, List.zipIdx_cons, List.map_cons, List.filter_cons_of_pos, hrest]
  exact beq_self_eq_true start

/-- The document of a portable machine describes it. -/
theorem Portable.describes_document (h : Portable m start) : (document m start).Describes m where
  numbers := by
    rw [document, List.map_map, ← length_stateOrder h.start_mem, List.range_eq_range',
      ← List.zipIdx_map_snd 0 (stateOrder m start)]
    rfl
  nodup_names := by
    rw [map_name_document]
    exact nodup_stateOrder
  mem_names name := by rw [map_name_document, mem_stateOrder h.start_mem]
  initial := ⟨_, filter_initial_document, rfl, h.start_eq⟩
  final_iff e he := by
    obtain ⟨s, -, rfl⟩ := List.mem_map.1 he
    exact ExtTreeSet.contains_iff_mem
  transitions_eq := rfl

/-- Where a machine accepts in one state only, the document shows this state only as final. -/
theorem Document.Describes.exists_filter_final (h : doc.Describes m) {accept : String}
    (hmem : accept ∈ m.states) (haccept : ∀ name, name ∈ m.accepting ↔ name = accept) :
    ∃ e, doc.states.filter (·.final) = [e] ∧ e.name = accept := by
  obtain ⟨e, he, rfl⟩ := List.mem_map.1 ((h.mem_names accept).2 hmem)
  refine ⟨e, List.perm_singleton.1 ?_, rfl⟩
  rw [List.perm_ext_iff_of_nodup (h.nodup_names.of_map.filter _) (List.nodup_singleton e)]
  intro e'
  rw [List.mem_filter, List.mem_singleton]
  constructor
  · rintro ⟨he', hfinal⟩
    have hname := (haccept e'.name).1 ((h.final_iff e' he').1 hfinal)
    exact List.inj_on_of_nodup_map h.nodup_names he' he hname
  · rintro rfl
    exact ⟨he, (h.final_iff e' he).2 ((haccept e'.name).2 rfl)⟩

/-- The machine that is put together from a document differs from the one that the document
describes in its alphabets only. -/
theorem Document.Describes.machine_eq (h : doc.Describes m)
    (haccepting : ∀ name ∈ m.accepting, name ∈ m.states) :
    doc.machine m.blank m.endMarker m.reject =
      { m with inputAlphabet := ∅, tapeAlphabet := ∅ } := by
  have hstates : ExtTreeSet.ofList (doc.states.map (·.name)) = m.states := by
    ext name
    rw [ExtTreeSet.mem_ofList, List.contains_iff_mem, h.mem_names]
  have hstart : (doc.states.find? (·.initial)).map (·.name) = m.start := by
    obtain ⟨e, he, -, hname⟩ := h.initial
    rw [← List.head?_filter, he, hname]
    rfl
  have hfinal : ExtTreeSet.ofList ((doc.states.filter (·.final)).map (·.name)) = m.accepting := by
    ext name
    rw [ExtTreeSet.mem_ofList, List.contains_iff_mem, List.mem_map]
    constructor
    · rintro ⟨e, he, rfl⟩
      exact (h.final_iff e (List.mem_filter.1 he).1).1 (List.mem_filter.1 he).2
    · intro hname
      obtain ⟨e, he, rfl⟩ := List.mem_map.1 ((h.mem_names name).2 (haccepting name hname))
      exact ⟨e, List.mem_filter.2 ⟨he, (h.final_iff e he).2 hname⟩, rfl⟩
  rw [machine, hstates, hstart, hfinal, h.transitions_eq]

end Jflap

/-! ### The machine of an automaton -/

namespace Machine

open Jflap

variable {d : Dfa}

theorem mem_states_ofDfa_iff {name : String} : name ∈ (ofDfa d).states ↔
    (∃ id ∈ d.states, stateName id = name) ∨ name = acceptState ∨ name = rejectState := by
  rw [ofDfa, ExtTreeSet.mem_ofList, List.contains_iff_mem, List.mem_append, List.mem_map,
    List.mem_cons, List.mem_singleton]
  simp only [ExtTreeMap.mem_keys]

theorem mem_accepting_ofDfa_iff {name : String} :
    name ∈ (ofDfa d).accepting ↔ name = acceptState := by
  rw [ofDfa, ExtTreeSet.mem_ofList, List.contains_iff_mem, List.mem_singleton]

/-- The machine of a closed automaton is portable if no edge reads the empty symbol. -/
theorem portable_ofDfa (hd : d.Closed)
    (hsymbols : ∀ (id : StateId) (s : DfaState) (x : Symbol) (target : StateId),
      d.states[id]? = some s → s.edges[x]? = some target → x ≠ "") :
    Portable (ofDfa d) (stateName d.start) where
  start_eq := rfl
  start_mem := mem_states_ofDfa_iff.2 (.inl ⟨d.start, hd.start_mem, rfl⟩)
  accepting_mem name hname := mem_states_ofDfa_iff.2 (.inr (.inl (mem_accepting_ofDfa_iff.1 hname)))
  states_mem t ht := by
    obtain ⟨id, s, hs, ⟨x, target, hx, rfl⟩ | rfl⟩ := mem_transitions_ofDfa_iff.1 ht
    · exact ⟨mem_states_ofDfa_iff.2 (.inl ⟨id, Dfa.mem_states_iff.2 ⟨s, hs⟩, rfl⟩),
        mem_states_ofDfa_iff.2 (.inl ⟨target, hd.target_mem id s x target hs hx, rfl⟩)⟩
    · refine ⟨mem_states_ofDfa_iff.2 (.inl ⟨id, Dfa.mem_states_iff.2 ⟨s, hs⟩, rfl⟩),
        mem_states_ofDfa_iff.2 (.inr ?_)⟩
      cases s.accepting
      · exact .inr rfl
      · exact .inl rfl
  quote_not_mem name hname := by
    rcases mem_states_ofDfa_iff.1 hname with ⟨id, -, rfl⟩ | rfl | rfl
    · intro hquote
      rw [stateName, String.toList_append, List.mem_append] at hquote
      rcases hquote with h | h
      · simp at h
      · rcases isDigit_of_mem_toString h with h | h <;> simp at h
    · decide
    · decide
  symbols_ne t ht := by
    obtain ⟨id, s, hs, ⟨x, target, hx, rfl⟩ | rfl⟩ := mem_transitions_ofDfa_iff.1 ht
    · exact ⟨hsymbols id s x target hs hx, hsymbols id s x target hs hx⟩
    · have hne : Symbol.endMarker ≠ "" := by decide
      exact ⟨hne, hne⟩
  escape_move t ht := by
    have hmove : escape moveRight = moveRight := by decide
    obtain ⟨id, s, hs, ⟨x, target, hx, rfl⟩ | rfl⟩ := mem_transitions_ofDfa_iff.1 ht <;> exact hmove

/-- **The document of the machine of an automaton describes the machine.** For every closed
automaton without the empty symbol the document exists, the reader can read it, its states are those
of the machine with numbers from `0`, one initial and one final state, its transitions are those of
the machine, and the machine that it describes has the same run on every input. -/
theorem jflap_faithful (hd : d.Closed)
    (hsymbols : ∀ (id : StateId) (s : DfaState) (x : Symbol) (target : StateId),
      d.states[id]? = some s → s.edges[x]? = some target → x ≠ "") :
    ∃ text doc, (ofDfa d).toJflap = .ok text ∧ Document.read? Symbol.blank text = some doc ∧
      doc.Describes (ofDfa d) ∧
      (∃ e, doc.states.filter (·.final) = [e] ∧ e.name = acceptState) ∧
      ∀ input, (doc.machine Symbol.blank (some Symbol.endMarker) (some rejectState)).run input =
        (ofDfa d).run input := by
  have hportable := portable_ofDfa hd hsymbols
  obtain ⟨text, htext, hread⟩ := hportable.exists_read?_eq_some
  have hdescribes := hportable.describes_document
  refine ⟨text, _, htext, hread, hdescribes, ?final, fun input => ?run⟩
  case final =>
    have haccept : acceptState ∈ (ofDfa d).states := mem_states_ofDfa_iff.2 (.inr (.inl rfl))
    exact hdescribes.exists_filter_final haccept fun name => mem_accepting_ofDfa_iff
  case run =>
    have hmachine := hdescribes.machine_eq hportable.accepting_mem
    exact (congrArg (Machine.run · input) hmachine).trans (run_alphabets (ofDfa d) ∅ ∅ input)

/-- An automaton that reads characters which the format reserves, a line end and the blank. Its
states are not in the order of their names. -/
def reserved : Dfa where
  start := 2
  states := .ofList [
    ((2 : StateId), DfaState.mk false (.ofList [("&", (2 : StateId)), ("<", (10 : StateId))])),
    ((10 : StateId), DfaState.mk true (.ofList [("\n", (2 : StateId)), ("_", (10 : StateId))]))]

theorem edge_reserved {id : StateId} {s : DfaState} {x : Symbol} {target : StateId}
    (hs : reserved.states[id]? = some s) (hx : s.edges[x]? = some target) :
    x ≠ "" ∧ target ∈ reserved.states := by
  have hstate := (getElem?_ofList_eq_some_iff (by decide)).1 hs
  simp only [List.mem_cons, Prod.mk.injEq, List.not_mem_nil, or_false] at hstate
  rcases hstate with ⟨rfl, rfl⟩ | ⟨rfl, rfl⟩ <;>
  · have hedge := (getElem?_ofList_eq_some_iff (by decide)).1 hx
    simp only [List.mem_cons, Prod.mk.injEq, List.not_mem_nil, or_false] at hedge
    rcases hedge with ⟨rfl, rfl⟩ | ⟨rfl, rfl⟩ <;> simp [reserved, ExtTreeMap.mem_ofList]

theorem closed_reserved : reserved.Closed where
  start_mem := by simp [reserved, ExtTreeMap.mem_ofList]
  target_mem _ _ _ _ hs hx := (edge_reserved hs hx).2

/-- The document of an automaton with reserved characters can be read back. -/
theorem jflap_reserved : reserved.Closed ∧
    (∀ (id : StateId) (s : DfaState) (x : Symbol) (target : StateId),
      reserved.states[id]? = some s → s.edges[x]? = some target → x ≠ "") ∧
    ∃ text doc, (ofDfa reserved).toJflap = .ok text ∧
      Document.read? Symbol.blank text = some doc ∧
      doc.states.map (·.number) = [0, 1, 2, 3] ∧
      doc.transitions.map (·.read) = ["&", "<", "#", "\n", "_", "#"] ∧
      (doc.machine Symbol.blank (some Symbol.endMarker) (some rejectState)).accepts "&<_\n<" := by
  have hsymbols (id : StateId) (s : DfaState) (x : Symbol) (target : StateId)
      (hs : reserved.states[id]? = some s) (hx : s.edges[x]? = some target) : x ≠ "" :=
    (edge_reserved hs hx).1
  obtain ⟨text, doc, htext, hread, hdescribes, -, hrun⟩ := jflap_faithful closed_reserved hsymbols
  refine ⟨closed_reserved, hsymbols, text, doc, htext, hread, ?_, ?_, ?_⟩
  · rw [hdescribes.numbers]
    decide
  · rw [hdescribes.transitions_eq]
    decide
  · rw [accepts, hrun]
    decide

end Machine

end PatternMachines.Turing
