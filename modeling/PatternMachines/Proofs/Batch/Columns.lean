import PatternMachines.Proofs.Batch.Row
import PatternMachines.Proofs.Batch.Written
import PatternMachines.Proofs.Dfa.Listed
import PatternMachines.Proofs.Turing.Recovered

/-!
# The columns of rows

The row of a text describes the automaton of the text twice: by aliases, in the columns for states,
accepting states and edges, and by the transitions of its machine. Either description determines the
automaton, but for the sets that were recorded for its states.

## Main definitions

* `Batch.Row.Shows`: what a row shows of an automaton.

## Main results

* `Batch.Row.exists_shows`: the row of a text.
* `Batch.Row.Shows.lists_eq`: what the columns for states, accepting states and edges tell.
* `Batch.Row.columns_agree_iff`: the rows that agree in their columns.
-/

namespace PatternMachines

open Std Text PatternMachines.Turing

namespace Pattern

variable {t : LooseText} {d : Dfa}

theorem readsTexts_of_ofNfa (hd : Dfa.ofNfa (ofSymbols (Symbol.ofLooseText t)).toNfa = .ok d) :
    d.ReadsTexts := by
  intro id s x target hs hx
  obtain ⟨n, rfl⟩ := exists_ofCode_of_mem_alphabet hd
    ((Dfa.mem_alphabet_iff_of_ofNfa hd).2 ⟨id, s, target, hs, hx⟩)
  exact ⟨n, rfl⟩

end Pattern

namespace Batch.Row

variable {pattern pattern' : Json} {d d' : Dfa} {s s' : Dfa.Summary} {r r' : Row}

/-- Whether a row describes an automaton with a given summary. -/
structure Shows (r : Row) (pattern : Json) (d : Dfa) (s : Dfa.Summary) : Prop where
  /-- The pattern is given as it is. -/
  pattern_eq : r.pattern = pattern
  /-- The symbols are separated by blanks. -/
  alphabet_eq : r.alphabet = join " " s.alphabet
  /-- The states are separated by blanks. -/
  states_eq : r.states = join " " s.states
  /-- The accepting states are separated by blanks. -/
  accepting_eq : r.accepting = join " " s.accepting
  /-- The edges are separated by bars. -/
  edges_eq : r.edges = join " | " (s.edges.map Dfa.AliasedEdge.display)
  /-- The transitions are separated by bars. -/
  transitions_eq : r.transitions =
    join " | " ((Machine.ofDfa d).transitions.map Transition.display)
  /-- Automaton and machine are compared. -/
  agreement_mem : r.agreement ∈ ["si", "no"]
  /-- There is no error. -/
  error_eq : r.error = ""

/-- The row of an automaton describes it. -/
theorem shows_of_ofDfa (hs : d.summary = .ok s) (hr : ofDfa pattern d = .ok r) :
    r.Shows pattern d s := by
  rw [ofDfa, hs] at hr
  dsimp only [Except.mapError, bind, Except.bind] at hr
  split at hr
  · cases hr
  · split at hr
    · cases hr
    · cases hr
      refine ⟨rfl, rfl, rfl, rfl, rfl, rfl, ?_, rfl⟩
      dsimp only
      split <;> decide

/-- The row of a text describes the automaton of the text. -/
theorem exists_shows (line : Int) (t : LooseText) : ∃ d s,
    Dfa.ofNfa (Pattern.ofSymbols (Symbol.ofLooseText t)).toNfa = .ok d ∧ d.summary = .ok s ∧
      s.Describes d d.number ∧ (ofJson line (.text t)).Shows (.text t) d s := by
  obtain ⟨d, hd⟩ := Pattern.exists_ofNfa_toNfa (Pattern.ofSymbols (Symbol.ofLooseText t))
  have hclosed := (Dfa.determinizes_of_ofNfa hd).closed
  obtain ⟨s, hs, hdescribes⟩ := hclosed.exists_summary
  obtain ⟨row, hrow⟩ := exists_ofDfa_of_text hd
  have hofJson := ofJson_eq_of_ofDfa line hd hrow
  exact ⟨d, s, hd, hs, hdescribes, hofJson ▸ shows_of_ofDfa hs hrow⟩

/-- The columns for states, accepting states and edges tell what the summary lists. -/
theorem Shows.lists_eq (h : r.Shows pattern d s) (h' : r'.Shows pattern' d' s')
    (hs : s.Describes d d.number) (hs' : s'.Describes d' d'.number) (hd : d.ReadsTexts)
    (hd' : d'.ReadsTexts) (hstates : r.states = r'.states) (haccepting : r.accepting = r'.accepting)
    (hedges : r.edges = r'.edges) :
    s.states = s'.states ∧ s.accepting = s'.accepting ∧ s.edges = s'.edges := by
  obtain ⟨ks, -, -, hks⟩ := hs.accepting
  obtain ⟨ls, -, -, hls⟩ := hs'.accepting
  obtain ⟨es, -, hes, hees⟩ := hs.edges
  obtain ⟨fs, -, hfs, hffs⟩ := hs'.edges
  rw [h.states_eq, h'.states_eq, hs.states_eq, hs'.states_eq] at hstates
  rw [h.accepting_eq, h'.accepting_eq, hks, hls] at haccepting
  rw [h.edges_eq, h'.edges_eq, hees, hffs, List.map_map, List.map_map] at hedges
  rw [hs.states_eq, hs'.states_eq, hks, hls, hees, hffs]
  refine ⟨congrArg _ (Dfa.eq_of_join_aliasName_eq hstates),
    congrArg _ (Dfa.eq_of_join_aliasName_eq haccepting),
    congrArg _ (Dfa.eq_of_join_aliasedEdge_eq (fun ⟨k, x, l⟩ he => ?_) (fun ⟨k, x, l⟩ he => ?_)
      hedges)⟩
  · obtain ⟨i, st, j, hst, hx, -⟩ := (hes k x l).1 he
    exact hd i st x j hst hx
  · obtain ⟨i, st, j, hst, hx, -⟩ := (hfs k x l).1 he
    exact hd' i st x j hst hx

/-- **Columns tell the automaton.** Two texts, in whatever lines, have rows with the same columns
for states, accepting states and edges just if their automata have the same start and the same
states, with the same flags and edges. The column for transitions alone tells as much. Such automata
have the same alphabet and give every word the same verdict. -/
theorem columns_agree_iff (line line' : Int) (t t' : LooseText) : ∃ d d',
    Dfa.ofNfa (Pattern.ofSymbols (Symbol.ofLooseText t)).toNfa = .ok d ∧
    Dfa.ofNfa (Pattern.ofSymbols (Symbol.ofLooseText t')).toNfa = .ok d' ∧
    ((ofJson line (.text t)).states = (ofJson line' (.text t')).states ∧
        (ofJson line (.text t)).accepting = (ofJson line' (.text t')).accepting ∧
        (ofJson line (.text t)).edges = (ofJson line' (.text t')).edges ↔
      d.start = d'.start ∧ d.states = d'.states) ∧
    ((ofJson line (.text t)).transitions = (ofJson line' (.text t')).transitions ↔
      d.start = d'.start ∧ d.states = d'.states) ∧
    (d.start = d'.start ∧ d.states = d'.states →
      d.alphabet = d'.alphabet ∧ ∀ word, d.accepts word = d'.accepts word) := by
  obtain ⟨d, s, hd, hs, hdescribes, hshows⟩ := exists_shows line t
  obtain ⟨d', s', hd', hs', hdescribes', hshows'⟩ := exists_shows line' t'
  have hclosed := (Dfa.determinizes_of_ofNfa hd).closed
  have hclosed' := (Dfa.determinizes_of_ofNfa hd').closed
  have hcanonical := Dfa.canonical_of_ofNfa hd
  have hcanonical' := Dfa.canonical_of_ofNfa hd'
  have htexts := Pattern.readsTexts_of_ofNfa hd
  have htexts' := Pattern.readsTexts_of_ofNfa hd'
  have hstart : d.start = d'.start := by rw [hcanonical.start_eq, hcanonical'.start_eq]
  refine ⟨d, d', hd, hd', ⟨?lists, ?listed⟩, ⟨?transitions, ?taken⟩, ?verdicts⟩
  case lists =>
    rintro ⟨hstates, haccepting, hedges⟩
    obtain ⟨hstates, haccepting, hedges⟩ :=
      hshows.lists_eq hshows' hdescribes hdescribes' htexts htexts' hstates haccepting hedges
    exact ⟨hstart, hcanonical.states_eq_of_summaries hcanonical' hclosed hclosed' hdescribes
      hdescribes' hstates haccepting hedges⟩
  case listed =>
    rintro ⟨-, hstates⟩
    obtain ⟨hnames, haccepting, hedges⟩ := Dfa.summary_congr hstart hstates hs hs'
    rw [hshows.states_eq, hshows'.states_eq, hnames, hshows.accepting_eq, hshows'.accepting_eq,
      haccepting, hshows.edges_eq, hshows'.edges_eq, hedges]
    exact ⟨rfl, rfl, rfl⟩
  case transitions =>
    intro heq
    rw [hshows.transitions_eq, hshows'.transitions_eq] at heq
    have htransitions := Turing.eq_of_join_display_eq (Machine.legible_ofDfa htexts)
      (Machine.legible_ofDfa htexts') heq
    refine ⟨hstart, ?_⟩
    rw [← Machine.statesOf_ofDfa (Pattern.endMarker_edge_eq_none hd), htransitions,
      Machine.statesOf_ofDfa (Pattern.endMarker_edge_eq_none hd')]
  case taken =>
    rintro ⟨-, hstates⟩
    rw [hshows.transitions_eq, hshows'.transitions_eq, Machine.ofDfa, Machine.ofDfa, hstates]
  case verdicts =>
    rintro ⟨-, hstates⟩
    refine ⟨ExtTreeSet.ext_mem fun x => ?_, hclosed.accepts_congr hstart hstates⟩
    rw [Dfa.mem_alphabet_iff_of_ofNfa hd, Dfa.mem_alphabet_iff_of_ofNfa hd', hstates]

end Batch.Row

end PatternMachines
