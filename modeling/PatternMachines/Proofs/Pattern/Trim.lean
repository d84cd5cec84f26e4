import PatternMachines.Proofs.Arena.Trim
import PatternMachines.Proofs.Dfa.Trim
import PatternMachines.Proofs.Pattern.Automaton
import PatternMachines.Proofs.Symbol

/-!
# The automata of patterns are trim

The fragment of a pattern is trim, part by part. So no state of its deterministic automaton is dead,
some word is accepted, and the alphabet holds just the symbols that occur in accepted words.

## Main results

* `Arena.Trim.of_ofNfa`, `Arena.Trim.alphabet_eq`: determinizing the automaton of a trim fragment.
* `Pattern.grows_build`, `Pattern.trim_build`: building the fragment of a pattern.
* `Pattern.trim_of_text`: the automaton of a text.
-/

namespace PatternMachines

open Std

namespace Arena

variable {a : Arena} {f : Fragment} {d : Dfa}

/-- Determinizing the automaton of a trim fragment gives a trim automaton. -/
theorem Trim.of_ofNfa (h : a.Trim f) (hf : a.Isolated f)
    (hd : Dfa.ofNfa (a.toNfa f) = .ok d) : d.Trim := by
  refine (Dfa.determinizes_of_ofNfa hd).trim fun u q hu hpath => ?_
  have hq : q ∈ f.members := Path.mem_of_closed (S := {p | p ∈ f.members}) hf.closed
    ((hf.path_toNfa_iff hf.start_mem).1 hpath) hf.start_mem
  obtain ⟨v, hv⟩ := h.leaves q hq
  obtain ⟨s, hs, haccepting⟩ := (hf.acceptsAt_iff f.accept hf.accept_mem).2 rfl
  exact ⟨v, f.accept, s, hf.mem_alphabet hq hv, (hf.path_toNfa_iff hq).2 hv,
    getElem?_toNfa_eq_some_iff.2 ⟨hf.accept_mem, hs⟩, haccepting⟩

/-- Each symbol of a trim fragment occurs in an accepted word. -/
theorem Trim.exists_accepts (h : a.Trim f) (hf : a.Isolated f)
    (hd : Dfa.ofNfa (a.toNfa f) = .ok d) {x : Symbol} (hx : x ∈ f.alphabet) :
    ∃ w, x ∈ w ∧ d.accepts w = .ok true := by
  obtain ⟨p, hp, q, hedge⟩ := (hf.mem_alphabet_iff x).1 hx
  obtain ⟨u, hu⟩ := h.reached p hp
  obtain ⟨v, hv⟩ := h.leaves q (hf.closed p hp (some x) q hedge)
  obtain ⟨b, hb, hiff⟩ := hf.recognizes.accepts_eq hd (u ++ x :: v)
  refine ⟨u ++ x :: v, List.mem_append_right u List.mem_cons_self, ?_⟩
  rw [hb, hiff.2 (hu.trans (.read hedge hv))]

theorem Trim.alphabet_eq (h : a.Trim f) (hf : a.Isolated f)
    (hd : Dfa.ofNfa (a.toNfa f) = .ok d) : d.alphabet = f.alphabet := by
  have hdet := Dfa.determinizes_of_ofNfa hd
  refine ExtTreeSet.ext_mem fun x => ?_
  rw [Dfa.mem_alphabet_iff_of_ofNfa hd]
  constructor
  · rintro ⟨i, s, j, hs, hj⟩
    exact hdet.mem_alphabet hs hj
  · intro hx
    exact ((h.of_ofNfa hf hd).exists_edge_iff hdet.closed).2 (h.exists_accepts hf hd hx)

end Arena

namespace Pattern

open Arena

variable {a : Arena} {live : List (Pattern × Fragment)} {others : List Fragment} {p q : Pattern}
  {x : Symbol}

/-! ### Building the fragment of a pattern -/

/-- Building the fragment of a pattern keeps all the states that there were. -/
theorem grows_build (p : Pattern) (ha : a.Dense) : a.Grows (p.build a).2 [] (p.build a).1 := by
  induction p generalizing a with
  | empty => exact grows_epsilon ha
  | literal x => exact grows_oneOf ha [x]
  | wildcard => exact grows_oneOf ha Symbol.wildcard
  | concat p q ihp ihq =>
    have hp := ihp ha
    have hq := ihq hp.extends_of.dense
    have hconcat := grows_concat (f := (p.build a).1) hq.extends_of.dense hq.accept_mem
    exact hp.trans (hq.trans (hconcat.mono (by simp)))
  | union p q ihp ihq =>
    have hp := ihp ha
    have hq := ihq hp.extends_of.dense
    have hunion := grows_union (f := (p.build a).1) (g := (q.build (p.build a).2).1)
      hq.extends_of.dense
    exact hp.trans (hq.trans (hunion.mono (by simp)))
  | star p ih => exact (ih ha).trans (grows_star (ih ha).extends_of.dense)
  | plus p ih => exact (ih ha).trans (grows_plus (ih ha).extends_of.dense)
  | option p ih => exact (ih ha).trans (grows_option (ih ha).extends_of.dense)

theorem isolated_build (h : Session a live others) (p : Pattern) :
    (p.build a).2.Isolated (p.build a).1 :=
  ((h.build p).sound.recognizes _ List.mem_cons_self).toIsolated

/-- A trim fragment stays trim while the fragment of another pattern is built. -/
theorem trim_of_build (h : Session a live others) (q : Pattern)
    (hp : (p.build a).2.Trim (p.build a).1) :
    (q.build (p.build a).2).2.Trim (p.build a).1 := by
  have hgrows := grows_build q (h.build p).sound.dense
  refine hp.of_extends (isolated_build h p) hgrows.extends_of ?_
  rintro id - ⟨g, hg, -⟩
  cases hg

/-- The fragment of a pattern is trim. -/
theorem trim_build (h : Session a live others) (p : Pattern) :
    (p.build a).2.Trim (p.build a).1 := by
  induction p generalizing a live with
  | empty => exact trim_epsilon
  | literal x => exact trim_oneOf h.sound.dense (List.cons_ne_nil x [])
  | wildcard => exact trim_oneOf h.sound.dense (by decide)
  | concat p q ihp ihq =>
    have hsound := ((h.build p).build q).sound
    have hfirst := hsound.recognizes _ (List.mem_cons_of_mem _ List.mem_cons_self)
    have hdisjoint := List.rel_of_pairwise_cons hsound.disjoint List.mem_cons_self
    -- The first fragment is trim where it was built, and is kept while the second one is built.
    exact .concat hfirst.toIsolated (isolated_build (h.build p) q) hdisjoint.symm
      (trim_of_build h q (ihp h)) (ihq (h.build p))
  | union p q ihp ihq =>
    have hsound := ((h.build p).build q).sound
    have hfirst := hsound.recognizes _ (List.mem_cons_of_mem _ List.mem_cons_self)
    exact .union hsound.dense hfirst.toIsolated (isolated_build (h.build p) q)
      (trim_of_build h q (ihp h)) (ihq (h.build p))
  | star p ih => exact .star (h.build p).sound.dense (isolated_build h p) (ih h)
  | plus p ih => exact .plus (h.build p).sound.dense (isolated_build h p) (ih h)
  | option p ih => exact .option (h.build p).sound.dense (isolated_build h p) (ih h)

/-! ### The symbols of a text -/

/-- The literals among the tokens are symbols of the text. -/
theorem mem_of_literal_mem_tokens {regular : Symbol → Bool} {d : Nat} {b : Bool} {s : List Symbol}
    (h : .literal x ∈ tokens regular d b s) : x ∈ s := by
  fun_induction tokens regular d b s
  case case1 => cases List.eq_of_mem_replicate h
  case case7 y s _ _ _ _ ih =>
    rcases List.mem_cons.1 h with heq | h
    · cases heq
      exact .tail _ (.head s)
    · exact .tail _ (.tail y (ih h))
  case case10 y s _ _ _ _ _ _ _ ih =>
    rcases List.mem_cons.1 h with heq | h
    · cases heq
      exact .head s
    · exact .tail y (ih h)
  -- The other tokens are no literals.
  all_goals simp_all

/-- The symbols that a text names are its own and those of the wildcard. -/
theorem mem_of_mem_symbols {s : List Symbol} (hx : x ∈ (ofSymbols s).symbols) :
    x ∈ s ∨ x ∈ Symbol.wildcard := by
  obtain ⟨-, ts, hts, hderives⟩ := derives_readAlternatives 0 s
  refine (hderives.mem_symbols (List.mem_singleton.2 rfl) hx).imp_left fun hliteral => ?_
  exact mem_of_literal_mem_tokens (hts ▸ List.mem_append_left _ hliteral)

/-- The symbols that a text names are those of codes. -/
theorem exists_ofCode_of_mem_symbols {t : LooseText}
    (hx : x ∈ (ofSymbols (Symbol.ofLooseText t)).symbols) : ∃ n, x = Symbol.ofCode n := by
  rcases mem_of_mem_symbols hx with hmem | hwildcard
  · exact Symbol.exists_ofLooseText_eq_iff.1 ⟨t, rfl⟩ x hmem
  · have hmem : x ∈ Symbol.ofLooseText Symbol.wildcardText := hwildcard
    exact Symbol.exists_ofLooseText_eq_iff.1 ⟨_, rfl⟩ x hmem

/-- The automaton of a pattern reads the symbols that the pattern names. -/
theorem mem_alphabet_iff_mem_symbols {d : Dfa} (hd : Dfa.ofNfa p.toNfa = .ok d) :
    x ∈ d.alphabet ↔ x ∈ p.symbols := by
  rw [(trim_build Session.new p).alphabet_eq (isolated_build Session.new p) hd]
  exact mem_alphabet_build p {}

/-- The symbols that the automaton of a text reads are named by the text. -/
theorem mem_symbols_of_mem_alphabet {s : List Symbol} {d : Dfa}
    (hd : Dfa.ofNfa (ofSymbols s).toNfa = .ok d) (hx : x ∈ d.alphabet) :
    x ∈ (ofSymbols s).symbols := by
  obtain ⟨i, st, j, hs, hj⟩ := (Dfa.mem_alphabet_iff_of_ofNfa hd).1 hx
  have hmem := (Dfa.determinizes_of_ofNfa hd).mem_alphabet hs hj
  exact (mem_alphabet_build _ {}).1 hmem

/-- The symbols that the automaton of a text reads are those of codes. -/
theorem exists_ofCode_of_mem_alphabet {t : LooseText} {d : Dfa}
    (hd : Dfa.ofNfa (ofSymbols (Symbol.ofLooseText t)).toNfa = .ok d) (hx : x ∈ d.alphabet) :
    ∃ n, x = Symbol.ofCode n :=
  exists_ofCode_of_mem_symbols (mem_symbols_of_mem_alphabet hd hx)

/-! ### The automaton of a text -/

/-- **Automata of patterns are trim.** In the deterministic automaton of a text each state can be
reached, and from each state an accepting one can be reached. No state is dead, and some text is
accepted. The alphabet is that of the nondeterministic automaton. It holds the symbols that occur in
accepted texts, and the reserved symbols are not among them. -/
theorem trim_of_text (t : LooseText) :
    ∃ d, Dfa.ofNfa (ofSymbols (Symbol.ofLooseText t)).toNfa = .ok d ∧ d.Trim ∧
      d.deadStates = ∅ ∧ (∃ w : LooseText, d.accepts (Symbol.ofLooseText w) = .ok true) ∧
      d.alphabet = (ofSymbols (Symbol.ofLooseText t)).toNfa.alphabet ∧
      (∀ x, x ∈ d.alphabet ↔
        ∃ w : LooseText, x ∈ Symbol.ofLooseText w ∧ d.accepts (Symbol.ofLooseText w) = .ok true) ∧
      Symbol.blank ∉ d.alphabet ∧ Symbol.endMarker ∉ d.alphabet := by
  obtain ⟨p, hp⟩ : ∃ p, ofSymbols (Symbol.ofLooseText t) = p := ⟨_, rfl⟩
  obtain ⟨d, hd⟩ := exists_ofNfa_toNfa p
  have hisolated := isolated_build Session.new p
  have hfragment := trim_build Session.new p
  have hclosed := (Dfa.determinizes_of_ofNfa hd).closed
  have htrim : d.Trim := hfragment.of_ofNfa hisolated hd
  have halphabet : d.alphabet = p.toNfa.alphabet := hfragment.alphabet_eq hisolated hd
  have hsymbols (x : Symbol) : x ∈ d.alphabet ↔ x ∈ p.symbols := by
    rw [halphabet]
    exact mem_alphabet_build p {}
  have hoccurs (x : Symbol) : x ∈ d.alphabet ↔ ∃ w, x ∈ w ∧ d.accepts w = .ok true := by
    rw [Dfa.mem_alphabet_iff_of_ofNfa hd, htrim.exists_edge_iff hclosed]
  have htext {w : List Symbol} (hw : d.accepts w = .ok true) :
      ∃ text, Symbol.ofLooseText text = w := by
    refine Symbol.exists_ofLooseText_eq_iff.2 fun x hx => exists_ofCode_of_mem_symbols (t := t) ?_
    rw [hp, ← hsymbols, hoccurs]
    exact ⟨w, hx, hw⟩
  have hreserved (x : Symbol) (hx : x.isReserved = true) : x ∉ d.alphabet := by
    rw [hsymbols, ← hp]
    exact fun hmem => not_isReserved_of_mem_symbols hmem hx
  refine ⟨d, hp ▸ hd, htrim, htrim.deadStates_eq_empty, ?_, hp ▸ halphabet, fun x => ?_,
    hreserved _ rfl, hreserved _ rfl⟩
  · obtain ⟨w, hw⟩ := htrim.exists_accepts hclosed
    obtain ⟨text, rfl⟩ := htext hw
    exact ⟨text, hw⟩
  · rw [hoccurs]
    constructor
    · rintro ⟨w, hx, hw⟩
      obtain ⟨text, rfl⟩ := htext hw
      exact ⟨text, hx, hw⟩
    · rintro ⟨text, hx, hw⟩
      exact ⟨Symbol.ofLooseText text, hx, hw⟩

end Pattern

end PatternMachines
