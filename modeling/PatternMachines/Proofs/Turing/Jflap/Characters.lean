import PatternMachines.Proofs.Batch.Characters
import PatternMachines.Proofs.Pattern.Escaped
import PatternMachines.Proofs.Turing.Jflap.Faithful

/-!
# The characters of JFLAP documents

A document is made of plain characters and line feeds, and besides these of the characters of names,
symbols and moves. The document of the machine of a pattern holds no others than those of the
symbols that the automaton reads. Not all of them are allowed in a document: a control character is
a literal where it is escaped, and it is written into the document as it is.

## Main definitions

* `Text.Markup.isAllowed`: the characters that a document may hold.
* `Turing.Jflap.isCommon`: the characters that the frame of a document is made of.

## Main results

* `Turing.Jflap.Portable.mem_toJflap_iff`: the characters of a document.
* `Pattern.mem_toJflap_iff_mem_escaped`: the characters of the document of a pattern that are not
  allowed are the ones that are escaped in the pattern.
-/

namespace PatternMachines

open Std Text

/-! ### Allowed characters -/

namespace Text.Markup

/-- The characters that XML 1.0 allows in a document. -/
def isAllowed (c : Char) : Bool :=
  c == '\t' || c == '\n' || c == '\r' || (0x20 ≤ c.toNat && c.toNat ≤ 0xd7ff) ||
    (0xe000 ≤ c.toNat && c.toNat ≤ 0xfffd) || (0x10000 ≤ c.toNat && c.toNat ≤ 0x10ffff)

variable {c : Char}

theorem isAllowed_of_isPlain (h : isPlain c = true) : isAllowed c = true := by
  simp only [isPlain, Bool.and_eq_true, decide_eq_true_eq] at h
  have hrange : 0x20 ≤ c.toNat ∧ c.toNat ≤ 0xd7ff := ⟨h.1, by omega⟩
  simp [isAllowed, hrange]

/-- The characters that are not allowed are control characters and two that are no characters. -/
theorem toNat_of_not_isAllowed (h : isAllowed c = false) :
    c.toNat < 0x20 ∨ c.toNat = 0xfffe ∨ c.toNat = 0xffff := by
  have hvalid : c.toNat < 0xd800 ∨ 0xdfff < c.toNat ∧ c.toNat < 0x110000 := c.valid
  simp only [isAllowed, Bool.or_eq_false_iff, Bool.and_eq_false_iff, decide_eq_false_iff_not] at h
  omega

/-- A character that is not allowed is no literal by itself. -/
theorem not_standsForItself_of_not_isAllowed (h : isAllowed c = false) :
    Pattern.standsForItself (String.singleton c) = false := by
  have hcodes : ∀ n ∈ List.range 0x20 ++ [0xfffe, 0xffff], isAllowed (Char.ofNat n) = false →
      Pattern.standsForItself (String.singleton (Char.ofNat n)) = false := by decide +kernel
  have hmem : c.toNat ∈ List.range 0x20 ++ [0xfffe, 0xffff] := by
    simpa using toNat_of_not_isAllowed h
  rw [← Char.ofNat_toNat c] at h ⊢
  exact hcodes _ hmem h

end Text.Markup

/-! ### The characters of a document -/

namespace Turing.Jflap

open Text.Markup

variable {m : Machine} {start name element text : String} {c : Char}

/-- The characters that the frame of a document, its tags and numbers, is made of. -/
def isCommon (c : Char) : Bool := isPlain c || c == '\n'

theorem isCommon_of_not_isAllowed (hc : isAllowed c = false) : isCommon c = false := by
  rw [isCommon, Bool.or_eq_false_iff, beq_eq_false_iff_ne]
  constructor
  · exact Bool.eq_false_iff.2 fun h => Bool.eq_false_iff.1 hc (isAllowed_of_isPlain h)
  · rintro rfl
    cases hc

theorem isPlain_of_not_isCommon (hc : isCommon c = false) : isPlain c = false :=
  (Bool.or_eq_false_iff.1 hc).1

theorem not_mem_of_all_isCommon (hc : isCommon c = false) {cs : List Char}
    (hcs : cs.all isCommon = true) : c ∉ cs := by
  intro hmem
  rw [List.all_eq_true.1 hcs c hmem] at hc
  cases hc

theorem ne_of_isCommon (hc : isCommon c = false) {b : Char} (hb : isCommon b = true) : c ≠ b := by
  rintro rfl
  rw [hb] at hc
  cases hc

/-- Escaping changes plain characters only. -/
theorem mem_escape_iff (hc : isCommon c = false) (s : String) :
    c ∈ (escape s).toList ↔ c ∈ s.toList := by
  constructor
  · intro h
    rcases mem_escape h with ⟨h, -⟩ | h
    · exact h
    · exact absurd h (not_mem_of_all_isCommon hc (by decide))
  · intro h
    have hsame : escapeChar c = [c] := by
      rw [escapeChar, if_neg (ne_of_isCommon hc rfl), if_neg (ne_of_isCommon hc rfl),
        if_neg (ne_of_isCommon hc rfl)]
    rw [toList_escape, List.mem_flatMap]
    exact ⟨c, h, hsame ▸ List.mem_singleton.2 rfl⟩

theorem not_mem_toString_of_not_isCommon (hc : isCommon c = false) (n : Nat) :
    c ∉ (toString n).toList := by
  refine not_mem_toString_nat (Bool.eq_false_iff.2 fun hdigit => ?_)
  exact Bool.eq_false_iff.1 (isPlain_of_not_isCommon hc) (isPlain_of_isDigit hdigit)

theorem mem_written_iff (hc : isCommon c = false) (k : Mark) :
    c ∈ k.written ↔ c ∈ k.before.toList ∨ c ∈ k.tag.toList := by
  simp [Mark.written, ne_of_isCommon hc (b := '<') rfl, ne_of_isCommon hc (b := '>') rfl]

theorem mem_fieldMarks_iff (hc : isCommon c = false) (helement : element.toList.all isCommon = true)
    (text : String) : c ∈ (fieldMarks element text).flatMap Mark.written ↔ c ∈ text.toList := by
  have hname := not_mem_of_all_isCommon hc helement
  have hindent : c ∉ "\n      ".toList := not_mem_of_all_isCommon hc (by decide)
  have hslash : c ∉ "/".toList := not_mem_of_all_isCommon hc (by decide)
  simp only [fieldMarks, List.flatMap_cons, List.flatMap_nil, List.mem_append, mem_written_iff hc,
    String.toList_append, hname, hindent, hslash, List.not_mem_nil, or_false, false_or]

/-- The blank is not written. -/
theorem mem_symbolMarks_iff (hc : isCommon c = false)
    (helement : element.toList.all isCommon = true) (x : Symbol) :
    c ∈ (symbolMarks m element x).flatMap Mark.written ↔ x ≠ m.blank ∧ c ∈ x.toList := by
  rw [symbolMarks]
  split
  case isTrue hblank =>
    have hname := not_mem_of_all_isCommon hc helement
    have hindent : c ∉ "\n      ".toList := not_mem_of_all_isCommon hc (by decide)
    have hslash : c ∉ "/".toList := not_mem_of_all_isCommon hc (by decide)
    simp only [List.flatMap_cons, List.flatMap_nil, List.mem_append, mem_written_iff hc,
      String.toList_append, hname, hindent, hslash, List.not_mem_nil, or_false, hblank, ne_eq,
      not_true_eq_false, false_and]
  case isFalse hblank =>
    rw [mem_fieldMarks_iff hc helement, mem_escape_iff hc, ne_eq, and_iff_right hblank]

theorem mem_stateMarks_iff (hc : isCommon c = false) (name : String) (number : Nat) :
    c ∈ (stateMark name number :: stateContent m start name ++ [stateClose]).flatMap Mark.written ↔
      c ∈ name.toList := by
  have hcontent : c ∉ (stateContent m start name).flatMap Mark.written := by
    rw [List.mem_flatMap]
    rintro ⟨k, hk, hmem⟩
    rcases eq_of_mem_stateContent hk with rfl | rfl
    · exact not_mem_of_all_isCommon hc (by decide) hmem
    · exact not_mem_of_all_isCommon hc (by decide) hmem
  have hclose : c ∉ stateClose.written := not_mem_of_all_isCommon hc (by decide)
  have hindent : c ∉ "\n    ".toList := not_mem_of_all_isCommon hc (by decide)
  have hid : c ∉ "state id=\"".toList := not_mem_of_all_isCommon hc (by decide)
  have hname : c ∉ "\" name=\"".toList := not_mem_of_all_isCommon hc (by decide)
  have hquote : c ∉ "\"".toList := not_mem_of_all_isCommon hc (by decide)
  have hnumber := not_mem_toString_of_not_isCommon hc number
  rw [List.cons_append, List.flatMap_cons, List.flatMap_append, List.flatMap_singleton,
    List.mem_append, List.mem_append, mem_written_iff hc, stateMark]
  simp only [String.toList_append, List.mem_append, hcontent, hclose, hindent, hid, hname, hquote,
    hnumber, mem_escape_iff hc, or_false, false_or]

theorem mem_transitionMarks_iff (hc : isCommon c = false) (number : String → Nat)
    (t : Transition) :
    c ∈ (transitionMark :: transitionContent m number t ++ [transitionClose]).flatMap Mark.written ↔
      (t.read ≠ m.blank ∧ c ∈ t.read.toList) ∨ (t.write ≠ m.blank ∧ c ∈ t.write.toList) ∨
        c ∈ t.move.toList := by
  have hopen : c ∉ transitionMark.written := not_mem_of_all_isCommon hc (by decide)
  have hclose : c ∉ transitionClose.written := not_mem_of_all_isCommon hc (by decide)
  have hfield (element text : String) (helement : element.toList.all isCommon = true) :=
    mem_fieldMarks_iff hc helement text
  have hsymbol (element : String) (x : Symbol) (helement : element.toList.all isCommon = true) :=
    mem_symbolMarks_iff (m := m) hc helement x
  rw [List.cons_append, List.flatMap_cons, List.flatMap_append, List.flatMap_singleton,
    List.mem_append, List.mem_append, transitionContent]
  simp only [List.flatMap_append, List.mem_append, hopen, hclose, hfield "from" _ (by decide),
    hfield "to" _ (by decide), hfield "move" _ (by decide), hsymbol "read" _ (by decide),
    hsymbol "write" _ (by decide), not_mem_toString_of_not_isCommon hc, or_false, false_or,
    or_assoc]

/-- The characters of a document, but for the common ones. -/
theorem Portable.mem_toJflap_iff (h : Portable m start) (htext : m.toJflap = .ok text)
    (hc : isCommon c = false) : c ∈ text.toList ↔
      (∃ name ∈ m.states, c ∈ name.toList) ∨ ∃ t ∈ m.transitions,
        (t.read ≠ m.blank ∧ c ∈ t.read.toList) ∨ (t.write ≠ m.blank ∧ c ∈ t.write.toList) ∨
          c ∈ t.move.toList := by
  obtain ⟨text', htext', hmarks⟩ := h.toJflap_eq_ok
  obtain rfl := Except.ok.inj (htext.symm.trans htext')
  have hopening : c ∉ openingMarks.flatMap Mark.written := not_mem_of_all_isCommon hc (by decide)
  have hclosing : c ∉ closingMarks.flatMap Mark.written := not_mem_of_all_isCommon hc (by decide)
  have hnames : (∃ s ∈ (stateOrder m start).zipIdx, c ∈ s.1.toList) ↔
      ∃ name ∈ m.states, c ∈ name.toList := by
    constructor
    · rintro ⟨s, hs, hmem⟩
      have hname := List.mem_map_of_mem (f := Prod.fst) hs
      rw [List.zipIdx_map_fst, mem_stateOrder h.start_mem] at hname
      exact ⟨s.1, hname, hmem⟩
    · rintro ⟨name, hname, hmem⟩
      rw [← mem_stateOrder h.start_mem, ← List.zipIdx_map_fst 0 (stateOrder m start)] at hname
      obtain ⟨s, hs, rfl⟩ := List.mem_map.1 hname
      exact ⟨s, hs, hmem⟩
  rw [hmarks, documentMarks, List.flatMap_append, List.flatMap_append, List.flatMap_append,
    List.flatMap_assoc, List.flatMap_assoc]
  simp only [List.mem_append, hopening, hclosing, false_or, or_false]
  rw [List.mem_flatMap, List.mem_flatMap]
  simp only [mem_stateMarks_iff hc, mem_transitionMarks_iff hc, hnames]

end Turing.Jflap

/-! ### The document of the machine of a pattern -/

namespace Turing.Machine

open Jflap Text.Markup

variable {d : Dfa} {c : Char} {text p : String}

/-- The document of the machine of an automaton holds the characters of the symbols that the
automaton reads, but for the common ones. -/
theorem mem_toJflap_ofDfa_iff (hportable : Portable (ofDfa d) (stateName d.start))
    (htext : (ofDfa d).toJflap = .ok text) (hc : isCommon c = false) :
    c ∈ text.toList ↔ ∃ (id : StateId) (s : DfaState) (x : Symbol) (target : StateId),
      d.states[id]? = some s ∧ s.edges[x]? = some target ∧ c ∈ x.toList := by
  have hmarker : c ∉ Symbol.endMarker.toList := not_mem_of_all_isCommon hc (by decide)
  have hblank : c ∉ Symbol.blank.toList := not_mem_of_all_isCommon hc (by decide)
  have hmove : c ∉ moveRight.toList := not_mem_of_all_isCommon hc (by decide)
  have hname : ∀ name ∈ (ofDfa d).states, c ∉ name.toList := by
    intro name hname hmem
    rcases mem_states_ofDfa_iff.1 hname with ⟨id, -, rfl⟩ | rfl | rfl
    · have hplain : MadeOf [] (stateName id) :=
        madeOf_append.2 ⟨madeOf_of_all (by decide), madeOf_toString id⟩
      rcases hplain c hmem with h | h
      · cases h
      · exact Bool.eq_false_iff.1 (isPlain_of_not_isCommon hc) h
    · exact not_mem_of_all_isCommon hc (by decide) hmem
    · exact not_mem_of_all_isCommon hc (by decide) hmem
  rw [hportable.mem_toJflap_iff htext hc]
  constructor
  · rintro (⟨name, hmem, hcname⟩ | ⟨t, ht, hct⟩)
    · exact absurd hcname (hname name hmem)
    · obtain ⟨id, s, hs, ⟨x, target, hx, rfl⟩ | rfl⟩ := mem_transitions_ofDfa_iff.1 ht
      · have hcx : x ≠ (ofDfa d).blank ∧ c ∈ x.toList := by simpa [hmove] using hct
        exact ⟨id, s, x, target, hs, hx, hcx.2⟩
      · simp [hmarker, hmove] at hct
  · rintro ⟨id, s, x, target, hs, hx, hcx⟩
    have hne : x ≠ (ofDfa d).blank := by
      rintro rfl
      exact hblank hcx
    exact .inr ⟨_, mem_transitions_ofDfa_iff.2 ⟨id, s, hs, .inl ⟨x, target, hx, rfl⟩⟩,
      .inl ⟨hne, hcx⟩⟩

end Turing.Machine

namespace Pattern

open PatternMachines.Turing PatternMachines.Turing.Jflap Text.Markup

variable {d : Dfa} {c : Char} {x : Symbol} {text p : String}

/-- The symbols that the automaton of a text reads are characters. -/
theorem exists_singleton_of_mem_alphabet
    (hd : Dfa.ofNfa (ofSymbols (Symbol.ofText p)).toNfa = .ok d) (hx : x ∈ d.alphabet) :
    ∃ b, x = String.singleton b := by
  rcases mem_of_mem_symbols (mem_symbols_of_mem_alphabet hd hx) with hmem | hmem
  · obtain ⟨b, -, rfl⟩ := List.mem_map.1 hmem
    exact ⟨b, rfl⟩
  · obtain ⟨b, -, rfl⟩ := List.mem_map.1 hmem
    exact ⟨b, rfl⟩

theorem portable_of_text (hd : Dfa.ofNfa (ofSymbols (Symbol.ofText p)).toNfa = .ok d) :
    Portable (Machine.ofDfa d) (stateName d.start) := by
  refine Machine.portable_ofDfa (Dfa.determinizes_of_ofNfa hd).closed ?_
  rintro id s _ target hs hx rfl
  obtain ⟨b, hb⟩ := exists_singleton_of_mem_alphabet hd
    ((Dfa.mem_alphabet_iff_of_ofNfa hd).2 ⟨id, s, target, hs, hx⟩)
  have hlist := congrArg String.toList hb
  rw [String.toList_singleton] at hlist
  cases hlist

/-- A character that is not allowed is read by the automaton of a text if it is escaped there. -/
theorem mem_alphabet_iff_mem_escaped (hd : Dfa.ofNfa (ofSymbols (Symbol.ofText p)).toNfa = .ok d)
    (hc : isAllowed c = false) :
    String.singleton c ∈ d.alphabet ↔ String.singleton c ∈ escaped (Symbol.ofText p) := by
  have hliteral := not_standsForItself_of_not_isAllowed hc
  have hwildcard : String.singleton c ∉ Symbol.wildcard := by
    have hself : ∀ x ∈ Symbol.wildcard, standsForItself x = true := by decide
    exact fun hmem => Bool.eq_false_iff.1 hliteral (hself _ hmem)
  have hregular : ∀ y ∈ Symbol.ofText p, Symbol.isRegular y = standsForItself y :=
    fun y hy => isRegular_of_mem_ofLooseText (t := .proper p) hy
  rw [mem_alphabet_iff_mem_symbols hd, mem_symbols_ofSymbols_iff hregular hliteral hwildcard]

/-- The document of the machine of a text holds the characters that are escaped in the text and not
allowed in the document. -/
theorem mem_toJflap_iff_mem_escaped (hd : Dfa.ofNfa (ofSymbols (Symbol.ofText p)).toNfa = .ok d)
    (htext : (Machine.ofDfa d).toJflap = .ok text) (hc : isAllowed c = false) :
    c ∈ text.toList ↔ String.singleton c ∈ escaped (Symbol.ofText p) := by
  rw [Machine.mem_toJflap_ofDfa_iff (portable_of_text hd) htext (isCommon_of_not_isAllowed hc),
    ← mem_alphabet_iff_mem_escaped hd hc, Dfa.mem_alphabet_iff_of_ofNfa hd]
  constructor
  · rintro ⟨id, s, x, target, hs, hx, hcx⟩
    obtain ⟨b, rfl⟩ := exists_singleton_of_mem_alphabet hd
      ((Dfa.mem_alphabet_iff_of_ofNfa hd).2 ⟨id, s, target, hs, hx⟩)
    obtain rfl : c = b := by simpa using hcx
    exact ⟨id, s, target, hs, hx⟩
  · rintro ⟨id, s, target, hs, hx⟩
    exact ⟨id, s, _, target, hs, hx, by simp⟩

end Pattern

end PatternMachines
