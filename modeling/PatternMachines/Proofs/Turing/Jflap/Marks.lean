import PatternMachines.Proofs.Fallible
import PatternMachines.Proofs.Nfa.Path
import PatternMachines.Proofs.Text.Markup
import PatternMachines.Turing.Jflap

/-!
# The marks of JFLAP documents

The document of a machine is written mark by mark: some opening marks, a block of marks for each
state and for each transition, and some closing marks. Since texts are escaped, the marks of the
document are exactly these, whatever the symbols of the machine are.

## Main definitions

* `Turing.Jflap.Portable`: the machines whose documents say what there is to say about them.
* `Turing.Jflap.documentMarks`: the marks of the document.

## Main results

* `Turing.Jflap.unescape_escape`, `Turing.Jflap.mem_escape`: escaped texts.
* `Turing.Jflap.Portable.exists_marks_eq`: the document exists and has these marks.
-/

namespace PatternMachines.Turing.Jflap

open Std Text.Markup

/-! ### Escaped texts -/

theorem toList_escape (s : String) : (escape s).toList = s.toList.flatMap escapeChar :=
  String.toList_ofList

theorem unescape_flatMap_escapeChar (cs : List Char) : unescape (cs.flatMap escapeChar) = cs := by
  induction cs with
  | nil => rfl
  | cons c cs ih =>
    rw [List.flatMap_cons, escapeChar]
    split
    case isTrue h => subst h; simp [unescape, ih]
    split
    case isTrue h => subst h; simp [unescape, ih]
    split
    case isTrue h => subst h; simp [unescape, ih]
    case isFalse hamp _ _ => rw [List.singleton_append, unescape_cons hamp, ih]

theorem unescape_escape (s : String) : unescape (escape s).toList = s.toList := by
  rw [toList_escape, unescape_flatMap_escapeChar]

/-- A character of an escaped text is one of the text or of a reference. -/
theorem mem_escape {s : String} {c : Char} (hc : c ∈ (escape s).toList) :
    (c ∈ s.toList ∧ c ≠ '<' ∧ c ≠ '>') ∨ c ∈ "&;ampltg".toList := by
  rw [toList_escape, List.mem_flatMap] at hc
  obtain ⟨b, hb, hc⟩ := hc
  rw [escapeChar] at hc
  split at hc
  case isTrue => right; revert hc; simp; tauto
  split at hc
  case isTrue => right; revert hc; simp; tauto
  split at hc
  case isTrue => right; revert hc; simp; tauto
  case isFalse hlt hgt =>
    obtain rfl := List.mem_singleton.1 hc
    exact .inl ⟨hb, hlt, hgt⟩

theorem not_mem_escape (s : String) : '<' ∉ (escape s).toList ∧ '>' ∉ (escape s).toList := by
  constructor
  · intro h
    rcases mem_escape h with ⟨_, h, _⟩ | h
    · exact h rfl
    · simp at h
  · intro h
    rcases mem_escape h with ⟨_, _, h⟩ | h
    · exact h rfl
    · simp at h

/-! ### The marks of a document -/

/-- The marks of a field of a transition. -/
def fieldMarks (element text : String) : List Mark :=
  [⟨"\n      ", element⟩, ⟨text, "/" ++ element⟩]

/-- The marks of a symbol. -/
def symbolMarks (m : Machine) (element : String) (x : Symbol) : List Mark :=
  if x = m.blank then [⟨"\n      ", element ++ "/"⟩] else fieldMarks element (escape x)

/-- The mark that opens a state. -/
def stateMark (name : String) (number : Nat) : Mark :=
  ⟨"\n    ", "state id=\"" ++ toString number ++ "\" name=\"" ++ escape name ++ "\""⟩

/-- The marks within a state. -/
def stateContent (m : Machine) (start name : String) : List Mark :=
  (if name = start then [⟨"\n      ", "initial/"⟩] else []) ++
    if m.accepting.contains name then [⟨"\n      ", "final/"⟩] else []

/-- The mark that closes a state. -/
def stateClose : Mark := ⟨"\n    ", "/state"⟩

/-- The mark that opens a transition. -/
def transitionMark : Mark := ⟨"\n    ", "transition"⟩

/-- The marks within a transition. -/
def transitionContent (m : Machine) (number : String → Nat) (t : Transition) : List Mark :=
  fieldMarks "from" (toString (number t.source)) ++ fieldMarks "to" (toString (number t.target)) ++
    symbolMarks m "read" t.read ++ symbolMarks m "write" t.write ++ fieldMarks "move" t.move

/-- The mark that closes a transition. -/
def transitionClose : Mark := ⟨"\n    ", "/transition"⟩

/-- The marks before the states. -/
def openingMarks : List Mark :=
  [⟨"", "?xml version=\"1.0\" encoding=\"UTF-8\" standalone=\"no\"?"⟩, ⟨"\n", "structure"⟩,
    ⟨"\n  ", "type"⟩, ⟨"turing", "/type"⟩, ⟨"\n  ", "automaton"⟩]

/-- The marks after the transitions. -/
def closingMarks : List Mark := [⟨"\n  ", "/automaton"⟩, ⟨"\n", "/structure"⟩]

/-- The number of a state. -/
def numberIn (m : Machine) (start name : String) : Nat := (stateOrder m start).idxOf name

/-- The marks of a document. -/
def documentMarks (m : Machine) (start : String) : List Mark :=
  openingMarks ++
    ((stateOrder m start).zipIdx.flatMap fun s =>
      stateMark s.1 s.2 :: stateContent m start s.1 ++ [stateClose]) ++
    (m.transitions.flatMap fun t =>
      transitionMark :: transitionContent m (numberIn m start) t ++ [transitionClose]) ++
    closingMarks

/-! ### The lines of a document -/

/-- The characters of a line after another one. -/
def onNewLine (l : String) : List Char := "\n".toList ++ l.toList

theorem flatMap_written_stateMarks (m : Machine) (start name : String) (number : Nat) :
    (stateMark name number :: stateContent m start name ++ [stateClose]).flatMap Mark.written =
      (stateLines m start name number).flatMap onNewLine := by
  simp only [stateLines, stateContent, stateMark, stateClose]
  split <;> split <;> simp [onNewLine, Mark.written]

theorem flatMap_written_symbolMarks (m : Machine) (element : String) (x : Symbol) :
    (symbolMarks m element x).flatMap Mark.written = onNewLine (symbolLine m element x) := by
  rw [symbolMarks, symbolLine]
  split <;> simp [onNewLine, Mark.written, fieldMarks]

theorem flatMap_written_openingMarks : openingMarks.flatMap Mark.written =
    "<?xml version=\"1.0\" encoding=\"UTF-8\" standalone=\"no\"?>".toList ++
      ["<structure>", "  <type>turing</type>", "  <automaton>"].flatMap onNewLine := by
  simp [openingMarks, onNewLine, Mark.written]

theorem flatMap_onNewLine_closingLines :
    closingLines.flatMap onNewLine = closingMarks.flatMap Mark.written := by
  simp [closingLines, closingMarks, onNewLine, Mark.written]

/-! ### The numbers of states -/

variable {m : Machine} {start name : String}

theorem nodup_stateOrder : (stateOrder m start).Nodup := by
  rw [stateOrder, List.nodup_cons]
  exact ⟨fun h => by simp at h, (nodup_toList m.states).filter _⟩

theorem mem_stateOrder (hstart : start ∈ m.states) :
    name ∈ stateOrder m start ↔ name ∈ m.states := by
  rw [stateOrder, List.mem_cons, List.mem_filter, ExtTreeSet.mem_toList, bne_iff_ne]
  constructor
  · rintro (rfl | h)
    · exact hstart
    · exact h.1
  · tauto

theorem length_stateOrder (hstart : start ∈ m.states) :
    (stateOrder m start).length = m.states.size := by
  have hperm : (stateOrder m start).Perm m.states.toList :=
    (List.perm_ext_iff_of_nodup nodup_stateOrder (nodup_toList m.states)).2 fun name => by
      rw [mem_stateOrder hstart, ExtTreeSet.mem_toList]
  rw [hperm.length_eq, ExtTreeSet.length_toList]

theorem numberOf_eq_ok (h : name ∈ stateOrder m start) :
    numberOf (.ofList (stateOrder m start).zipIdx) name =
      .ok (toString (numberIn m start name)) := by
  rw [numberOf, (getElem?_ofList_zipIdx_eq_some_iff nodup_stateOrder).2
    (List.getElem?_idxOf h)]
  rfl

theorem exists_transitionLines {t : Transition}
    (hsource : t.source ∈ stateOrder m start) (htarget : t.target ∈ stateOrder m start) :
    ∃ lines, transitionLines m (.ofList (stateOrder m start).zipIdx) t = .ok lines ∧
      lines.flatMap onNewLine =
        (transitionMark :: transitionContent m (numberIn m start) t ++
          [transitionClose]).flatMap Mark.written := by
  rw [transitionLines, numberOf_eq_ok hsource, numberOf_eq_ok htarget]
  refine ⟨_, rfl, ?_⟩
  have hread := flatMap_written_symbolMarks m "read" t.read
  have hwrite := flatMap_written_symbolMarks m "write" t.write
  simp [transitionContent, hread, hwrite, transitionMark, transitionClose, fieldMarks, onNewLine,
    Mark.written]

/-! ### The document -/

/-- Whether the document of a machine says what there is to say about it. -/
structure Portable (m : Machine) (start : String) : Prop where
  /-- Runs begin in the given state. -/
  start_eq : m.start = some start
  /-- The start is a state. -/
  start_mem : start ∈ m.states
  /-- The accepting states are states. -/
  accepting_mem : ∀ name ∈ m.accepting, name ∈ m.states
  /-- Transitions lead from states to states. -/
  states_mem : ∀ t ∈ m.transitions, t.source ∈ m.states ∧ t.target ∈ m.states
  /-- The names of states can stand between quotation marks. -/
  quote_not_mem : ∀ name ∈ m.states, '"' ∉ name.toList
  /-- No symbol is empty. -/
  symbols_ne : ∀ t ∈ m.transitions, t.read ≠ "" ∧ t.write ≠ ""
  /-- Moves have no character that has to be escaped. -/
  escape_move : ∀ t ∈ m.transitions, escape t.move = t.move

/-- Blocks that are written item by item are written one after the other. -/
theorem flatMap_flatten_of_forall₂ {α β γ : Type} {f : α → List γ} {g : β → List γ} {xs : List α}
    {blocks : List (List β)} (h : List.Forall₂ (fun x block => block.flatMap g = f x) xs blocks) :
    blocks.flatten.flatMap g = xs.flatMap f := by
  induction h with
  | nil => rfl
  | cons hblock _ ih => rw [List.flatten_cons, List.flatMap_append, hblock, ih, List.flatMap_cons]

/-- The document of a portable machine is written mark by mark. -/
theorem Portable.toJflap_eq_ok (h : Portable m start) :
    ∃ text, m.toJflap = .ok text ∧
      text.toList = (documentMarks m start).flatMap Mark.written := by
  have hlines : ∀ t ∈ m.transitions, ∃ lines,
      transitionLines m (.ofList (stateOrder m start).zipIdx) t = .ok lines ∧
      lines.flatMap onNewLine =
        (transitionMark :: transitionContent m (numberIn m start) t ++
          [transitionClose]).flatMap Mark.written := fun t ht =>
    exists_transitionLines ((mem_stateOrder h.start_mem).2 (h.states_mem t ht).1)
      ((mem_stateOrder h.start_mem).2 (h.states_mem t ht).2)
  obtain ⟨blocks, hblocks, hfit⟩ := exists_mapM_eq_ok hlines
  rw [Machine.toJflap, h.start_eq]
  simp only [hblocks]
  refine ⟨_, rfl, ?_⟩
  rw [openingLines, List.cons_append, List.cons_append, List.cons_append, Text.toList_join_cons]
  change _ ++ List.flatMap onNewLine _ = _
  rw [List.flatMap_append, List.flatMap_append, List.flatMap_append, List.flatMap_assoc,
    flatMap_flatten_of_forall₂ hfit, flatMap_onNewLine_closingLines, documentMarks,
    List.flatMap_append, List.flatMap_append, List.flatMap_append, flatMap_written_openingMarks,
    List.flatMap_assoc, List.flatMap_assoc]
  simp only [flatMap_written_stateMarks, List.append_assoc]

/-! ### Marks that can be told apart -/

/-- Numbers are written with digits only. -/
theorem not_mem_toString_nat {n : Nat} {c : Char} (hc : c.isDigit = false) :
    c ∉ (toString n).toList := by
  intro hmem
  have hrepr : toString n = Nat.repr n := rfl
  rw [hrepr, Nat.toList_repr] at hmem
  rw [Nat.isDigit_of_mem_toDigits (by decide) (by decide) hmem] at hc
  cases hc

theorem proper_fieldMarks {element text : String} (helement : '>' ∉ element.toList)
    (htext : '<' ∉ text.toList ∧ '>' ∉ text.toList) : ∀ k ∈ fieldMarks element text, k.Proper := by
  simp only [fieldMarks, List.forall_mem_cons]
  exact ⟨⟨by simp, by simp, helement⟩, ⟨htext.1, htext.2, by simp [helement]⟩, by simp⟩

theorem proper_symbolMarks {element : String} (helement : '>' ∉ element.toList) (x : Symbol) :
    ∀ k ∈ symbolMarks m element x, k.Proper := by
  rw [symbolMarks]
  split
  · rw [List.forall_mem_singleton]
    exact ⟨by simp, by simp, by simp [helement]⟩
  · exact proper_fieldMarks helement (not_mem_escape x)

theorem proper_stateMark (name : String) (number : Nat) : (stateMark name number).Proper where
  opens := by simp [stateMark]
  closes := by simp [stateMark]
  ends := by
    have hnumber : '>' ∉ (toString number).toList := not_mem_toString_nat (by decide)
    simp only [stateMark, String.toList_append, List.mem_append, hnumber, (not_mem_escape name).2]
    decide

theorem eq_of_mem_stateContent {k : Mark} (hk : k ∈ stateContent m start name) :
    k = ⟨"\n      ", "initial/"⟩ ∨ k = ⟨"\n      ", "final/"⟩ := by
  rw [stateContent, List.mem_append] at hk
  rcases hk with hk | hk <;> split at hk <;> simp_all

theorem proper_documentMarks (h : Portable m start) : ∀ k ∈ documentMarks m start, k.Proper := by
  have hnumber (name : String) : '<' ∉ (toString (numberIn m start name)).toList ∧
      '>' ∉ (toString (numberIn m start name)).toList :=
    ⟨not_mem_toString_nat (by decide), not_mem_toString_nat (by decide)⟩
  intro k hk
  simp only [documentMarks, List.mem_append, List.mem_flatMap, List.mem_cons, List.not_mem_nil,
    or_false, transitionContent] at hk
  rcases hk with ((hk | ⟨s, -, (rfl | hk) | rfl⟩) | ⟨t, ht, (rfl | hk) | rfl⟩) | hk
  · revert k
    decide
  · exact proper_stateMark s.1 s.2
  · rcases eq_of_mem_stateContent hk with rfl | rfl <;> decide
  · decide
  · decide
  · rcases hk with (((hk | hk) | hk) | hk) | hk
    · exact proper_fieldMarks (by decide) (hnumber _) k hk
    · exact proper_fieldMarks (by decide) (hnumber _) k hk
    · exact proper_symbolMarks (by decide) _ k hk
    · exact proper_symbolMarks (by decide) _ k hk
    · exact proper_fieldMarks (by decide) (h.escape_move t ht ▸ not_mem_escape t.move) k hk
  · decide
  · revert k
    decide

/-- The document of a portable machine exists, and the reader finds its marks. -/
theorem Portable.exists_marks_eq (h : Portable m start) :
    ∃ text, m.toJflap = .ok text ∧ marks text.toList = documentMarks m start := by
  obtain ⟨text, htext, hmarks⟩ := h.toJflap_eq_ok
  exact ⟨text, htext, hmarks ▸ marks_flatMap_written (proper_documentMarks h)⟩

end PatternMachines.Turing.Jflap
